import BuildMetrics.Command.Run
import Std.Async.DNS
import Std.Async.TCP
import Std.Time

/-!
# The command line

Gives a command the file system, the network and the clock, prints what it has to say, and ends
with its exit code.
-/

namespace BuildMetrics

open Std.Net (IPAddr SocketAddress)
open Std.Async (Async)
open Std.Async.TCP.Socket (Client)

/-- The outcome of an action, with the reason if it fails. -/
def outcomeOf (action : IO α) : IO (Except String α) := do
  match ← action.toBaseIO with
  | .ok a => return .ok a
  | .error e => return .error (toString e)

/-- The bytes of a file. -/
def fileBytes (path : String) : IO (Except String (List UInt8)) :=
  outcomeOf do return (← IO.FS.readBinFile path).toList

/-- An address with a port. -/
def socketAddress (port : UInt16) : IPAddr → SocketAddress
  | .v4 addr => .v4 ⟨addr, port⟩
  | .v6 addr => .v6 ⟨addr, port⟩

/-- A connection over a socket. -/
def connectionOf (client : Client) : Connection IO where
  write bytes := outcomeOf (client.send bytes.toByteArray).block
  shut := do
    let _ ← outcomeOf client.shutdown.block

/-- Connects to the first address that answers. -/
def connectFirst (port : UInt16) (failure : String) : List IPAddr → IO (Except String Client)
  | [] => return .error failure
  | addr :: addrs => do
    let client ← Client.mk
    match ← outcomeOf (client.connect (socketAddress port addr)).block with
    | .ok () => return .ok client
    | .error reason => connectFirst port reason addrs

/-- The network of this computer. -/
def systemNetwork : Network IO where
  connect e := do
    match ← outcomeOf (Std.Async.DNS.getAddrInfo e.host "").block with
    | .error reason => return .error reason
    | .ok addrs =>
      match ← connectFirst e.port "host resolved to no addresses" addrs.toList with
      | .error reason => return .error reason
      | .ok client => return .ok (connectionOf client)

/-- The time. -/
def systemTime : IO Millis := do
  let t ← Std.Time.Timestamp.now
  return Millis.clamp t.toMillisecondsSinceUnixEpoch.toInt

/-- How the command line is used. -/
def usageText : String :=
  "Usage: wjp render --event FILE [--config FILE] [--property FILE] [--wire]\n" ++
  "       wjp send --event FILE [--config FILE] [--property FILE] [--host HOST] [--port PORT]\n" ++
  "       wjp sanitize category|full|test|step NAME\n"

/-- Says what a command has to say. -/
def report (o : Command.Outcome) : IO Unit := do
  (← IO.getStdout).write o.output.toByteArray
  (← IO.getStdout).flush
  for w in o.warnings do
    IO.eprintln ("Warning: " ++ w.message)
  if let some f := o.failure then
    IO.eprintln ("Error: " ++ f.message)

end BuildMetrics

/-- Runs the command that the words ask for. -/
def main (words : List String) : IO UInt32 := do
  match BuildMetrics.Command.ofWords words with
  | .error .help =>
    IO.print BuildMetrics.usageText
    return 0
  | .error .usage =>
    IO.eprint BuildMetrics.usageText
    return 2
  | .ok command =>
    let host : BuildMetrics.Command.Host IO :=
      ⟨BuildMetrics.fileBytes, BuildMetrics.systemNetwork, ← BuildMetrics.systemTime⟩
    let outcome ← BuildMetrics.Command.run host command
    BuildMetrics.report outcome
    return UInt32.ofNat outcome.code
