import BuildMetrics.Record.Line
import BuildMetrics.Sink.Basic
import BuildMetrics.Text.Utf8

/-!
# The sink that talks to a proxy

The connection is opened with the first record that is sent, and opened again with the first
record after it was lost or closed. Lines wait in a buffer until they are flushed or the buffer
is full. Nothing is tried twice: when writing fails, the connection is given up.
-/

namespace BuildMetrics

/-- What can be asked of an open connection. -/
structure Connection (m : Type → Type) where
  /-- hand over bytes -/
  write : List UInt8 → m (Except String Unit)
  /-- end the connection -/
  shut : m Unit

/-- A way to open connections. The outcome of a failed attempt is its reason. -/
structure Network (m : Type → Type) where
  /-- open a connection -/
  connect : Endpoint → m (Except String (Connection m))

/-- A network in which nobody listens. -/
def Network.refusing [Monad m] : Network m := ⟨fun _ => pure (.error "connection refused")⟩

/-- A connection with the bytes that wait to be handed over. -/
structure BufferedConnection (m : Type → Type) where
  /-- the connection -/
  connection : Connection m
  /-- the bytes that wait -/
  buffer : List UInt8

namespace BufferedConnection

/-- So many bytes can wait. -/
def capacity : Nat := 8192

variable {m : Type → Type} [Monad m]

/-- Hands over the bytes that wait. -/
def flush (c : BufferedConnection m) : m (Except String (BufferedConnection m)) := do
  if c.buffer.isEmpty then return .ok c
  match ← c.connection.write c.buffer with
  | .error reason => return .error reason
  | .ok () => return .ok { c with buffer := [] }

/-- Takes bytes. If they do not fit, what waits is handed over first; more bytes than can wait
are handed over at once. -/
def write (c : BufferedConnection m) (bytes : List UInt8) :
    m (Except String (BufferedConnection m)) := do
  let room := capacity - c.buffer.length
  if bytes.length < room then return .ok { c with buffer := c.buffer ++ bytes }
  let flushed ← if room < bytes.length then c.flush else pure (.ok c)
  match flushed with
  | .error reason => return .error reason
  | .ok c =>
    if capacity ≤ bytes.length then
      match ← c.connection.write bytes with
      | .error reason => return .error reason
      | .ok () => return .ok c
    else return .ok { c with buffer := c.buffer ++ bytes }

end BufferedConnection

/-- A sink for a proxy. -/
structure ProxySink (m : Type → Type) where
  /-- where the proxy listens -/
  endpoint : Endpoint
  /-- the connection, if one is open -/
  stream : Option (BufferedConnection m)

namespace ProxySink

variable {m : Type → Type} [Monad m]

/-- A sink that has not connected yet. -/
def ofEndpoint (e : Endpoint) : ProxySink m := ⟨e, none⟩

/-- A connection is open. -/
def isConnected (s : ProxySink m) : Bool := s.stream.isSome

/-- The open connection, or a new one. -/
def connected (net : Network m) (s : ProxySink m) :
    m (Except SinkError (BufferedConnection m)) := do
  match s.stream with
  | some c => return .ok c
  | none =>
    if !s.endpoint.isConfigured then return .error .notConfigured
    match ← net.connect s.endpoint with
    | .error reason => return .error (.connect s.endpoint.text reason)
    | .ok connection => return .ok ⟨connection, []⟩

/-- Puts the line of a record and a newline on a connection. -/
def writeLine (r : Record) (c : BufferedConnection m) :
    m (Except String (BufferedConnection m)) := do
  match ← c.write (Text.utf8Bytes r.line) with
  | .error reason => return .error reason
  | .ok c => c.write (Text.utf8Bytes "\n")

/-- Takes the line of a record. -/
def send (net : Network m) (r : Record) : StateT (ProxySink m) m (Except SinkError Unit) :=
  fun s => do
    match ← s.connected net with
    | .error e => return (.error e, s)
    | .ok c =>
      match ← writeLine r c with
      | .error reason => return (.error (.io reason), { s with stream := none })
      | .ok c => return (.ok (), { s with stream := some c })

/-- Hands over the lines that wait, if there is a connection. -/
def flush : StateT (ProxySink m) m (Except SinkError Unit) := fun s => do
  match s.stream with
  | none => return (.ok (), s)
  | some c =>
    match ← c.flush with
    | .error reason => return (.error (.io reason), { s with stream := none })
    | .ok c => return (.ok (), { s with stream := some c })

/-- Hands over the lines that wait and ends the connection. -/
def close : StateT (ProxySink m) m (Except SinkError Unit) := fun s => do
  let (outcome, s) ← flush s
  match s.stream with
  | none => return (outcome, s)
  | some c =>
    c.connection.shut
    return (outcome, { s with stream := none })

/-- The sink for a proxy. -/
def sink (net : Network m) : Sink (StateT (ProxySink m) m) := ⟨send net, flush, close⟩

/-- Opens a sink, without a connection yet, for an endpoint that is one. It takes the place of
the sink that was opened before. -/
def factory (net : Network m) : SinkFactory (StateT (ProxySink m) m) := fun e s =>
  if e.isConfigured then return (.ok (sink net), ofEndpoint e)
  else return (.error .notConfigured, s)

end ProxySink

end BuildMetrics
