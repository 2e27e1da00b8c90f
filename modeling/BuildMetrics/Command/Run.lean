import BuildMetrics.Command.Basic
import BuildMetrics.Config.Codec
import BuildMetrics.Report.Emission
import BuildMetrics.Run.Codec
import BuildMetrics.Sink.Proxy
import BuildMetrics.Sink.Writer

/-!
# Running a command

A command reads its files, prints something, and may warn or fail. What it prints and how it ends
is one value, so nothing but reading files and talking to the proxy is left to the monad `m`.
-/

namespace BuildMetrics.Command

open Run (Event)

/-- What a command needs from outside. -/
structure Host (m : Type → Type) where
  /-- the bytes of a file, or the reason why they cannot be read -/
  fileBytes : String → m (Except String (List UInt8))
  /-- the network -/
  network : Network m
  /-- the time -/
  now : Millis

/-- Why a command failed. -/
inductive Failure where
  /-- the file holds no usable configuration -/
  | badConfig (path : String) (error : ConfigError)
  /-- the file cannot be read as text -/
  | unreadable (path reason : String)
  /-- the file does not hold what it should -/
  | notJson (path : String) (fault : Json.Fault)
  /-- lines for a proxy need a source -/
  | noSource
  /-- host and port do not go with the configuration -/
  | badEndpoint (error : ConfigError)
  /-- there is no proxy to send to -/
  | noHost
  /-- what was sent may not have arrived -/
  | unflushed (endpoint : Endpoint) (reason : String)
  deriving DecidableEq, Repr

namespace Failure

/-- The wording of a failure. -/
def message : Failure → String
  | badConfig path error => s!"invalid config '{path}': {error.message}"
  | unreadable path reason => s!"failed to read '{path}': {reason}"
  | notJson path fault => s!"invalid JSON in '{path}': {fault.message}"
  | noSource => "wire output needs a source: set `source` or `proxy_hostname` in --config"
  | badEndpoint error => error.message
  | noHost => "no proxy host configured"
  | unflushed endpoint reason => s!"failed to flush to {endpoint.text}: {reason}"

/-- The exit code: 1 for what the user can mend, 3 for reading and writing. -/
def code : Failure → Nat
  | unreadable _ _ | unflushed _ _ => 3
  | badConfig _ _ | notJson _ _ | noSource | badEndpoint _ | noHost => 1

end Failure

/-- A pass that stopped early. -/
structure Warning where
  /-- the pass -/
  pass : PassKind
  /-- why it stopped -/
  reason : String
  deriving DecidableEq, Repr

/-- The wording of a warning. -/
def Warning.message (w : Warning) : String :=
  s!"{w.pass.title} pass stopped early: {w.reason}"

/-- How a command ended. -/
structure Outcome where
  /-- the exit code -/
  code : Nat
  /-- what it printed -/
  output : List UInt8
  /-- what it warned of -/
  warnings : List Warning
  /-- why it failed, if it did -/
  failure : Option Failure
  deriving DecidableEq, Repr

namespace Outcome

/-- The end of a command that printed something. -/
def ofOutput (output : List UInt8) (warnings : List Warning) : Outcome :=
  ⟨0, output, warnings, none⟩

/-- The end of a command that failed before it did anything. -/
def ofFailure (f : Failure) : Outcome := ⟨f.code, [], [], some f⟩

end Outcome

/-! ## Reading the files -/

/-- What the files of a run hold. -/
structure Inputs where
  /-- the configuration -/
  config : Config
  /-- the run -/
  event : Event
  /-- what the job asks for -/
  property : Option JobProperty

variable {m : Type → Type} [Monad m]

/-- The normal form of the configuration in a file, or the usual one. -/
def readConfig (host : Host m) (path : Option String) : m (Except Failure Config) :=
  match path with
  | none => return .ok .default
  | some path => return (Config.load path (← host.fileBytes path)).mapError (.badConfig path)

/-- The value that a text file holds. -/
def valueOf (c : Json.Codec α) (path : String) (content : Except String (List UInt8)) :
    Except Failure α :=
  match content with
  | .error reason => .error (.unreadable path reason)
  | .ok bytes =>
    match Text.decodeUtf8? bytes with
    | none => .error (.unreadable path "the file is not UTF-8")
    | some text => (c.decode text).mapError (.notJson path)

/-- Reads a value from a file. -/
def readValue (host : Host m) (c : Json.Codec α) (path : String) : m (Except Failure α) :=
  return valueOf c path (← host.fileBytes path)

/-- Reads a value from a file, if there is one. -/
def readOptional (host : Host m) (c : Json.Codec α) (path : Option String) :
    m (Except Failure (Option α)) :=
  match path with
  | none => return .ok none
  | some path => return (← readValue host c path).map some

/-- Reads the files of a run: the configuration first, then the event, then the property. -/
def readInputs (host : Host m) (files : RunFiles) : ExceptT Failure m Inputs := do
  let config ← ExceptT.mk (readConfig host files.config)
  let event ← ExceptT.mk (readValue host Run.Event.codec files.event)
  let property ← ExceptT.mk (readOptional host JobProperty.codec files.property)
  return ⟨config, event, property⟩

/-! ## Commands -/

/-- The warnings of the passes that stopped early. -/
def warningsOf (passes : List (PassKind × Option String)) : List Warning :=
  passes.filterMap fun (pass, error) => error.map (Warning.mk pass)

/-- The lines that a proxy would get. -/
def renderLines (i : Inputs) (now : Millis) : Outcome :=
  let writer := LineWriter.ofWriter ⟨none, false, []⟩
  let (report, written) := reportRun LineWriter.sink i.config now i.event i.property writer
  .ofOutput written.writer.bytes (warningsOf (report.passes.map fun p => (p.pass, p.error)))

/-- The records as people read them. -/
def renderText (i : Inputs) (now : Millis) : Outcome :=
  let records := runRecords i.config now i.event i.property
  .ofOutput (records.all.flatMap fun r => Text.utf8Bytes (r.display ++ "\n"))
    (warningsOf (records.passes.map fun p => (p.pass, p.error.map Trace.TraceError.message)))

/-- Prints the records of a run. -/
def runRender (host : Host m) (files : RunFiles) (wire : Bool) : m Outcome := do
  match ← (readInputs host files).run with
  | .error f => return .ofFailure f
  | .ok i =>
    if !wire then return renderText i host.now
    else if i.config.sourceName.isEmpty then return .ofFailure .noSource
    else return renderLines i host.now

/-- The configuration with another host and port, if these are given. -/
def override (c : Config) (host : Option String) (port : Option UInt32) : Config :=
  { c with
    proxyHostname := host.getD c.proxyHostname
    proxyPort := port.getD c.proxyPort }

/-- The configuration that is sent with, and the endpoint that is sent to. -/
def target (c : Config) (host : Option String) (port : Option UInt32) :
    Except Failure (Config × Endpoint) := do
  match (override c host port).normalized with
  | .error e => throw (.badEndpoint e)
  | .ok c =>
    match c.endpoint? with
    | none => throw .noHost
    | some endpoint => return (c, endpoint)

/-- What is printed once the records of a run have been sent. -/
def sentText (e : Emission) (endpoint : Endpoint) : String :=
  s!"Sent {e.sent} record(s) to {endpoint.text} ({e.dropped} dropped, {e.failed} failed)\n"

/-- The end of sending, from the report and the outcome of closing the sink. -/
def sendOutcome (endpoint : Endpoint) (report : RunReport) (closed : Except SinkError Unit) :
    Outcome :=
  let totals := report.totals
  let failure := (report.flushError.or (SinkError.message? closed)).map (.unflushed endpoint)
  { code :=
      match failure with
      | some f => f.code
      | none => if 0 < totals.failed then 3 else 0
    output := Text.utf8Bytes (sentText totals endpoint)
    warnings := warningsOf (report.passes.map fun p => (p.pass, p.error))
    failure }

/-- Sends the records of a run to a proxy. -/
def runSend (host : Host m) (files : RunFiles) (hostname : Option String) (port : Option UInt32) :
    m Outcome := do
  match ← (readInputs host files).run with
  | .error f => return .ofFailure f
  | .ok i =>
    match target i.config hostname port with
    | .error f => return .ofFailure f
    | .ok (config, endpoint) =>
      let sink := ProxySink.sink host.network
      let (report, s) ←
        reportRun sink config host.now i.event i.property (ProxySink.ofEndpoint endpoint)
      let (closed, _) ← sink.close s
      return sendOutcome endpoint report closed

/-- Runs a command. -/
def run (host : Host m) : Command → m Outcome
  | .render files wire => runRender host files wire
  | .send files hostname port => runSend host files hostname port
  | .sanitize kind name => return .ofOutput (Text.utf8Bytes (kind.clean name ++ "\n")) []

end BuildMetrics.Command
