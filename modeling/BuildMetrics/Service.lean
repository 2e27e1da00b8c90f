import BuildMetrics.Report.Emission

/-!
# The service

Holds the configuration in force and the sink that its metrics go to. The sink is opened with the
first report that needs it and kept for the next ones; a new configuration closes it, so what
comes then goes to the new endpoint. Without a proxy in the configuration nothing is reported.
-/

namespace BuildMetrics

open Run (Event StepEvent)

/-- The configuration in force and the open sink, if there is one. -/
structure Service (m : Type → Type) where
  /-- the configuration -/
  config : Config
  /-- the sink, if it is open -/
  sink : Option (Sink m)

namespace Service

variable {m : Type → Type} [Monad m]

/-- A service without an open sink. -/
def ofConfig (c : Config) : Service m := ⟨c, none⟩

/-- A sink is open. -/
def isOpen (s : Service m) : Bool := s.sink.isSome

/-- Closes the sink, if it is open, and lets go of it even if closing fails. -/
def closeSink : StateT (Service m) m Unit := fun s => do
  match s.sink with
  | none => return ((), s)
  | some sink =>
    let _ ← sink.close
    return ((), { s with sink := none })

/-- Puts the normal form of a configuration in force. A configuration that has none changes
nothing. -/
def update (c : Config) : StateT (Service m) m (Except ConfigError Config) := do
  match c.normalized with
  | .error e => return .error e
  | .ok c =>
    closeSink
    modify fun s => { s with config := c }
    return .ok c

/-- The open sink, or a new one for the endpoint of the configuration. -/
def openSink (factory : SinkFactory m) : StateT (Service m) m (Except SinkError (Sink m)) :=
  fun s => do
    match s.sink with
    | some sink => return (.ok sink, s)
    | none =>
      match s.config.endpoint? with
      | none => return (.error .notConfigured, s)
      | some endpoint =>
        match ← factory endpoint with
        | .error e => return (.error e, s)
        | .ok sink => return (.ok sink, { s with sink := some sink })

/-- Does something with the sink, unless there is no proxy. -/
def withSink (factory : SinkFactory m) (action : Config → Sink m → m α) :
    StateT (Service m) m (Except SinkError (Option α)) := do
  let config := (← get).config
  if !config.isConfigured then return .ok none
  match ← openSink factory with
  | .error e => return .error e
  | .ok sink => return .ok (some (← action config sink))

/-- Reports a run that is over. -/
def reportRun (factory : SinkFactory m) (now : Millis) (event : Event)
    (property : Option JobProperty) :
    StateT (Service m) m (Except SinkError (Option RunReport)) :=
  withSink factory fun config sink => BuildMetrics.reportRun sink config now event property

/-- Reports a timed step and flushes the sink. That the flush fails is not reported. -/
def reportStep (factory : SinkFactory m) (now : Millis) (event : StepEvent) :
    StateT (Service m) m (Except SinkError (Option Emission)) :=
  withSink factory fun config sink => do
    let emission ← BuildMetrics.reportStep sink config now event
    let _ ← sink.flush
    return emission

end Service

end BuildMetrics
