import BuildMetrics.Config.Basic
import BuildMetrics.Record

/-!
# Sinks

A sink takes records. What it does with them is its own business: the monad `m` holds whatever
it changes, so any behaviour is a sink, one that fails at will included. A factory opens a sink
for an endpoint.
-/

namespace BuildMetrics

/-- Why a sink did not do what it was asked. -/
inductive SinkError where
  /-- reading or writing failed -/
  | io (reason : String)
  /-- the proxy could not be reached -/
  | connect (endpoint reason : String)
  /-- there is no proxy -/
  | notConfigured
  /-- the sink does not take the record -/
  | rejected (name : String)
  deriving DecidableEq, Repr

/-- The wording of an error. -/
def SinkError.message : SinkError → String
  | io reason => s!"I/O error: {reason}"
  | connect endpoint reason => s!"cannot connect to proxy at {endpoint}: {reason}"
  | notConfigured => "proxy endpoint is not configured"
  | rejected name => s!"record rejected: {name}"

/-- What can be asked of an open sink. -/
structure Sink (m : Type → Type) where
  /-- take a record; a sink that buffers may not have delivered it yet -/
  send : Record → m (Except SinkError Unit)
  /-- deliver what has been taken -/
  flush : m (Except SinkError Unit)
  /-- deliver what has been taken and let go of everything -/
  close : m (Except SinkError Unit)

/-- Opens a sink for an endpoint. -/
abbrev SinkFactory (m : Type → Type) : Type := Endpoint → m (Except SinkError (Sink m))

end BuildMetrics
