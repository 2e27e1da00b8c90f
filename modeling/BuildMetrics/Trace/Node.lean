import BuildMetrics.Millis

/-!
# Trace nodes

The events that a build run records while it executes. A scope (a stage, a branch, the run
itself) opens with one node and closes with another; everything else is a plain step. A node
names the nodes that ran directly before it as its parents.
-/

namespace BuildMetrics.Trace

/-- The number of a node, unique within one trace. -/
abbrev NodeId : Type := UInt32

/-- The part a node plays in the trace. -/
inductive NodeKind where
  /-- opens a scope -/
  | scopeStart
  /-- closes the innermost open scope -/
  | scopeEnd
  /-- anything else -/
  | other
  deriving DecidableEq, Repr

/-- What a node says about the scope it opens. -/
inductive Marker where
  /-- a label that people see -/
  | label (text : String)
  /-- the name of a thread that begins here -/
  | threadName (name : String)
  /-- a branch of a parallel step begins here -/
  | parallelBranch
  deriving DecidableEq, Repr

/-- Why a scope did not succeed. -/
structure ErrorInfo where
  /-- the cause; absent when the scope was cancelled -/
  cause : Option String
  deriving DecidableEq, Repr

/-- A node of a trace. -/
structure Node where
  /-- the number of the node -/
  id : NodeId
  /-- the part it plays -/
  kind : NodeKind
  /-- its name, possibly empty -/
  displayName : String
  /-- when it started -/
  startTime : Millis
  /-- present on the end of a scope that did not succeed -/
  error : Option ErrorInfo
  /-- what it says about its scope -/
  markers : List Marker
  /-- the nodes that ran directly before it -/
  parents : List NodeId
  deriving DecidableEq, Repr

namespace Node

/-- The first label. -/
def label? (n : Node) : Option String :=
  n.markers.findSome? fun
    | .label text => some text
    | _ => none

/-- The node has a label. -/
def hasLabel (n : Node) : Bool :=
  n.markers.any fun
    | .label _ => true
    | _ => false

/-- The node begins a named thread. -/
def hasThreadName (n : Node) : Bool :=
  n.markers.any fun
    | .threadName _ => true
    | _ => false

/-- The node begins a branch of a parallel step. -/
def isParallelBranch (n : Node) : Bool :=
  n.markers.any fun
    | .parallelBranch => true
    | _ => false

end Node

/-- How a scope ended. -/
inductive ScopeStatus where
  /-- without an error -/
  | success
  /-- with an error that has a cause -/
  | failure
  /-- with an error that has no cause: it was cancelled -/
  | aborted
  deriving DecidableEq, Repr

namespace ScopeStatus

/-- The status that the error of a scope's end tells. -/
def ofError : Option ErrorInfo → ScopeStatus
  | none => .success
  | some ⟨none⟩ => .aborted
  | some ⟨some _⟩ => .failure

/-- The status as it is written. -/
def name : ScopeStatus → String
  | success => "SUCCESS"
  | failure => "FAILURE"
  | aborted => "ABORTED"

end ScopeStatus

end BuildMetrics.Trace
