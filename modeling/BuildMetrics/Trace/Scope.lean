import BuildMetrics.Name
import BuildMetrics.Trace.Graph

/-!
# Scopes

A scope is the start node and the end node of a bracketed part of a run. The matcher reads nodes
in which ends come before their starts: an end waits on a stack, with what its error tells, until a
start takes the innermost one. A start that finds no end waiting breaks that order; the matcher
reports it once and then yields nothing more. Only some scopes are measured: stages and parallel
branches.
-/

namespace BuildMetrics.Trace

/-- Why scopes could not be told. -/
inductive TraceError where
  /-- a scope starts that has not ended -/
  | unmatchedScopeStart (node : NodeId)
  /-- the nodes form no graph -/
  | invalidTrace (error : GraphError)
  deriving DecidableEq, Repr

/-- The wording of an error. -/
def TraceError.message : TraceError → String
  | unmatchedScopeStart node => s!"scope start {node} has no pending scope end"
  | invalidTrace error => s!"invalid trace: {error.message}"

/-- A start with the end that closes its scope, and what is told of the scope. -/
structure Scope where
  /-- the node that opens the scope -/
  start : Node
  /-- the node that closes it -/
  ending : Node
  /-- how long the scope was open -/
  duration : Millis
  /-- how the scope ended -/
  status : ScopeStatus
  deriving DecidableEq, Repr

/-- An end that waits for its start. -/
structure PendingEnd where
  /-- the node that closes the scope -/
  node : Node
  /-- how the scope ended -/
  status : ScopeStatus
  deriving DecidableEq, Repr

namespace PendingEnd

/-- An end as it begins to wait: its error tells how the scope ended. -/
def ofNode (n : Node) : PendingEnd := ⟨n, .ofError n.error⟩

/-- The scope that a start opens. -/
def close (e : PendingEnd) (start : Node) : Scope :=
  ⟨start, e.node, Millis.since e.node.startTime start.startTime, e.status⟩

end PendingEnd

/-- The scope between two nodes. -/
def Scope.between (start ending : Node) : Scope := (PendingEnd.ofNode ending).close start

@[simp] theorem Scope.start_between (start ending : Node) :
    (Scope.between start ending).start = start := rfl

@[simp] theorem Scope.ending_between (start ending : Node) :
    (Scope.between start ending).ending = ending := rfl

/-! ## Matching -/

/-- A matcher in the middle of its work. -/
structure Matcher where
  /-- the ends that wait for their start, the innermost first -/
  waiting : List PendingEnd
  /-- the nodes still to be read -/
  rest : List Node

namespace Matcher

/-- A matcher that has read nothing. -/
def ofNodes (nodes : List Node) : Matcher := ⟨[], nodes⟩

/-- Reads up to the next scope. After an error nothing is left to read. -/
def next (waiting : List PendingEnd) : List Node → Option (Except TraceError Scope) × Matcher
  | [] => (none, ⟨waiting, []⟩)
  | n :: rest =>
    match n.kind with
    | .other => next waiting rest
    | .scopeEnd => next (.ofNode n :: waiting) rest
    | .scopeStart =>
      match waiting with
      | [] => (some (.error (.unmatchedScopeStart n.id)), ⟨[], []⟩)
      | e :: waiting => (some (.ok (e.close n)), ⟨waiting, rest⟩)

/-- The next scope or error, if one comes, and the matcher behind it. -/
def next? (m : Matcher) : Option (Except TraceError Scope) × Matcher := next m.waiting m.rest

/-- All that the matcher yields, and the ends that are left waiting. -/
def all (waiting : List PendingEnd) :
    List Node → List (Except TraceError Scope) × List PendingEnd
  | [] => ([], waiting)
  | n :: rest =>
    match n.kind with
    | .other => all waiting rest
    | .scopeEnd => all (.ofNode n :: waiting) rest
    | .scopeStart =>
      match waiting with
      | [] => ([.error (.unmatchedScopeStart n.id)], [])
      | e :: waiting =>
        let (scopes, left) := all waiting rest
        (.ok (e.close n) :: scopes, left)

end Matcher

/-! ## Classes -/

/-- The kinds of scopes that are measured. -/
inductive ScopeKind where
  /-- a stage -/
  | stage
  /-- a branch of a parallel step -/
  | parallel
  deriving DecidableEq, Repr

/-- The segment of a kind in a metric path. -/
def ScopeKind.name : ScopeKind → String
  | stage => "stage"
  | parallel => "parallel"

/-- What a scope is measured as. -/
structure ScopeClass where
  /-- the kind of the scope -/
  kind : ScopeKind
  /-- its segment in a metric path -/
  name : String
  deriving DecidableEq, Repr

/-- The name of a branch, without the words that the display puts in front of it. -/
def branchName (displayName : String) : String :=
  let lead := "Branch: ".toList
  if lead.isPrefixOf displayName.toList then String.ofList (displayName.toList.drop lead.length)
  else displayName

/-- Tells from its start node what a scope is measured as. A label without a thread name makes a
stage; else the mark of a branch makes a parallel scope; any other scope is not measured. -/
def ScopeClass.ofStart? (n : Node) : Option ScopeClass :=
  if n.hasLabel && !n.hasThreadName then some ⟨.stage, Name.category n.displayName⟩
  else if n.isParallelBranch then some ⟨.parallel, Name.category (branchName n.displayName)⟩
  else none

end BuildMetrics.Trace
