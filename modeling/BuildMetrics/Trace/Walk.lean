import BuildMetrics.Trace.Graph

/-!
# Walking a trace from its ends

The walk begins at the heads of the graph and yields a node only after all of its children. At each
node it counts the edges to children that it has not yielded yet; when none is left, the node goes
on a stack. What can be yielded next is its top, so once the walk is inside one branch of a fork it
stays there until the fork is reached, and only then goes into the next branch. In a trace of nested
scopes each end therefore comes before its start, and scopes do not interleave: the walk is in
the order that matching brackets needs. Nodes on a cycle are never yielded, nor is any node
before them.
-/

namespace BuildMetrics.Trace

/-- A walk in the middle of its work. -/
structure Walk where
  /-- how many edges of a node lead to children that are still to be yielded -/
  remaining : NodeId → Nat
  /-- the nodes without such edges, the one to be yielded next on top -/
  stack : List NodeId

namespace Walk

/-- A walk that has yielded nothing. -/
def ofGraph (g : Graph) : Walk := ⟨fun id => (g.childEdges id).length, g.heads⟩

/-- Counts down at each of the parents and tells those at which nothing is left. A parent that is
named twice has two edges and is counted down twice. -/
def countDown (remaining : NodeId → Nat) : List NodeId → (NodeId → Nat) × List NodeId
  | [] => (remaining, [])
  | p :: parents =>
    let left := remaining p - 1
    let (remaining, ready) := countDown (fun id => if id = p then left else remaining id) parents
    (remaining, if left = 0 then p :: ready else ready)

/-- The next node, if one is left, and the walk behind it. The parents that it makes ready go on
the stack, the greatest number on top: the branch that started last is walked first. -/
def next? (g : Graph) (w : Walk) : Option (NodeId × Walk) :=
  match w.stack with
  | [] => none
  | id :: stack =>
    let (remaining, ready) := countDown w.remaining (g.parents id)
    some (id, ⟨remaining, (Graph.sorted ready).eraseReps.reverse ++ stack⟩)

/-- The numbers that the walk yields in so many steps. -/
def run (g : Graph) : Nat → Walk → List NodeId
  | 0, _ => []
  | steps + 1, w =>
    match w.next? g with
    | none => []
    | some (id, w) => id :: run g steps w

end Walk

namespace Graph

/-- The numbers of the nodes in walk order. No node is yielded twice, so the number of nodes
bounds the walk. -/
def walkIds (g : Graph) : List NodeId := (Walk.ofGraph g).run g g.nodeCount

/-- The nodes in walk order. -/
def walk (g : Graph) : List Node := g.walkIds.filterMap g.get?

end Graph

end BuildMetrics.Trace
