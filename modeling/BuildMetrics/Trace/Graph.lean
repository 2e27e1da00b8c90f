import BuildMetrics.Trace.Node

/-!
# The trace as a graph

The nodes of a trace with an edge from each parent to its child. A graph holds its nodes in the
order in which they came; their numbers are distinct and every parent is one of them. Everything
else is computed from the nodes, so a graph is no more than a list that passed two checks.
-/

namespace BuildMetrics.Trace

/-- Why nodes do not form a graph, or a graph cannot answer. -/
inductive GraphError where
  /-- two nodes have the same number -/
  | duplicateNode (id : NodeId)
  /-- a node has a parent that is not there -/
  | unknownParent (node parent : NodeId)
  /-- a node that was asked for is not there -/
  | nodeNotFound (id : NodeId)
  deriving DecidableEq, Repr

/-- The wording of an error. -/
def GraphError.message : GraphError → String
  | duplicateNode id => s!"duplicate trace node: NodeId({id})"
  | unknownParent node parent =>
    s!"trace node NodeId({node}) references unknown parent NodeId({parent})"
  | nodeNotFound id => s!"trace node not found: NodeId({id})"

/-- A trace whose edges all lead somewhere. -/
structure Graph where
  /-- the nodes, in the order in which they came -/
  nodes : List Node
  /-- no number occurs twice -/
  distinct : (nodes.map Node.id).Nodup
  /-- every parent is a node of the graph -/
  closed : ∀ n ∈ nodes, ∀ p ∈ n.parents, p ∈ nodes.map Node.id

/-- The first number that has occurred before. -/
def firstRepeat? (seen : List NodeId) : List NodeId → Option NodeId
  | [] => none
  | id :: ids => if id ∈ seen then some id else firstRepeat? (id :: seen) ids

/-- The first parent, in the order of the nodes, that is none of the numbers. -/
def firstUnknown? (ids : List NodeId) (nodes : List Node) : Option (NodeId × NodeId) :=
  nodes.findSome? fun n => (n.parents.find? (· ∉ ids)).map (n.id, ·)

/-- Where no number is found to occur again, all are distinct and new. -/
theorem firstRepeat?_eq_none {seen ids : List NodeId} (h : firstRepeat? seen ids = none) :
    ids.Nodup ∧ ∀ id ∈ ids, id ∉ seen := by
  induction ids generalizing seen with
  | nil => exact ⟨List.nodup_nil, fun _ hid => absurd hid List.not_mem_nil⟩
  | cons id ids ih =>
    rw [firstRepeat?] at h
    split at h
    · cases h
    · next hid =>
      obtain ⟨hnodup, hseen⟩ := ih h
      refine ⟨List.nodup_cons.mpr ⟨fun hmem => ?_, hnodup⟩, fun x hx => ?_⟩
      · exact hseen id hmem List.mem_cons_self
      · rcases List.mem_cons.mp hx with rfl | hx
        · exact hid
        · exact fun hs => hseen x hx (List.mem_cons_of_mem _ hs)

/-- Where no parent is found to be unknown, all are among the numbers. -/
theorem firstUnknown?_eq_none {ids : List NodeId} {nodes : List Node}
    (h : firstUnknown? ids nodes = none) : ∀ n ∈ nodes, ∀ p ∈ n.parents, p ∈ ids := by
  intro n hn p hp
  have hnone := List.findSome?_eq_none_iff.mp h n hn
  rw [Option.map_eq_none_iff, List.find?_eq_none] at hnone
  exact Decidable.byContradiction fun hn => hnone p hp (decide_eq_true hn)

namespace Graph

/-- The graph without nodes. -/
def empty : Graph := ⟨[], List.nodup_nil, fun _ hn => absurd hn List.not_mem_nil⟩

/-- The graph of nodes given in any order. A number that occurs twice is reported before any
unknown parent. -/
def ofNodes (nodes : List Node) : Except GraphError Graph :=
  match hd : firstRepeat? [] (nodes.map Node.id) with
  | some id => .error (.duplicateNode id)
  | none =>
    match hp : firstUnknown? (nodes.map Node.id) nodes with
    | some (node, parent) => .error (.unknownParent node parent)
    | none => .ok ⟨nodes, (firstRepeat?_eq_none hd).1, firstUnknown?_eq_none hp⟩

/-- The numbers of the nodes. -/
def ids (g : Graph) : List NodeId := g.nodes.map Node.id

/-- Adds a node all of whose parents are there already. -/
def add (g : Graph) (n : Node) : Except GraphError Graph :=
  if hid : n.id ∈ g.ids then .error (.duplicateNode n.id)
  else
    match hp : n.parents.find? (· ∉ g.ids) with
    | some p => .error (.unknownParent n.id p)
    | none => .ok
      { nodes := g.nodes ++ [n]
        distinct := by
          rw [List.map_append, List.nodup_append]
          refine ⟨g.distinct, List.nodup_cons.mpr ⟨List.not_mem_nil, List.nodup_nil⟩, ?_⟩
          intro a ha b hb hab
          obtain rfl := List.mem_singleton.mp hb
          exact hid (hab ▸ ha)
        closed := by
          intro m hm p hpm
          rw [List.map_append]
          refine List.mem_append_left _ ?_
          rcases List.mem_append.mp hm with hm | hm
          · exact g.closed m hm p hpm
          · obtain rfl := List.mem_singleton.mp hm
            exact Decidable.byContradiction fun hn =>
              List.find?_eq_none.mp hp p hpm (decide_eq_true hn) }

/-- What a graph answers to a node, and the graph behind it: a node that is refused changes
nothing. -/
def offer (g : Graph) (n : Node) : Except GraphError NodeId × Graph :=
  match g.add n with
  | .error e => (.error e, g)
  | .ok grown => (.ok n.id, grown)

/-- The node with a number. -/
def get? (g : Graph) (id : NodeId) : Option Node := g.nodes.find? fun n => n.id = id

/-- The parents that a node names. -/
def parents (g : Graph) (id : NodeId) : List NodeId := (g.get? id).elim [] Node.parents

/-- How many nodes there are. -/
def nodeCount (g : Graph) : Nat := g.nodes.length

/-- How many edges there are; a parent that is named twice is two edges. -/
def edgeCount (g : Graph) : Nat := (g.nodes.flatMap Node.parents).length

/-- Numbers in increasing order. -/
def sorted (ids : List NodeId) : List NodeId := ids.mergeSort fun a b => a ≤ b

/-- The children of a node in the order of the nodes, one for each edge. -/
def childEdges (g : Graph) (id : NodeId) : List NodeId :=
  g.nodes.flatMap fun n => (n.parents.filter (· = id)).map fun _ => n.id

/-- The numbers of the nodes that ran directly after a node, in increasing order. -/
def children (g : Graph) (id : NodeId) : Except GraphError (List NodeId) :=
  if id ∈ g.ids then .ok (sorted (g.childEdges id)) else .error (.nodeNotFound id)

/-- The numbers of the nodes that nothing ran after, in increasing order. -/
def heads (g : Graph) : List NodeId :=
  sorted (g.ids.filter fun id => (g.childEdges id).isEmpty)

end Graph

end BuildMetrics.Trace
