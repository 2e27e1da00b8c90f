import BuildMetrics.Proofs.Trace.Walk
import Mathlib

/-!
# Graphs that grow

The nodes of a trace come as one list, in any order, or one at a time, each after its parents. The
first way checks all numbers before any parent, the second one node after the other, and a node
that is refused is passed over. Here both lead to the same graph.

* `Graph.offered`: what becomes of a node that a graph is offered;
* `Graph.nodes_offerAll`: a graph that was offered nodes holds those that it accepted, in order;
* `Graph.acyclic_offerAll`: nodes that come after their parents neither close a cycle nor break one;
* `Graph.tells`: what a graph answers is told by the nodes that it holds.
-/

namespace BuildMetrics.Trace.Graph

open Relation

/-- The graph behind nodes that are offered one after the other. -/
def offerAll (g : Graph) (offers : List Node) : Graph := offers.foldl (fun g n => (g.offer n).2) g

/-- Of the nodes that are offered one after the other, those that are accepted. -/
def accepted (g : Graph) : List Node → List Node
  | [] => []
  | n :: offers =>
    match g.offer n with
    | (.error _, _) => g.accepted offers
    | (.ok _, grown) => n :: grown.accepted offers

/-- What becomes of a node that a graph is offered. A number that is there already is reported
first; then the first parent that is not there, and a node is not there for itself. -/
inductive Offered (g : Graph) (n : Node) : Except GraphError NodeId × Graph → Prop where
  /-- the number is there already -/
  | duplicate (hid : n.id ∈ g.ids) : Offered g n (.error (.duplicateNode n.id), g)
  /-- the number is new, and a parent is not there, though those named before it are -/
  | unknown (hid : n.id ∉ g.ids) {known rest : List NodeId} {p : NodeId}
      (hparents : n.parents = known ++ p :: rest) (hknown : ∀ q ∈ known, q ∈ g.ids)
      (hp : p ∉ g.ids) : Offered g n (.error (.unknownParent n.id p), g)
  /-- the number is new and all parents are there -/
  | accepted (hid : n.id ∉ g.ids) (hparents : ∀ p ∈ n.parents, p ∈ g.ids) {grown : Graph}
      (hgrown : grown.nodes = g.nodes ++ [n]) : Offered g n (.ok n.id, grown)

/-- What a graph answers is told by the nodes: how many there are and how many parents they name,
which are as many as there are children; each node under its number; the children of a node in
order, each as often as it names the node; and the nodes without children in order. -/
structure Tells (g : Graph) (nodes : List Node) : Prop where
  distinct : (nodes.map Node.id).Nodup
  nodeCount : g.nodeCount = nodes.length
  edgeCount : g.edgeCount = (nodes.map fun n => n.parents.length).sum
  get? : ∀ id n, g.get? id = some n ↔ n ∈ nodes ∧ n.id = id
  children : ∀ p ∈ nodes, ∃ children, g.children p.id = .ok children ∧
    children.Pairwise (· ≤ ·) ∧ (∀ c ∈ nodes, children.count c.id = c.parents.count p.id) ∧
    ∀ id ∈ children, id ∈ nodes.map Node.id
  edges_met : ∀ children : NodeId → List NodeId,
    (∀ p ∈ nodes, g.children p.id = .ok (children p.id)) →
      (nodes.map fun p => (children p.id).length).sum = g.edgeCount
  nodeNotFound : ∀ id, id ∉ nodes.map Node.id → g.children id = .error (.nodeNotFound id)
  heads_increasing : g.heads.Pairwise (· < ·)
  mem_heads : ∀ id, id ∈ g.heads ↔ g.children id = .ok []

variable {g grown : Graph} {n : Node} {nodes offers : List Node} {id p c a b : NodeId}

/-! ## One node -/

/-- What becomes of an offered node is one of three things. -/
theorem offered (g : Graph) (n : Node) : Offered g n (g.offer n) := by
  unfold offer add
  by_cases hid : n.id ∈ g.ids
  · rw [dif_pos hid]
    exact .duplicate hid
  · rw [dif_neg hid]
    split
    · next e hrefused =>
      split at hrefused
      · next p hp =>
        obtain rfl := Except.error.inj hrefused
        obtain ⟨hno, known, rest, hparents, hknown⟩ := List.find?_eq_some_iff_append.mp hp
        refine .unknown hid hparents (fun q hq => ?_) (of_decide_eq_true hno)
        simpa using hknown q hq
      · cases hrefused
    · next grown htaken =>
      split at htaken
      · cases htaken
      · next hp =>
        obtain rfl := Except.ok.inj htaken
        refine .accepted hid (fun p hmem => ?_) rfl
        simpa using List.find?_eq_none.mp hp p hmem

/-- A node is refused if it names itself, as it is not there yet when its parents are looked up. -/
theorem offer_of_self_parent (h : n.id ∈ n.parents) : ∃ e, g.offer n = (.error e, g) := by
  have hoffered := g.offered n
  generalize g.offer n = answer at hoffered ⊢
  cases hoffered with
  | duplicate => exact ⟨_, rfl⟩
  | unknown => exact ⟨_, rfl⟩
  | accepted hid hparents => exact absurd (hparents n.id h) hid

/-! ## The nodes that are accepted -/

/-- A graph that was offered nodes holds those that it held and those that it accepted. -/
theorem nodes_offerAll (g : Graph) (offers : List Node) :
    (g.offerAll offers).nodes = g.nodes ++ g.accepted offers := by
  induction offers generalizing g with
  | nil => exact (List.append_nil _).symm
  | cons n offers ih =>
    have hrest : g.offerAll (n :: offers) = (g.offer n).2.offerAll offers := rfl
    have hoffered := g.offered n
    rw [hrest, ih, accepted]
    generalize g.offer n = answer at hoffered
    cases hoffered with
    | duplicate => rfl
    | unknown => rfl
    | accepted _ _ hgrown => rw [hgrown, List.append_assoc, List.singleton_append]

theorem accepted_sublist (g : Graph) (offers : List Node) :
    (g.accepted offers).Sublist offers := by
  induction offers generalizing g with
  | nil => exact .slnil
  | cons n offers ih =>
    rw [accepted]
    split
    · exact (ih g).cons n
    · next grown _ => exact (ih grown).cons_cons n

/-- A graph is formed from the nodes that it holds, however it came by them. -/
theorem ofNodes_nodes (g : Graph) : ofNodes g.nodes = .ok g := ofNodes_eq_ok g.distinct g.closed

/-! ## Cycles -/

section Accepted

variable (hgrown : grown.nodes = g.nodes ++ [n])
include hgrown

/-- Other edges than those into the new node were there before. -/
theorem edge_of_accepted (h : Edge grown.nodes p c) (hc : c ≠ n.id) : Edge g.nodes p c := by
  obtain ⟨m, hm, hmid, hp⟩ := h
  rw [hgrown, List.mem_append, List.mem_singleton] at hm
  rcases hm with hm | rfl
  · exact ⟨m, hm, hmid, hp⟩
  · exact absurd hmid.symm hc

variable (hid : n.id ∉ g.ids) (hparents : ∀ p ∈ n.parents, p ∈ g.ids)
include hid hparents

/-- No edge leaves a node that was just accepted. -/
theorem ne_of_edge_accepted (h : Edge grown.nodes p c) : p ≠ n.id := by
  obtain ⟨m, hm, -, hp⟩ := h
  rw [hgrown, List.mem_append, List.mem_singleton] at hm
  rintro rfl
  rcases hm with hm | rfl
  · exact hid (g.closed m hm _ hp)
  · exact hid (hparents _ hp)

theorem transGen_of_accepted (h : TransGen (Edge grown.nodes) a b) (hb : b ≠ n.id) :
    TransGen (Edge g.nodes) a b := by
  induction h with
  | single hedge => exact .single (edge_of_accepted hgrown hedge hb)
  | tail _ hedge ih =>
    have hfrom := ih (ne_of_edge_accepted hgrown hid hparents hedge)
    exact hfrom.tail (edge_of_accepted hgrown hedge hb)

/-- An accepted node closes no cycle: nothing has it as a parent yet. -/
theorem acyclic_of_accepted : grown.Acyclic ↔ g.Acyclic := by
  constructor
  · intro h id hcycle
    have hsub : g.nodes ⊆ grown.nodes := hgrown ▸ List.subset_append_left _ _
    have hle : Edge g.nodes ≤ Edge grown.nodes := fun _ _ hedge => hedge.mono hsub
    exact h id (TransGen.mono hle id id hcycle)
  · intro h id hcycle
    -- an edge of the cycle leaves the node, so it is not the new one
    obtain ⟨c, hedge, -⟩ := TransGen.head'_iff.mp hcycle
    have hne : id ≠ n.id := ne_of_edge_accepted hgrown hid hparents hedge
    exact h id (transGen_of_accepted hgrown hid hparents hcycle hne)

end Accepted

/-- Nodes that are offered neither close a cycle nor break one. -/
theorem acyclic_offerAll (g : Graph) (offers : List Node) :
    (g.offerAll offers).Acyclic ↔ g.Acyclic := by
  induction offers generalizing g with
  | nil => exact Iff.rfl
  | cons n offers ih =>
    have hstep : (g.offer n).2.Acyclic ↔ g.Acyclic := by
      have hoffered := g.offered n
      generalize g.offer n = answer at hoffered
      cases hoffered with
      | duplicate => exact Iff.rfl
      | unknown => exact Iff.rfl
      | accepted hid hparents hgrown => exact acyclic_of_accepted hgrown hid hparents
    exact (ih _).trans hstep

/-! ## Answers -/

/-- An edge is counted at its parent. -/
theorem length_childEdges (g : Graph) (p : NodeId) :
    (g.childEdges p).length = (g.nodes.flatMap Node.parents).count p := by
  rw [childEdges, List.length_flatMap, List.count_flatMap]
  congr 1
  refine List.map_congr_left fun n _ => ?_
  rw [List.length_map, Function.comp_apply, List.count_eq_length_filter]
  rfl

/-- All edges are met from the parents, as they are from the children. -/
theorem sum_length_childEdges (g : Graph) :
    (g.ids.map fun p => (g.childEdges p).length).sum = g.edgeCount := by
  have hsub : ∀ p ∈ (g.nodes.flatMap Node.parents : Multiset NodeId), p ∈ g.ids.toFinset := by
    intro p hp
    obtain ⟨n, hn, hp⟩ := List.mem_flatMap.mp (Multiset.mem_coe.mp hp)
    exact List.mem_toFinset.mpr (g.closed n hn p hp)
  rw [← List.sum_toFinset _ (show g.ids.Nodup from g.distinct)]
  simp only [length_childEdges, ← Multiset.coe_count]
  exact Multiset.sum_count_eq_card hsub

theorem get?_eq_some_iff : g.get? id = some n ↔ n ∈ g.nodes ∧ n.id = id := by
  constructor
  · intro h
    refine ⟨List.mem_of_find?_eq_some h, ?_⟩
    simpa using List.find?_some h
  · rintro ⟨hn, rfl⟩
    exact get?_id hn

theorem children_of_mem (h : id ∈ g.ids) : g.children id = .ok (sorted (g.childEdges id)) :=
  if_pos h

theorem mem_heads_iff_children : id ∈ g.heads ↔ g.children id = .ok [] := by
  rw [mem_heads, children]
  split
  · next hid =>
    have hsorted : sorted (g.childEdges id) = [] ↔ ∀ c, ¬ Edge g.nodes id c := by
      simp [List.eq_nil_iff_forall_not_mem]
    rw [Except.ok.injEq, hsorted]
    exact and_iff_right hid
  · next hid => exact iff_of_false (fun h => hid h.1) nofun

/-- Heads come in increasing order, each once. -/
theorem heads_increasing (g : Graph) : g.heads.Pairwise (· < ·) := by
  refine ((pairwise_sorted _).and g.nodup_heads).imp ?_
  rintro a b ⟨hle, hne⟩
  exact UInt32.lt_of_le_of_ne hle hne

/-- **What a graph answers** is told by the nodes that it holds. -/
theorem tells (g : Graph) : g.Tells g.nodes where
  distinct := g.distinct
  nodeCount := rfl
  edgeCount := List.length_flatMap
  get? _ _ := get?_eq_some_iff
  children p hp := by
    refine ⟨_, children_of_mem (id_mem_ids hp), pairwise_sorted _, fun c hc => ?_, ?_⟩
    · rw [(sorted_perm _).count_eq, count_childEdges, parents_id hc]
    · intro id hid
      exact child_mem_ids (mem_childEdges.mp (mem_sorted.mp hid))
  edges_met children h := by
    have hlength : ∀ p ∈ g.nodes, (children p.id).length = (g.childEdges p.id).length := by
      intro p hp
      have hchildren := h p hp
      rw [children_of_mem (id_mem_ids hp), Except.ok.injEq] at hchildren
      rw [← hchildren, (sorted_perm _).length_eq]
    rw [List.map_congr_left hlength, ← sum_length_childEdges, ids, List.map_map]
    rfl
  nodeNotFound _ hid := if_neg hid
  heads_increasing := g.heads_increasing
  mem_heads _ := mem_heads_iff_children

/-- **One list or one node at a time.** A graph that was formed from a list and then was offered any
nodes, some of which it may have refused, is the graph that is formed from the list and the nodes
that it accepted, in order. Its answers are told by these nodes. Of any further node it says which
check fails first, and if one does, it stays what it is; a node that names itself is refused. The
walk still yields all nodes if it did before, so it does if there was no node at first. -/
theorem offerAll_of_ofNodes {nodes : List Node} {g : Graph} (h : ofNodes nodes = .ok g)
    (offers : List Node) :
    let grown := g.offerAll offers
    let held := nodes ++ g.accepted offers
    ofNodes held = .ok grown ∧ (g.accepted offers).Sublist offers ∧ grown.Tells held ∧
    (∀ n, Offered grown n (grown.offer n)) ∧
    (∀ n, n.id ∈ n.parents → ∃ e, grown.offer n = (.error e, grown)) ∧
    (grown.walk.Perm held ↔ g.walk.Perm nodes) ∧
    (nodes = [] → grown.walk.Perm (g.accepted offers)) := by
  intro grown held
  obtain rfl := nodes_of_ofNodes h
  have hheld : grown.nodes = held := g.nodes_offerAll offers
  have hwalk : grown.walk.Perm held ↔ g.walk.Perm g.nodes := by
    rw [← hheld, walk_perm_nodes_iff, walk_perm_nodes_iff]
    exact g.acyclic_offerAll offers
  refine ⟨hheld ▸ grown.ofNodes_nodes, g.accepted_sublist offers, hheld ▸ grown.tells,
    grown.offered, fun n => offer_of_self_parent, hwalk, fun hnodes => ?_⟩
  have hempty : g.Acyclic := by
    refine acyclic_of_lt ?_
    rintro p c ⟨n, hn, -⟩
    exact absurd hn (hnodes ▸ List.not_mem_nil)
  have hperm : grown.walk.Perm held := hwalk.mpr (walk_perm_nodes_iff.mpr hempty)
  rwa [show held = g.accepted offers by simp [held, hnodes]] at hperm

/-- A scope, listed from its end. -/
def scopeBackwards : List Node := [bareNode .scopeEnd 3 [1], bareNode .scopeStart 1 []]

/-- A number that is used already, a node that names itself, a parent that never comes, a parent
that is named twice, the number of that node once more, and a node after it. -/
def mixedOffers : List Node :=
  [bareNode .other 1 [], bareNode .other 2 [3, 2], bareNode .other 2 [3, 9, 8],
    bareNode .other 4 [3, 1, 3], bareNode .other 4 [9], bareNode .other 2 [4]]

/-- Nodes of which some are refused, offered to a graph of three. -/
theorem offerAll_of_ofNodes_mixed :
    let g : Graph := ⟨scopeBackwards, by decide, by simp [scopeBackwards, bareNode]⟩
    let grown := g.offerAll mixedOffers
    let held := scopeBackwards ++ [bareNode .other 4 [3, 1, 3], bareNode .other 2 [4]]
    (ofNodes scopeBackwards = .ok g ∧ ofNodes held = .ok grown) ∧
    grown.edgeCount = 5 ∧
    (∃ children, grown.children 3 = .ok children ∧ children.count 4 = 2) ∧
    (∃ e, grown.offer (bareNode .other 5 [5]) = (.error e, grown)) ∧
    (ofNodes [] = .ok empty ∧
      (empty.offerAll mixedOffers).walk.Perm [bareNode .other 1 []]) := by
  intro g grown held
  have haccepted : g.accepted mixedOffers =
      [bareNode .other 4 [3, 1, 3], bareNode .other 2 [4]] := by decide
  have hempty : empty.accepted mixedOffers = [bareNode .other 1 []] := by decide
  have hok : ofNodes scopeBackwards = .ok g := ofNodes_eq_ok g.distinct g.closed
  have hok' : ofNodes [] = .ok empty := rfl
  obtain ⟨hheld, -, htells, -, hself, -, -⟩ := offerAll_of_ofNodes hok mixedOffers
  rw [haccepted] at hheld htells
  obtain ⟨children, hchildren, -, hcount, -⟩ :=
    htells.children (bareNode .scopeEnd 3 [1]) (by decide)
  have hcount' := hcount (bareNode .other 4 [3, 1, 3]) (by decide)
  obtain ⟨-, -, -, -, -, -, hwalk⟩ := offerAll_of_ofNodes hok' mixedOffers
  rw [hempty] at hwalk
  exact ⟨⟨hok, hheld⟩, htells.edgeCount, ⟨children, hchildren, hcount'⟩,
    hself (bareNode .other 5 [5]) (by decide), hok', hwalk rfl⟩

end BuildMetrics.Trace.Graph
