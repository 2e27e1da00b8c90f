import BuildMetrics.Trace.Walk
import Mathlib.Data.Fintype.EquivFin
import Mathlib.Data.List.Nodup
import Mathlib.Logic.Relation

/-!
# Edges and cycles of a trace

The nodes of a trace name their parents; read the other way round this is an edge from a node to
each node that ran directly after it. Here these edges become a relation on numbers, and what the
walk asks about a graph is put in terms of it:

* `Graph.mem_parents`, `Graph.mem_childEdges`: the edges into a node and those out of it;
* `Graph.count_childEdges`: an edge is met as often from its parent as from its child, even if the
  child names the parent more than once;
* `Graph.mem_heads`: the walk begins at the nodes without children;
* `Graph.acc_of_not_leadsToCycle`: from a node that leads to no cycle one can only go on to
  children finitely often, so what its children hand down to it can be proved by induction.
-/

namespace BuildMetrics.Trace

open Relation

/-- Among the nodes, one with the number `child` names `parent`. -/
def Edge (nodes : List Node) (parent child : NodeId) : Prop :=
  ∃ n ∈ nodes, n.id = child ∧ parent ∈ n.parents

instance (nodes : List Node) (parent child : NodeId) : Decidable (Edge nodes parent child) :=
  inferInstanceAs (Decidable (∃ n ∈ nodes, n.id = child ∧ parent ∈ n.parents))

/-- More nodes have more edges. -/
theorem Edge.mono {nodes nodes' : List Node} (hsub : nodes ⊆ nodes') {p c : NodeId}
    (h : Edge nodes p c) : Edge nodes' p c := by
  obtain ⟨n, hn, hid, hp⟩ := h
  exact ⟨n, hsub hn, hid, hp⟩

/-- A node is told by its number. -/
theorem eq_of_id_eq {nodes : List Node} (hd : (nodes.map Node.id).Nodup) {n m : Node}
    (hn : n ∈ nodes) (hm : m ∈ nodes) (h : n.id = m.id) : n = m :=
  List.inj_on_of_nodup_map hd hn hm h

/-- Where numbers are distinct, the edges into a node are those that it names itself. -/
theorem edge_iff {nodes : List Node} (hd : (nodes.map Node.id).Nodup) {n : Node} (hn : n ∈ nodes)
    {p : NodeId} : Edge nodes p n.id ↔ p ∈ n.parents := by
  constructor
  · rintro ⟨m, hm, hid, hp⟩
    obtain rfl := eq_of_id_eq hd hm hn hid
    exact hp
  · intro hp
    exact ⟨n, hn, rfl, hp⟩

/-- A node of which nothing matters but its kind, its number and its parents. -/
def bareNode (kind : NodeKind) (id : NodeId) (parents : List NodeId) : Node :=
  ⟨id, kind, "", 0, none, [], parents⟩

namespace Graph

variable {g : Graph} {id p c : NodeId}

/-- The node `b` is `a` or ran after it. -/
def Reaches (g : Graph) (a b : NodeId) : Prop := ReflTransGen (Edge g.nodes) a b

/-- One comes back to the node by going on to children. -/
def OnCycle (g : Graph) (id : NodeId) : Prop := TransGen (Edge g.nodes) id id

/-- The node is on a cycle or before one. -/
def LeadsToCycle (g : Graph) (id : NodeId) : Prop := ∃ c, g.Reaches id c ∧ g.OnCycle c

/-- No node is on a cycle. -/
def Acyclic (g : Graph) : Prop := ∀ id, ¬ g.OnCycle id

/-- Where there are no cycles, nothing leads to one. -/
theorem Acyclic.not_leadsToCycle (h : g.Acyclic) (id : NodeId) : ¬ g.LeadsToCycle id := by
  rintro ⟨c, -, hc⟩
  exact h c hc

section Numbered

variable (h : ∀ p c, Edge g.nodes p c → p < c)
include h

/-- Where nodes that ran later have greater numbers, going on leads to greater numbers. -/
theorem lt_of_transGen {a b : NodeId} (hab : TransGen (Edge g.nodes) a b) : a < b := by
  induction hab with
  | single hedge => exact h _ _ hedge
  | tail _ hedge ih => exact UInt32.lt_trans ih (h _ _ hedge)

theorem le_of_reaches {a b : NodeId} (hab : g.Reaches a b) : a ≤ b := by
  rcases reflTransGen_iff_eq_or_transGen.mp hab with rfl | hab
  · exact UInt32.le_refl b
  · exact UInt32.le_of_lt (lt_of_transGen h hab)

/-- Where numbers grow along the edges, there are no cycles. -/
theorem acyclic_of_lt : g.Acyclic := fun id hcycle => UInt32.lt_irrefl id (lt_of_transGen h hcycle)

end Numbered

/-! ## Ends of edges -/

theorem mem_ids : id ∈ g.ids ↔ ∃ n ∈ g.nodes, n.id = id := List.mem_map

theorem id_mem_ids {n : Node} (hn : n ∈ g.nodes) : n.id ∈ g.ids := List.mem_map_of_mem hn

theorem child_mem_ids (h : Edge g.nodes p c) : c ∈ g.ids := by
  obtain ⟨n, hn, rfl, -⟩ := h
  exact id_mem_ids hn

theorem parent_mem_ids (h : Edge g.nodes p c) : p ∈ g.ids := by
  obtain ⟨n, hn, -, hp⟩ := h
  exact g.closed n hn p hp

/-- A node is found under its number. -/
theorem get?_id {n : Node} (hn : n ∈ g.nodes) : g.get? n.id = some n := by
  cases h : g.get? n.id with
  | none => exact absurd (List.find?_eq_none.mp h n hn) (by simp)
  | some m =>
    have hid : m.id = n.id := by simpa using List.find?_some h
    rw [eq_of_id_eq g.distinct (List.mem_of_find?_eq_some h) hn hid]

/-- Nothing is found under a number that is not there. -/
theorem get?_eq_none (h : id ∉ g.ids) : g.get? id = none := by
  refine List.find?_eq_none.mpr fun n hn hid => h ?_
  exact mem_ids.mpr ⟨n, hn, by simpa using hid⟩

/-- What comes before a cycle has a child before it. -/
theorem LeadsToCycle.exists_child (h : g.LeadsToCycle id) :
    ∃ c, Edge g.nodes id c ∧ g.LeadsToCycle c := by
  obtain ⟨z, hz, hcycle⟩ := h
  rcases ReflTransGen.cases_head hz with rfl | ⟨c, hc, hcz⟩
  · obtain ⟨c, hc, hcz⟩ := TransGen.head'_iff.mp hcycle
    exact ⟨c, hc, id, hcz, hcycle⟩
  · exact ⟨c, hc, z, hcz, hcycle⟩

/-- What comes before a node that leads to a cycle leads to it too. -/
theorem LeadsToCycle.parent (h : g.LeadsToCycle c) (hp : Edge g.nodes p c) : g.LeadsToCycle p := by
  obtain ⟨z, hz, hcycle⟩ := h
  exact ⟨z, ReflTransGen.head hp hz, hcycle⟩

/-- The numbers are finitely many, so a way on to children that never ends comes back to a node. -/
theorem acc_of_not_leadsToCycle (h : ¬ g.LeadsToCycle id) :
    Acc (fun c p => Edge g.nodes p c) id := by
  let before (c p : NodeId) : Prop := ¬ g.LeadsToCycle p ∧ TransGen (Edge g.nodes) p c
  have : Finite NodeId := Finite.of_injective UInt32.toFin fun _ _ => UInt32.toFin_inj.mp
  have : IsTrans NodeId before :=
    ⟨fun _ _ _ hab hbc => ⟨hbc.1, hbc.2.trans hab.2⟩⟩
  have : Std.Irrefl before := ⟨fun a ha => ha.1 ⟨a, ReflTransGen.refl, ha.2⟩⟩
  have hwf : WellFounded before := Finite.wellFounded_of_trans_of_irrefl before
  induction id using hwf.induction with
  | _ id ih =>
    refine Acc.intro id fun c hc => ih c ⟨h, TransGen.single hc⟩ fun hcycle => h ?_
    exact hcycle.parent hc

/-! ## Parents and children -/

theorem parents_id {n : Node} (hn : n ∈ g.nodes) : g.parents n.id = n.parents := by
  rw [parents, get?_id hn, Option.elim_some]

/-- The parents of a node are those from which an edge leads to it. -/
@[simp] theorem mem_parents : p ∈ g.parents id ↔ Edge g.nodes p id := by
  by_cases hid : id ∈ g.ids
  · obtain ⟨n, hn, rfl⟩ := mem_ids.mp hid
    rw [parents_id hn, edge_iff g.distinct hn]
  · rw [parents, get?_eq_none hid, Option.elim_none]
    constructor
    · exact fun hp => absurd hp List.not_mem_nil
    · exact fun hp => absurd (child_mem_ids hp) hid

/-- The children of a node are those to which an edge leads from it. -/
@[simp] theorem mem_childEdges : c ∈ g.childEdges p ↔ Edge g.nodes p c := by
  simp only [childEdges, Edge, List.mem_flatMap, List.mem_map, List.mem_filter, decide_eq_true_eq]
  constructor
  · rintro ⟨n, hn, p', ⟨hp', rfl⟩, rfl⟩
    exact ⟨n, hn, rfl, hp'⟩
  · rintro ⟨n, hn, rfl, hp⟩
    exact ⟨n, hn, p, ⟨hp, rfl⟩, rfl⟩

theorem count_flatMap_edges {nodes : List Node} (hd : (nodes.map Node.id).Nodup) {n : Node}
    (hn : n ∈ nodes) (p : NodeId) :
    (nodes.flatMap fun m => (m.parents.filter (· = p)).map fun _ => m.id).count n.id =
      n.parents.count p := by
  induction nodes with
  | nil => exact absurd hn List.not_mem_nil
  | cons m nodes ih =>
    rw [List.map_cons, List.nodup_cons] at hd
    obtain ⟨hm, hd⟩ := hd
    rw [List.flatMap_cons, List.count_append]
    rcases List.mem_cons.mp hn with rfl | hn
    · have hrest : n.id ∉ nodes.flatMap fun m => (m.parents.filter (· = p)).map fun _ => m.id := by
        simp only [List.mem_flatMap, List.mem_map]
        rintro ⟨m, hmem, -, -, hid⟩
        exact hm (hid ▸ List.mem_map_of_mem hmem)
      rw [List.count_eq_zero_of_not_mem hrest, List.map_const', List.count_replicate_self,
        Nat.add_zero, List.count_eq_countP, List.countP_eq_length_filter]
      rfl
    · have hfirst : n.id ∉ (m.parents.filter (· = p)).map fun _ => m.id := by
        simp only [List.mem_map]
        rintro ⟨-, -, hid⟩
        exact hm (hid ▸ List.mem_map_of_mem hn)
      rw [List.count_eq_zero_of_not_mem hfirst, Nat.zero_add, ih hd hn]

/-- A child that names its parent more than once has as many edges from it. -/
theorem count_childEdges (g : Graph) (p c : NodeId) :
    (g.childEdges p).count c = (g.parents c).count p := by
  by_cases hc : c ∈ g.ids
  · obtain ⟨n, hn, rfl⟩ := mem_ids.mp hc
    rw [parents_id hn, childEdges, count_flatMap_edges g.distinct hn]
  · rw [parents, get?_eq_none hc, Option.elim_none, List.count_nil]
    exact List.count_eq_zero_of_not_mem fun hmem => hc (child_mem_ids (mem_childEdges.mp hmem))

@[simp] theorem mem_sorted {ids : List NodeId} : id ∈ sorted ids ↔ id ∈ ids := List.mem_mergeSort

theorem sorted_perm (ids : List NodeId) : (sorted ids).Perm ids := List.mergeSort_perm ids _

theorem nodup_sorted {ids : List NodeId} (h : ids.Nodup) : (sorted ids).Nodup :=
  (sorted_perm ids).nodup_iff.mpr h

theorem pairwise_sorted (ids : List NodeId) : (sorted ids).Pairwise (· ≤ ·) := by
  have hsorted : (sorted ids).Pairwise fun a b => (decide (a ≤ b) : Bool) := by
    refine List.pairwise_mergeSort (fun a b c hab hbc => ?_) (fun a b => ?_) ids
    · simp only [decide_eq_true_eq] at hab hbc ⊢
      exact UInt32.le_trans hab hbc
    · simpa using UInt32.le_total a b
  exact hsorted.imp of_decide_eq_true

/-- Heads are the nodes from which no edge leads on. -/
theorem mem_heads : id ∈ g.heads ↔ id ∈ g.ids ∧ ∀ c, ¬ Edge g.nodes id c := by
  simp [heads, List.eq_nil_iff_forall_not_mem]

theorem nodup_heads : g.heads.Nodup := nodup_sorted (g.distinct.filter _)

/-! ## Nodes that form a graph -/

/-- No number is found to occur again if and only if all are distinct and new. -/
theorem firstRepeat?_eq_none_iff {seen ids : List NodeId} :
    firstRepeat? seen ids = none ↔ ids.Nodup ∧ ∀ id ∈ ids, id ∉ seen := by
  refine ⟨firstRepeat?_eq_none, ?_⟩
  induction ids generalizing seen with
  | nil => exact fun _ => rfl
  | cons id ids ih =>
    rintro ⟨hnodup, hseen⟩
    obtain ⟨hid, hnodup⟩ := List.nodup_cons.mp hnodup
    rw [firstRepeat?, if_neg (hseen id List.mem_cons_self)]
    refine ih ⟨hnodup, fun x hx hmem => ?_⟩
    rcases List.mem_cons.mp hmem with rfl | hmem
    · exact hid hx
    · exact hseen x (List.mem_cons_of_mem _ hx) hmem

/-- No parent is found to be unknown if and only if all are among the numbers. -/
theorem firstUnknown?_eq_none_iff {ids : List NodeId} {nodes : List Node} :
    firstUnknown? ids nodes = none ↔ ∀ n ∈ nodes, ∀ p ∈ n.parents, p ∈ ids := by
  refine ⟨firstUnknown?_eq_none, fun h => List.findSome?_eq_none_iff.mpr fun n hn => ?_⟩
  rw [Option.map_eq_none_iff, List.find?_eq_none]
  intro p hp
  simp only [decide_eq_true_eq, not_not]
  exact h n hn p hp

/-- Nodes with distinct numbers form a graph if their parents are among them. -/
theorem ofNodes_eq_ok {nodes : List Node} (hd : (nodes.map Node.id).Nodup)
    (hc : ∀ n ∈ nodes, ∀ p ∈ n.parents, p ∈ nodes.map Node.id) :
    ofNodes nodes = .ok ⟨nodes, hd, hc⟩ := by
  have hrepeat : firstRepeat? [] (nodes.map Node.id) = none :=
    firstRepeat?_eq_none_iff.mpr ⟨hd, fun _ _ => List.not_mem_nil⟩
  have hunknown : firstUnknown? (nodes.map Node.id) nodes = none :=
    firstUnknown?_eq_none_iff.mpr hc
  unfold ofNodes
  split
  · next h => rw [hrepeat] at h; cases h
  · split
    · next h => rw [hunknown] at h; cases h
    · rfl

/-- A graph holds the nodes that it was formed from. -/
theorem nodes_of_ofNodes {nodes : List Node} (h : ofNodes nodes = .ok g) : g.nodes = nodes := by
  unfold ofNodes at h
  split at h
  · cases h
  · split at h
    · cases h
    · obtain rfl := Except.ok.inj h
      rfl

end Graph

end BuildMetrics.Trace
