import BuildMetrics.Proofs.Trace.Edges
import BuildMetrics.Proofs.Trace.Matching
import BuildMetrics.Trace.Walk
import Mathlib.Data.List.Forall2

/-!
# Nodes in another order

A host may list the nodes of a trace in any order, and the parents of a node as well. The graph of
the nodes keeps the order in which they came, so the order is still there in the edges that a step
of the walk counts down; it is gone from what the walk yields.

* `Rearranged`: the same nodes in another order, each with its parents in another order;
* `Rearranged.ofNodes_ok`, `Rearranged.ofNodes_error`: they form a graph or they do not, and a
  number that occurs twice is reported in either order;
* `Rearranged.run`: two walks that have the same left at each node and the same stack go on alike;
* `Rearranged.walkIds_eq`: hence the walks yield the same numbers.
-/

namespace BuildMetrics.Trace

/-- The node without its parents. -/
def Node.alone (n : Node) : Node := { n with parents := [] }

/-- The nodes differ at most in the order of their parents. -/
structure Node.Rearranged (n m : Node) : Prop where
  /-- nothing but the parents may differ -/
  alone : n.alone = m.alone
  /-- a parent is named as often as before -/
  parents : n.parents.Perm m.parents

/-- The nodes in another order, each with its parents in another order. -/
def Rearranged (nodes nodes' : List Node) : Prop :=
  ∃ between, nodes.Perm between ∧ List.Forall₂ Node.Rearranged between nodes'

variable {nodes nodes' : List Node} {n m : Node} {g g' : Graph} {id : NodeId}

theorem Node.Rearranged.symm (h : n.Rearranged m) : m.Rearranged n :=
  ⟨h.alone.symm, h.parents.symm⟩

theorem Node.Rearranged.id_eq (h : n.Rearranged m) : n.id = m.id := by
  have hid : n.alone.id = m.alone.id := by rw [h.alone]
  exact hid

namespace Rearranged

theorem symm (h : Rearranged nodes nodes') : Rearranged nodes' nodes := by
  obtain ⟨between, hperm, hnodes⟩ := h
  have hback : List.Forall₂ Node.Rearranged nodes' between :=
    (hnodes.imp fun _ _ => Node.Rearranged.symm).flip
  have hcomp : Relation.Comp (List.Forall₂ Node.Rearranged) List.Perm nodes' nodes :=
    ⟨between, hback, hperm.symm⟩
  rwa [List.forall₂_comp_perm_eq_perm_comp_forall₂] at hcomp

/-- What the nodes are made into one by one comes in another order. -/
theorem flatMap_perm {β : Type} {f : Node → List β} (h : Rearranged nodes nodes')
    (hf : ∀ n m, Node.Rearranged n m → (f n).Perm (f m)) :
    (nodes.flatMap f).Perm (nodes'.flatMap f) := by
  obtain ⟨between, hperm, hnodes⟩ := h
  refine (hperm.flatMap_right f).trans ?_
  clear hperm
  induction hnodes with
  | nil => exact .nil
  | cons hhead _ ih =>
    rw [List.flatMap_cons, List.flatMap_cons]
    exact (hf _ _ hhead).append ih

theorem map_perm {β : Type} {f : Node → β} (h : Rearranged nodes nodes')
    (hf : ∀ n m, Node.Rearranged n m → f n = f m) : (nodes.map f).Perm (nodes'.map f) := by
  have hsingle := h.flatMap_perm (f := fun n => [f n]) fun n m hnm => .of_eq (by rw [hf n m hnm])
  rwa [← List.map_eq_flatMap, ← List.map_eq_flatMap] at hsingle

theorem ids_perm (h : Rearranged nodes nodes') : (nodes.map Node.id).Perm (nodes'.map Node.id) :=
  h.map_perm fun _ _ => Node.Rearranged.id_eq

theorem exists_node (h : Rearranged nodes nodes') (hn : n ∈ nodes) :
    ∃ m ∈ nodes', n.Rearranged m := by
  obtain ⟨between, hperm, hnodes⟩ := h
  have hmem : n ∈ between := hperm.subset hn
  clear hperm hn
  induction hnodes with
  | nil => exact absurd hmem List.not_mem_nil
  | cons hhead _ ih =>
    rcases List.mem_cons.mp hmem with rfl | hmem
    · exact ⟨_, List.mem_cons_self, hhead⟩
    · obtain ⟨m, hm, hnm⟩ := ih hmem
      exact ⟨m, List.mem_cons_of_mem _ hm, hnm⟩

/-! ## Forming a graph -/

/-- Every parent is the number of a node. -/
theorem closed (h : Rearranged nodes nodes')
    (hclosed : ∀ n ∈ nodes, ∀ p ∈ n.parents, p ∈ nodes.map Node.id) :
    ∀ n ∈ nodes', ∀ p ∈ n.parents, p ∈ nodes'.map Node.id := by
  intro m hm p hp
  obtain ⟨n, hn, hmn⟩ := h.symm.exists_node hm
  exact h.ids_perm.subset (hclosed n hn p (hmn.parents.subset hp))

/-- If nodes form a graph, so do they in another order. -/
theorem ofNodes_ok (h : Rearranged nodes nodes') (hg : Graph.ofNodes nodes = .ok g) :
    ∃ g', Graph.ofNodes nodes' = .ok g' ∧ Rearranged g.nodes g'.nodes := by
  obtain rfl := Graph.nodes_of_ofNodes hg
  have hdistinct : (nodes'.map Node.id).Nodup := h.ids_perm.nodup_iff.mp g.distinct
  exact ⟨⟨nodes', hdistinct, h.closed g.closed⟩, Graph.ofNodes_eq_ok _ _, h⟩

end Rearranged

/-- Nodes that form no graph have a number that occurs twice, which then is what is reported, or an
unknown parent. -/
theorem Graph.duplicateNode_iff_of_error {e : GraphError} (h : Graph.ofNodes nodes = .error e) :
    (∃ id, e = .duplicateNode id) ↔ ¬ (nodes.map Node.id).Nodup := by
  unfold Graph.ofNodes at h
  split at h
  · next id hrepeat =>
    obtain rfl := Except.error.inj h
    refine ⟨fun _ hnodup => ?_, fun _ => ⟨id, rfl⟩⟩
    have hnone : firstRepeat? [] (nodes.map Node.id) = none :=
      Graph.firstRepeat?_eq_none_iff.mpr ⟨hnodup, fun _ _ => List.not_mem_nil⟩
    rw [hrepeat] at hnone
    cases hnone
  · next hrepeat =>
    split at h
    · obtain rfl := Except.error.inj h
      constructor
      · rintro ⟨id, hid⟩
        cases hid
      · exact fun hnodup => absurd (firstRepeat?_eq_none hrepeat).1 hnodup
    · cases h

/-- If nodes form no graph, neither do they in another order. -/
theorem Rearranged.ofNodes_error {e : GraphError} (h : Rearranged nodes nodes')
    (he : Graph.ofNodes nodes = .error e) : ∃ e', Graph.ofNodes nodes' = .error e' := by
  cases hg' : Graph.ofNodes nodes' with
  | error e' => exact ⟨e', rfl⟩
  | ok g' =>
    obtain ⟨g, hg, -⟩ := h.symm.ofNodes_ok hg'
    rw [he] at hg
    cases hg

/-! ## Sorting and counting -/

/-- What is sorted is told by what there is to sort. -/
theorem Graph.sorted_eq_of_perm {ids ids' : List NodeId} (h : ids.Perm ids') :
    Graph.sorted ids = Graph.sorted ids' := by
  refine List.Perm.eq_of_pairwise (fun a b _ _ hab hba => UInt32.le_antisymm hab hba)
    (Graph.pairwise_sorted ids) (Graph.pairwise_sorted ids') ?_
  exact ((Graph.sorted_perm ids).trans h).trans (Graph.sorted_perm ids').symm

/-- In whatever order the edges are counted, what is left is the same, and so are the parents that
are told. -/
theorem Walk.countDown_perm {parents parents' : List NodeId} (h : parents.Perm parents')
    (remaining : NodeId → Nat) :
    (countDown remaining parents).1 = (countDown remaining parents').1 ∧
      (countDown remaining parents).2.Perm (countDown remaining parents').2 := by
  induction h generalizing remaining with
  | nil => exact ⟨rfl, .nil⟩
  | cons p _ ih =>
    obtain ⟨hfst, hsnd⟩ := ih fun id => if id = p then remaining p - 1 else remaining id
    simp only [countDown]
    refine ⟨hfst, ?_⟩
    split
    · exact hsnd.cons p
    · exact hsnd
  | swap p q parents =>
    by_cases hpq : p = q
    · subst hpq
      exact ⟨rfl, .refl _⟩
    · -- the counts of two different parents do not touch each other
      have hcomm : (fun id => if id = p then (if p = q then remaining q - 1 else remaining p) - 1
            else if id = q then remaining q - 1 else remaining id) =
          fun id => if id = q then (if q = p then remaining p - 1 else remaining q) - 1
            else if id = p then remaining p - 1 else remaining id := by
        funext id
        grind
      simp only [countDown, hcomm]
      refine ⟨trivial, ?_⟩
      rw [if_neg hpq, if_neg (Ne.symm hpq)]
      split <;> split
      · exact .swap _ _ _
      · exact .refl _
      · exact .refl _
      · exact .refl _
  | trans _ _ ih ih' =>
    obtain ⟨hfst, hsnd⟩ := ih remaining
    obtain ⟨hfst', hsnd'⟩ := ih' remaining
    exact ⟨hfst.trans hfst', hsnd.trans hsnd'⟩

/-! ## Walking -/

namespace Rearranged

variable (h : Rearranged g.nodes g'.nodes)
include h

/-- The children of a node are the same, in another order. -/
theorem childEdges_perm (id : NodeId) : (g.childEdges id).Perm (g'.childEdges id) := by
  refine h.flatMap_perm fun n m hnm => ?_
  rw [hnm.id_eq]
  exact (hnm.parents.filter _).map _

/-- The heads are the same. -/
theorem heads_eq : g.heads = g'.heads := by
  have hempty (id : NodeId) : (g.childEdges id).isEmpty = (g'.childEdges id).isEmpty := by
    rw [Bool.eq_iff_iff, List.isEmpty_iff_length_eq_zero, List.isEmpty_iff_length_eq_zero,
      (h.childEdges_perm id).length_eq]
  refine Graph.sorted_eq_of_perm ?_
  simp only [hempty]
  exact h.ids_perm.filter _

/-- The same number has nodes that differ at most in the order of their parents. -/
theorem get?_rel (id : NodeId) : Option.Rel Node.Rearranged (g.get? id) (g'.get? id) := by
  by_cases hid : id ∈ g.ids
  · obtain ⟨n, hn, rfl⟩ := Graph.mem_ids.mp hid
    obtain ⟨m, hm, hnm⟩ := h.exists_node hn
    rw [Graph.get?_id hn, hnm.id_eq, Graph.get?_id hm]
    exact .some hnm
  · have hid' : id ∉ g'.ids := fun hmem => hid (h.ids_perm.symm.subset hmem)
    rw [Graph.get?_eq_none hid, Graph.get?_eq_none hid']
    exact .none

/-- The parents of a node are the same, in another order. -/
theorem parents_perm (id : NodeId) : (g.parents id).Perm (g'.parents id) := by
  have hrel := h.get?_rel id
  rw [Graph.parents, Graph.parents]
  cases hn : g.get? id with
  | none =>
    cases hm : g'.get? id with
    | none => exact .nil
    | some m =>
      rw [hn, hm] at hrel
      cases hrel
  | some n =>
    cases hm : g'.get? id with
    | none =>
      rw [hn, hm] at hrel
      cases hrel
    | some m =>
      rw [hn, hm] at hrel
      cases hrel with
      | some hnm => exact hnm.parents

/-- A step of the walk yields the same number and leaves the same. -/
theorem next?_eq (w : Walk) : w.next? g = w.next? g' := by
  obtain ⟨remaining, stack⟩ := w
  cases stack with
  | nil => rfl
  | cons id stack =>
    obtain ⟨hfst, hsnd⟩ := Walk.countDown_perm (h.parents_perm id) remaining
    simp only [Walk.next?]
    rw [hfst, Graph.sorted_eq_of_perm hsnd]

/-- The walk is the same from the same place on. -/
theorem run (steps : Nat) (w : Walk) : w.run g steps = w.run g' steps := by
  induction steps generalizing w with
  | zero => rfl
  | succ steps ih =>
    rw [Walk.run, Walk.run, h.next?_eq]
    cases w.next? g' with
    | none => rfl
    | some next =>
      obtain ⟨id, w⟩ := next
      simp only [ih]

/-- **The walk does not depend on the order of the nodes and of their parents.** -/
theorem walkIds_eq : g.walkIds = g'.walkIds := by
  have hcount : g.nodeCount = g'.nodeCount := by
    have hlength := h.ids_perm.length_eq
    rwa [List.length_map, List.length_map] at hlength
  have hstart : Walk.ofGraph g = Walk.ofGraph g' := by
    rw [Walk.ofGraph, Walk.ofGraph, h.heads_eq]
    simp only [(h.childEdges_perm _).length_eq]
  rw [Graph.walkIds, Graph.walkIds, hcount, hstart, h.run]

/-- The walk meets the same nodes but for the order of their parents. -/
theorem map_alone_walk : g.walk.map Node.alone = g'.walk.map Node.alone := by
  have hget (id : NodeId) : (g.get? id).map Node.alone = (g'.get? id).map Node.alone := by
    have hrel := h.get?_rel id
    generalize g.get? id = n at hrel
    generalize g'.get? id = m at hrel
    cases hrel with
    | some hnm => exact congrArg some hnm.alone
    | none => rfl
  rw [Graph.walk, Graph.walk, List.map_filterMap, List.map_filterMap, h.walkIds_eq]
  simp only [hget]

end Rearranged

/-! ## Matching -/

/-- The scope with nodes without their parents. -/
def Scope.alone (s : Scope) : Scope := { s with start := s.start.alone, ending := s.ending.alone }

/-- An end that waits, without its parents. -/
def PendingEnd.alone (e : PendingEnd) : PendingEnd := { e with node := e.node.alone }

/-- The matcher does not look at parents. -/
theorem Matcher.all_map_alone (waiting : List PendingEnd) (nodes : List Node) :
    Matcher.all (waiting.map PendingEnd.alone) (nodes.map Node.alone) =
      ((Matcher.all waiting nodes).1.map (Except.map Scope.alone),
        (Matcher.all waiting nodes).2.map PendingEnd.alone) := by
  induction nodes generalizing waiting with
  | nil => rfl
  | cons n nodes ih =>
    cases hkind : n.kind with
    | other =>
      rw [List.map_cons, Matcher.all_other hkind, Matcher.all_other (n := n.alone) hkind, ih]
    | scopeEnd =>
      have halone : PendingEnd.ofNode n.alone = (PendingEnd.ofNode n).alone := rfl
      rw [List.map_cons, Matcher.all_end hkind, Matcher.all_end (n := n.alone) hkind, halone,
        ← List.map_cons, ih]
    | scopeStart =>
      cases waiting with
      | nil =>
        rw [List.map_cons, Matcher.all_start_nil hkind, List.map_nil,
          Matcher.all_start_nil (n := n.alone) hkind]
        rfl
      | cons e waiting =>
        rw [List.map_cons, Matcher.all_start_cons hkind, List.map_cons,
          Matcher.all_start_cons (n := n.alone) hkind, ih]
        rfl

end BuildMetrics.Trace
