import BuildMetrics.Proofs.Trace.Edges

/-!
# The worklist of a walk

A walk has a stack of nodes that it can yield next, and counts at each node the edges to children
that are not done. What holds at its beginning and is kept by each of its steps is put into one
structure (`Graph.Worklist`): above all that the counts are right, and that therefore a node is on
the stack or done when all its children are done. This settles what a walk yields in the end:
`Graph.mem_walk` says that it yields the nodes that lead to no cycle, and `Graph.nodup_walk` that it
yields none of them twice. The bound on the number of steps is never felt (`Graph.Worklist.run`).
-/

namespace BuildMetrics.Trace

/-! ## Counting down -/

namespace Walk

variable {remaining : NodeId → Nat} {parents : List NodeId}

/-- Each parent of a node that was met has so many children less to wait for as it is named. -/
theorem countDown_fst (remaining : NodeId → Nat) (parents : List NodeId) (p : NodeId) :
    (countDown remaining parents).1 p = remaining p - parents.count p := by
  induction parents generalizing remaining with
  | nil => rw [List.count_nil, Nat.sub_zero, countDown]
  | cons q parents ih =>
    rw [countDown, ih]
    by_cases hpq : p = q
    · subst hpq
      rw [if_pos rfl, List.count_cons_self, Nat.sub_sub, Nat.add_comm]
    · rw [if_neg hpq, List.count_cons_of_ne (Ne.symm hpq)]

/-- After an edge is counted there is room for the others. -/
theorem count_le_of_cons {q : NodeId} (h : ∀ p, (q :: parents).count p ≤ remaining p) (p : NodeId) :
    parents.count p ≤ if p = q then remaining q - 1 else remaining p := by
  have hp := h p
  by_cases hpq : p = q
  · subst hpq
    rw [List.count_cons_self] at hp
    rw [if_pos rfl]
    omega
  · rw [List.count_cons_of_ne (Ne.symm hpq)] at hp
    rwa [if_neg hpq]

/-- A parent is told when the last of its edges is counted, and only then. -/
theorem countDown_snd (h : ∀ p, parents.count p ≤ remaining p) :
    (countDown remaining parents).2.Nodup ∧
      ∀ p, p ∈ (countDown remaining parents).2 ↔ p ∈ parents ∧ remaining p = parents.count p := by
  induction parents generalizing remaining with
  | nil => simp [countDown]
  | cons q parents ih =>
    obtain ⟨hnodup, hmem⟩ := ih (count_le_of_cons h)
    have hq : parents.count q + 1 ≤ remaining q := by
      rw [← List.count_cons_self]
      exact h q
    have hother (p : NodeId) (hpq : p ≠ q) :
        p ∈ (countDown (fun id => if id = q then remaining q - 1 else remaining id) parents).2 ↔
          p ∈ q :: parents ∧ remaining p = (q :: parents).count p := by
      rw [hmem, if_neg hpq, List.count_cons_of_ne (Ne.symm hpq), List.mem_cons]
      simp only [hpq, false_or]
    have hcons : (countDown remaining (q :: parents)).2 = if remaining q - 1 = 0 then
          q :: (countDown (fun id => if id = q then remaining q - 1 else remaining id) parents).2
        else (countDown (fun id => if id = q then remaining q - 1 else remaining id) parents).2 :=
      rfl
    by_cases hleft : remaining q - 1 = 0
    · -- no other edge of this parent is left, so it is not told again
      have hnone : q ∉ parents := List.count_eq_zero.mp (by omega)
      rw [hcons, if_pos hleft]
      refine ⟨List.nodup_cons.mpr ⟨fun hin => hnone ((hmem q).mp hin).1, hnodup⟩, fun p => ?_⟩
      by_cases hpq : p = q
      · subst hpq
        simp only [List.mem_cons, true_or, List.count_cons_self, List.count_eq_zero.mpr hnone,
          true_and, true_iff]
        omega
      · rw [List.mem_cons, hother p hpq]
        simp only [hpq, false_or]
    · rw [hcons, if_neg hleft]
      refine ⟨hnodup, fun p => ?_⟩
      by_cases hpq : p = q
      · subst hpq
        rw [hmem, if_pos rfl, List.count_cons_self]
        constructor
        · rintro ⟨-, heq⟩
          exact ⟨List.mem_cons_self, by omega⟩
        · rintro ⟨-, heq⟩
          exact ⟨List.count_pos_iff.mp (by omega), by omega⟩
      · exact hother p hpq

theorem eraseReps_of_nodup {ids : List NodeId} (h : ids.Nodup) : ids.eraseReps = ids := by
  have hloop (a : NodeId) (ids acc : List NodeId) (h : (a :: ids).Nodup) :
      List.eraseRepsBy.loop (· == ·) a ids acc = acc.reverse ++ a :: ids := by
    induction ids generalizing a acc with
    | nil => rw [List.eraseRepsBy.loop, List.reverse_cons]
    | cons b ids ih =>
      obtain ⟨ha, hb⟩ := List.nodup_cons.mp h
      have hab : (a == b) = false := beq_false_of_ne (List.ne_of_not_mem_cons ha)
      rw [List.eraseRepsBy.loop, hab, ih b (a :: acc) hb]
      simp
  cases ids with
  | nil => rfl
  | cons a ids => exact hloop a ids [] h

section

variable {g : Graph} {w : Walk}

/-- A step of a walk. -/
theorem next?_eq {id : NodeId} {stack : List NodeId} (h : w.stack = id :: stack) :
    w.next? g = some (id, ⟨(countDown w.remaining (g.parents id)).1,
      (Graph.sorted (countDown w.remaining (g.parents id)).2).eraseReps.reverse ++ stack⟩) := by
  rw [next?, h]

/-- A walk yields nothing more once nothing is on the stack. -/
theorem run_of_stack_nil (h : w.stack = []) (steps : Nat) : w.run g steps = [] := by
  cases steps with
  | zero => rfl
  | succ steps => rw [run, next?, h]

/-- A walk yields what its next step yields, then what the walk behind it yields. -/
theorem run_succ {id : NodeId} {w' : Walk} (h : w.next? g = some (id, w')) (steps : Nat) :
    w.run g (steps + 1) = id :: w'.run g steps := by
  rw [run, h]

end

end Walk

namespace Graph

open Relation
open Walk (countDown)

variable {g : Graph} {w : Walk} {stack done : List NodeId} {id c : NodeId}

/-- What holds of a walk and of what is done at every point of it. -/
structure Worklist (g : Graph) (w : Walk) (done : List NodeId) : Prop where
  /-- what is left at a node are the edges to children that are not done -/
  remaining : ∀ id, w.remaining id = (g.childEdges id).countP (· ∉ done)
  /-- nothing is on the stack twice or again after it is done -/
  nodup : (w.stack ++ done).Nodup
  /-- a node is on the stack or done when all its children are done -/
  mem_iff : ∀ id, id ∈ w.stack ++ done ↔ id ∈ g.ids ∧ ∀ c, Edge g.nodes id c → c ∈ done
  /-- nothing that is done leads to a cycle -/
  sound : ∀ id ∈ done, ¬ g.LeadsToCycle id

namespace Worklist

/-- Before the first step nothing is done, and the heads are the nodes without children. -/
theorem ofGraph (g : Graph) : Worklist g (.ofGraph g) [] where
  remaining id := by simp [Walk.ofGraph]
  nodup := by
    rw [List.append_nil]
    exact nodup_heads
  mem_iff id := by simp [Walk.ofGraph, mem_heads]
  sound id hid := absurd hid List.not_mem_nil

/-- The children of what is on the stack or done are done. -/
theorem child_mem_done (h : Worklist g w done) (hid : id ∈ w.stack ++ done)
    (hc : Edge g.nodes id c) : c ∈ done :=
  ((h.mem_iff id).mp hid).2 c hc

/-- All that ran after something on the stack or done is done. -/
theorem eq_or_mem_done_of_reaches (h : Worklist g w done) (hid : id ∈ w.stack ++ done)
    (hc : g.Reaches id c) : c = id ∨ c ∈ done := by
  induction hc with
  | refl => exact Or.inl rfl
  | tail _ hedge ih =>
    refine Or.inr ?_
    rcases ih with rfl | hmem
    · exact h.child_mem_done hid hedge
    · exact h.child_mem_done (List.mem_append_right _ hmem) hedge

theorem mem_ids (h : Worklist g w done) (hid : id ∈ w.stack ++ done) : id ∈ g.ids :=
  ((h.mem_iff id).mp hid).1

/-- There is never more to do than there are nodes. -/
theorem length_le (h : Worklist g w done) : w.stack.length + done.length ≤ g.nodeCount := by
  have hsub : w.stack ++ done ⊆ g.ids := fun id hid => h.mem_ids hid
  have hle := (h.nodup.subperm hsub).length_le
  rwa [List.length_append, ids, List.length_map] at hle

/-- What is on top of the stack is not done. -/
theorem not_mem_of_top (h : Worklist g w done) (hstack : w.stack = id :: stack) :
    id ∉ stack ∧ id ∉ done := by
  have hnodup := h.nodup
  rw [hstack, List.cons_append, List.nodup_cons, List.mem_append, not_or] at hnodup
  exact hnodup.1

/-! ### A step -/

/-- The edges to what is not done are those to the node that is done next and those that are
left then. -/
theorem countP_not_mem_cons (ids : List NodeId) (hid : id ∉ done) :
    ids.countP (· ∉ done) = ids.countP (· ∉ id :: done) + ids.count id := by
  induction ids with
  | nil => rfl
  | cons a ids ih =>
    rw [List.countP_cons, List.countP_cons, List.count_cons, ih]
    by_cases ha : a = id
    · subst ha
      simp [hid]
      omega
    · simp [ha]
      omega

section Step

variable (h : Worklist g w done) (hid : id ∉ done)
include h hid

/-- The counts are right again when the edges to the node are counted. -/
theorem countDown_fst (p : NodeId) : (countDown w.remaining (g.parents id)).1 p =
    (g.childEdges p).countP (· ∉ id :: done) := by
  rw [Walk.countDown_fst, h.remaining, countP_not_mem_cons _ hid, count_childEdges,
    Nat.add_sub_cancel]

theorem count_parents_le (p : NodeId) : (g.parents id).count p ≤ w.remaining p := by
  rw [h.remaining, countP_not_mem_cons _ hid, count_childEdges]
  exact Nat.le_add_left _ _

/-- The parents that are told are those whose children are all done now. -/
theorem mem_countDown_snd {p : NodeId} : p ∈ (countDown w.remaining (g.parents id)).2 ↔
    Edge g.nodes p id ∧ ∀ c, Edge g.nodes p c → c ∈ id :: done := by
  have hcount : w.remaining p = (g.parents id).count p ↔
      (g.childEdges p).countP (· ∉ id :: done) = 0 := by
    rw [h.remaining, countP_not_mem_cons _ hid, count_childEdges]
    omega
  rw [(Walk.countDown_snd (h.count_parents_le hid)).2, mem_parents, hcount, List.countP_eq_zero]
  simp only [mem_childEdges, decide_eq_true_eq, not_not]

end Step

/-- **A step keeps the worklist right.** The walk yields the top of the stack and puts parents of it
in its place. -/
theorem next (h : Worklist g w done) (hstack : w.stack = id :: stack) :
    ∃ w' released, w.next? g = some (id, w') ∧ w'.stack = released ++ stack ∧
      (∀ p ∈ released, Edge g.nodes p id) ∧ Worklist g w' (id :: done) := by
  have hid : id ∉ done := (h.not_mem_of_top hstack).2
  have hready := (Walk.countDown_snd (h.count_parents_le hid)).1
  have hsorted := nodup_sorted hready
  have hperm : (stack ++ id :: done).Perm (w.stack ++ done) := by
    rw [hstack]
    exact List.perm_middle
  let released := (sorted (countDown w.remaining (g.parents id)).2).eraseReps.reverse
  have hmem : ∀ p, p ∈ released ↔ Edge g.nodes p id ∧ ∀ c, Edge g.nodes p c → c ∈ id :: done := by
    intro p
    rw [List.mem_reverse, Walk.eraseReps_of_nodup hsorted, mem_sorted, h.mem_countDown_snd hid]
  refine ⟨_, released, Walk.next?_eq hstack, rfl, fun p hp => ((hmem p).mp hp).1, ?_⟩
  refine ⟨h.countDown_fst hid, ?_, fun x => ?_, fun x hx hcycle => ?_⟩
  · have hnodup : released.Nodup := by
      rw [List.nodup_reverse, Walk.eraseReps_of_nodup hsorted]
      exact hsorted
    rw [List.append_assoc, List.nodup_append]
    refine ⟨hnodup, hperm.nodup_iff.mpr h.nodup, ?_⟩
    rintro p hp q hq rfl
    -- before the step the parent had a child that was not done, so it was not on the stack
    exact hid (h.child_mem_done (hperm.mem_iff.mp hq) ((hmem p).mp hp).1)
  · rw [List.append_assoc, List.mem_append, hmem, hperm.mem_iff, h.mem_iff]
    constructor
    · rintro (⟨hedge, hdone⟩ | ⟨hx, hdone⟩)
      · exact ⟨parent_mem_ids hedge, hdone⟩
      · exact ⟨hx, fun c hc => List.mem_cons_of_mem _ (hdone c hc)⟩
    · rintro ⟨hx, hdone⟩
      by_cases hedge : Edge g.nodes x id
      · exact Or.inl ⟨hedge, hdone⟩
      · refine Or.inr ⟨hx, fun c hc => ?_⟩
        rcases List.mem_cons.mp (hdone c hc) with rfl | hc'
        · exact absurd hc hedge
        · exact hc'
  · -- a cycle ahead of the node would be ahead of one of its children, which are done
    rcases List.mem_cons.mp hx with rfl | hx
    · obtain ⟨c, hc, hcycle⟩ := hcycle.exists_child
      exact h.sound c (h.child_mem_done (by simp [hstack]) hc) hcycle
    · exact h.sound x hx hcycle

/-- A walk that may take a step for each node ends with nothing on the stack. -/
theorem run (h : Worklist g w done) {steps : Nat} (hsteps : g.nodeCount ≤ steps + done.length) :
    ∃ w', w'.stack = [] ∧ Worklist g w' ((w.run g steps).reverse ++ done) := by
  induction steps generalizing w done with
  | zero =>
    -- all nodes are done, so none is left for the stack
    have hle := h.length_le
    exact ⟨w, List.eq_nil_of_length_eq_zero (by omega), h⟩
  | succ steps ih =>
    cases hstack : w.stack with
    | nil => exact ⟨w, hstack, by rwa [Walk.run_of_stack_nil hstack]⟩
    | cons id stack =>
      obtain ⟨w', released, hnext, -, -, h'⟩ := h.next hstack
      obtain ⟨w'', hstack', h''⟩ := ih h' (by rw [List.length_cons]; omega)
      refine ⟨w'', hstack', ?_⟩
      rw [Walk.run_succ hnext]
      simpa using h''

/-- When nothing is on the stack, the nodes that lead to no cycle are done. -/
theorem mem_done_iff (h : Worklist g w done) (hstack : w.stack = []) :
    id ∈ done ↔ id ∈ g.ids ∧ ¬ g.LeadsToCycle id := by
  have hdone (id : NodeId) : id ∈ done ↔ id ∈ g.ids ∧ ∀ c, Edge g.nodes id c → c ∈ done := by
    simpa only [hstack, List.nil_append] using h.mem_iff id
  constructor
  · exact fun hid => ⟨((hdone id).mp hid).1, h.sound id hid⟩
  · rintro ⟨hid, hcycle⟩
    -- a node that has no cycle ahead is done if its children are, and these come first
    have hacc := acc_of_not_leadsToCycle hcycle
    clear hcycle
    induction hacc with
    | intro id _ ih =>
      exact (hdone id).mpr ⟨hid, fun c hc => ih c hc (child_mem_ids hc)⟩

end Worklist

/-! ## What a walk yields -/

/-- The state in which a walk ends. -/
theorem worklist_walkIds (g : Graph) :
    ∃ w : Walk, w.stack = [] ∧ Worklist g w g.walkIds.reverse := by
  obtain ⟨w, hstack, h⟩ := (Worklist.ofGraph g).run (Nat.le_add_right g.nodeCount _)
  exact ⟨w, hstack, by rwa [List.append_nil] at h⟩

/-- The walk meets no node twice. -/
theorem nodup_walkIds (g : Graph) : g.walkIds.Nodup := by
  obtain ⟨w, hstack, h⟩ := g.worklist_walkIds
  simpa [hstack] using h.nodup

/-- The walk meets the nodes that lead to no cycle, and no others. -/
theorem mem_walkIds : id ∈ g.walkIds ↔ id ∈ g.ids ∧ ¬ g.LeadsToCycle id := by
  obtain ⟨w, hstack, h⟩ := g.worklist_walkIds
  rw [← h.mem_done_iff hstack, List.mem_reverse]

theorem LeadsToCycle.mem_ids (h : g.LeadsToCycle id) : id ∈ g.ids := by
  obtain ⟨c, hc, -⟩ := h.exists_child
  exact parent_mem_ids hc

/-- What the walk does not meet leads to a cycle. -/
theorem leadsToCycle_iff : g.LeadsToCycle id ↔ id ∈ g.ids ∧ id ∉ g.walkIds := by
  rw [mem_walkIds]
  constructor
  · exact fun h => ⟨h.mem_ids, fun hwalk => hwalk.2 h⟩
  · rintro ⟨hid, hwalk⟩
    by_contra hcycle
    exact hwalk ⟨hid, hcycle⟩

/-- Walking tells which nodes lead to a cycle: those that are not met. -/
instance (g : Graph) (id : NodeId) : Decidable (g.LeadsToCycle id) :=
  decidable_of_iff _ leadsToCycle_iff.symm

/-- There is no cycle if and only if the walk meets all nodes. -/
theorem acyclic_iff : g.Acyclic ↔ g.ids ⊆ g.walkIds := by
  constructor
  · exact fun h id hid => mem_walkIds.mpr ⟨hid, h.not_leadsToCycle id⟩
  · intro h id hcycle
    have hlead : g.LeadsToCycle id := ⟨id, ReflTransGen.refl, hcycle⟩
    exact (mem_walkIds.mp (h hlead.mem_ids)).2 hlead

instance (g : Graph) : Decidable g.Acyclic := decidable_of_iff _ acyclic_iff.symm

/-! ## Nodes in place of numbers -/

/-- The nodes with the numbers. -/
def nodesOf (g : Graph) (ids : List NodeId) : List Node := ids.filterMap g.get?

theorem walk_eq (g : Graph) : g.walk = g.nodesOf g.walkIds := rfl

theorem nodesOf_append (g : Graph) (ids ids' : List NodeId) :
    g.nodesOf (ids ++ ids') = g.nodesOf ids ++ g.nodesOf ids' := List.filterMap_append

theorem map_id_nodesOf {ids : List NodeId} (h : ids ⊆ g.ids) :
    (g.nodesOf ids).map Node.id = ids := by
  induction ids with
  | nil => rfl
  | cons id ids ih =>
    obtain ⟨hid, hids⟩ := List.cons_subset.mp h
    obtain ⟨n, hn, rfl⟩ := Graph.mem_ids.mp hid
    have hcons : g.nodesOf (n.id :: ids) = n :: g.nodesOf ids :=
      List.filterMap_cons_some (get?_id hn)
    rw [hcons, List.map_cons, ih hids]

theorem mem_nodesOf {ids : List NodeId} {n : Node} :
    n ∈ g.nodesOf ids ↔ n ∈ g.nodes ∧ n.id ∈ ids := by
  rw [nodesOf, List.mem_filterMap]
  constructor
  · rintro ⟨id, hid, hget⟩
    have hn := List.mem_of_find?_eq_some hget
    obtain rfl : n.id = id := by simpa using List.find?_some hget
    exact ⟨hn, hid⟩
  · rintro ⟨hn, hid⟩
    exact ⟨n.id, hid, get?_id hn⟩

theorem walkIds_subset (g : Graph) : g.walkIds ⊆ g.ids := fun _ hid => (mem_walkIds.mp hid).1

/-- The walk has the nodes of its numbers. -/
theorem map_id_walk (g : Graph) : g.walk.map Node.id = g.walkIds :=
  map_id_nodesOf g.walkIds_subset

/-- The walk yields the nodes that lead to no cycle. -/
theorem mem_walk {n : Node} : n ∈ g.walk ↔ n ∈ g.nodes ∧ ¬ g.LeadsToCycle n.id := by
  rw [walk_eq, mem_nodesOf, mem_walkIds]
  constructor
  · exact fun ⟨hn, _, hcycle⟩ => ⟨hn, hcycle⟩
  · exact fun ⟨hn, hcycle⟩ => ⟨hn, id_mem_ids hn, hcycle⟩

/-- The walk yields nothing twice. -/
theorem nodup_walk (g : Graph) : g.walk.Nodup :=
  List.Nodup.of_map Node.id (g.map_id_walk ▸ g.nodup_walkIds)

theorem nodup_nodes (g : Graph) : g.nodes.Nodup := List.Nodup.of_map Node.id g.distinct

/-- The walk puts the nodes that lead to no cycle in an order. -/
theorem walk_perm (g : Graph) : g.walk.Perm (g.nodes.filter fun n => ¬ g.LeadsToCycle n.id) := by
  refine (List.perm_ext_iff_of_nodup g.nodup_walk (g.nodup_nodes.filter _)).mpr fun n => ?_
  simp [mem_walk, List.mem_filter]

end Graph

end BuildMetrics.Trace
