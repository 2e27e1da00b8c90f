import BuildMetrics.Proofs.Trace.Worklist

/-!
# Regions of a trace

A part of a trace that is entered at one node only and left at one node only is a region: a scope,
a branch, a whole parallel step. The walk yields a region in one piece, its last node first and its
first node last (`Graph.walk_region`). The reason is the stack: once the last node of a region is
its top, whatever a step puts on it is of the region again, and everything below it waits until
the first node of the region is done (`Graph.run_region`). That no scope is ever mixed with
another one (`Graph.walk_between`) is what this comes to for the nodes between two others.
-/

namespace BuildMetrics.Trace.Graph

open Relation

variable {g : Graph} {s e id : NodeId} {R : NodeId → Prop} {steps : Nat} {w : Walk}
  {done : List NodeId}

/-- The numbers in `R` are on the way from `s` to `e`, and edges lead into `R` at `s` only and out
of it at `e` only. -/
structure Region (g : Graph) (s e : NodeId) (R : NodeId → Prop) : Prop where
  /-- the region begins with `s` -/
  first_mem : R s
  /-- the region ends with `e` -/
  last_mem : R e
  /-- all of it comes after `s` -/
  reached : ∀ id, R id → g.Reaches s id
  /-- all of it comes before `e` -/
  reaches : ∀ id, R id → g.Reaches id e
  /-- one leaves it at `e` only -/
  children : ∀ id c, R id → id ≠ e → Edge g.nodes id c → R c
  /-- one enters it at `s` only -/
  parents : ∀ id p, R id → id ≠ s → Edge g.nodes p id → R p

namespace Region

theorem mem_ids (hR : g.Region s e R) (he : e ∈ g.ids) (hid : R id) : id ∈ g.ids := by
  rcases ReflTransGen.cases_head (hR.reaches id hid) with rfl | ⟨c, hc, -⟩
  · exact he
  · exact parent_mem_ids hc

theorem not_leadsToCycle (hR : g.Region s e R) (hs : ¬ g.LeadsToCycle s) (hid : R id) :
    ¬ g.LeadsToCycle id := by
  rintro ⟨c, hc, hcycle⟩
  exact hs ⟨c, (hR.reached id hid).trans hc, hcycle⟩

/-- When nothing of the region is left on the stack, all of it is done. -/
theorem mem_done (hR : g.Region s e R) (hs : ¬ g.LeadsToCycle s) (h : Worklist g w done)
    (he : e ∈ w.stack ++ done) (hout : ∀ id ∈ w.stack, ¬ R id) (hid : R id) : id ∈ done := by
  have hacc := acc_of_not_leadsToCycle (hR.not_leadsToCycle hs hid)
  -- towards the children, which are done before
  induction hacc with
  | intro id _ ih =>
    have hmem : id ∈ w.stack ++ done := by
      by_cases hlast : id = e
      · rwa [hlast]
      · refine (h.mem_iff id).mpr ⟨hR.mem_ids (h.mem_ids he) hid, fun c hc => ?_⟩
        exact ih c hc (hR.children id c hid hlast hc)
    rcases List.mem_append.mp hmem with hstack | hdone
    · exact absurd hid (hout id hstack)
    · exact hdone

end Region

/-- Once the last node of a region has been met, the rest of the region is yielded next, down to
its first node, before anything that lies below it on the stack. -/
theorem run_region (hR : g.Region s e R) (hs : ¬ g.LeadsToCycle s) {inside rest : List NodeId}
    (h : Worklist g w done) (hstack : w.stack = inside ++ rest)
    (hsteps : g.nodeCount ≤ steps + done.length) (he : e ∈ w.stack ++ done)
    (hin : ∀ id ∈ inside, R id) (hout : ∀ id ∈ rest, ¬ R id) (hopen : s ∉ done) :
    ∃ region after, w.run g steps = region ++ after ∧
      (∀ id, id ∈ region ↔ R id ∧ id ∉ done) ∧ region.getLast? = some s := by
  induction steps generalizing w inside done with
  | zero =>
    -- all nodes are done, the first one of the region too
    have hle := h.length_le
    rw [hstack, List.length_append] at hle
    obtain rfl : inside = [] := List.eq_nil_of_length_eq_zero (by omega)
    exact absurd (hR.mem_done hs h he (by rwa [hstack]) hR.first_mem) hopen
  | succ steps ih =>
    cases inside with
    | nil => exact absurd (hR.mem_done hs h he (by rwa [hstack]) hR.first_mem) hopen
    | cons t inside =>
      rw [List.cons_append] at hstack
      obtain ⟨-, ht⟩ := h.not_mem_of_top hstack
      have hR' : R t := hin t List.mem_cons_self
      obtain ⟨w', released, hnext, hstack', hreleased, h'⟩ := h.next hstack
      have hrun : w.run g (steps + 1) = t :: w'.run g steps := Walk.run_succ hnext steps
      by_cases hfirst : t = s
      · -- the first node of the region: everything behind it is done already
        subst hfirst
        refine ⟨[t], _, hrun, fun id => ?_, rfl⟩
        rw [List.mem_singleton]
        constructor
        · rintro rfl
          exact ⟨hR', ht⟩
        · rintro ⟨hid, hdone⟩
          have hreach := h.eq_or_mem_done_of_reaches (by simp [hstack]) (hR.reached id hid)
          exact hreach.resolve_right hdone
      · -- any other node of the region: what it makes ready is of the region again
        have hstack'' : w'.stack = (released ++ inside) ++ rest := by
          rw [hstack', List.append_assoc]
        have he' : e ∈ w'.stack ++ t :: done := by
          rw [hstack] at he
          simp only [hstack', List.mem_append, List.mem_cons] at he ⊢
          tauto
        have hin' : ∀ id ∈ released ++ inside, R id := by
          intro id hid
          rcases List.mem_append.mp hid with hid | hid
          · exact hR.parents t id hR' hfirst (hreleased id hid)
          · exact hin id (List.mem_cons_of_mem _ hid)
        have hopen' : s ∉ t :: done := by
          rw [List.mem_cons, not_or]
          exact ⟨fun hst => hfirst hst.symm, hopen⟩
        obtain ⟨region, after, hwalk, hmem, hlast⟩ :=
          ih h' hstack'' (by rw [List.length_cons]; omega) he' hin' hopen'
        refine ⟨t :: region, after, ?_, fun id => ?_, ?_⟩
        · rw [hrun, hwalk, List.cons_append]
        · rw [List.mem_cons, hmem, List.mem_cons, not_or]
          constructor
          · rintro (rfl | ⟨hid, -, hdone⟩)
            · exact ⟨hR', ht⟩
            · exact ⟨hid, hdone⟩
          · rintro ⟨hid, hdone⟩
            by_cases hidt : id = t
            · exact Or.inl hidt
            · exact Or.inr ⟨hid, hidt, hdone⟩
        · rw [List.getLast?_cons, hlast]
          rfl

/-- A node that is yielded was on top of the stack at some point. -/
theorem run_arrives (h : Worklist g w done) (hid : id ∈ w.run g steps) :
    ∃ before w' stack' done' steps', w.run g steps = before ++ w'.run g steps' ∧
      w'.stack = id :: stack' ∧ Worklist g w' done' ∧
      steps + done.length = steps' + done'.length := by
  induction steps generalizing w done with
  | zero => exact absurd hid List.not_mem_nil
  | succ steps ih =>
    cases hstack : w.stack with
    | nil =>
      rw [Walk.run_of_stack_nil hstack] at hid
      exact absurd hid List.not_mem_nil
    | cons top stack =>
      by_cases htop : top = id
      · subst htop
        exact ⟨[], w, stack, done, steps + 1, rfl, hstack, h, rfl⟩
      · obtain ⟨w', -, hnext, -, -, h'⟩ := h.next hstack
        have hrun : w.run g (steps + 1) = top :: w'.run g steps := Walk.run_succ hnext steps
        rw [hrun, List.mem_cons] at hid
        have hlater := hid.resolve_left fun heq => htop heq.symm
        obtain ⟨before, w'', stack', done', steps', hwalk, htop', h'', hlen⟩ := ih h' hlater
        refine ⟨top :: before, w'', stack', done', steps', ?_, htop', h'', ?_⟩
        · rw [hrun, hwalk, List.cons_append]
        · rw [List.length_cons] at hlen
          omega

/-- **Regions are walked in one piece.** The last node of the region is yielded first and its
first node last. -/
theorem walkIds_region (hR : g.Region s e R) (hs : ¬ g.LeadsToCycle s) (he : e ∈ g.ids) :
    ∃ before region after, g.walkIds = before ++ region ++ after ∧ (∀ id, id ∈ region ↔ R id) ∧
      region.head? = some e ∧ region.getLast? = some s := by
  have hwalk : e ∈ g.walkIds := mem_walkIds.mpr ⟨he, hR.not_leadsToCycle hs hR.last_mem⟩
  obtain ⟨before, w, stack, done, steps, heq, hstack, h, hlen⟩ :=
    run_arrives (Worklist.ofGraph g) hwalk
  obtain ⟨hnot, hdone⟩ := h.not_mem_of_top hstack
  -- when `e` is met, nothing of the region is done, and nothing else of it is on the stack
  have hopen : ∀ id, R id → id ∉ done := by
    intro id hid hmem
    rcases h.eq_or_mem_done_of_reaches (List.mem_append_right _ hmem) (hR.reaches id hid) with
      rfl | hlast
    · exact hdone hmem
    · exact hdone hlast
  have hout : ∀ id ∈ stack, ¬ R id := by
    intro id hmem hid
    have hmem' : id ∈ w.stack ++ done := by simp [hstack, hmem]
    rcases h.eq_or_mem_done_of_reaches hmem' (hR.reaches id hid) with rfl | hlast
    · exact hnot hmem
    · exact hdone hlast
  have hin : ∀ id ∈ [e], R id := by
    intro id hid
    obtain rfl := List.mem_singleton.mp hid
    exact hR.last_mem
  have hsteps : g.nodeCount ≤ steps + done.length := by
    rw [← hlen]
    exact Nat.le_add_right _ _
  have htop : w.stack = [e] ++ stack := hstack
  obtain ⟨region, after, hrun, hmem, hlast⟩ :=
    run_region hR hs h htop hsteps (by simp [hstack]) hin hout (hopen s hR.first_mem)
  refine ⟨before, region, after, ?_, fun id => ?_, ?_, hlast⟩
  · rw [walkIds, heq, List.append_assoc, ← hrun]
  · rw [hmem]
    exact ⟨And.left, fun hid => ⟨hid, hopen id hid⟩⟩
  · cases steps with
    | zero =>
      have hle := h.length_le
      rw [hstack, List.length_cons] at hle
      omega
    | succ steps =>
      rw [Walk.run, Walk.next?_eq hstack] at hrun
      cases region with
      | nil => cases hlast
      | cons x region =>
        rw [List.cons_append, List.cons.injEq] at hrun
        rw [List.head?_cons, hrun.1]

/-- The same for the nodes of the walk. -/
theorem walk_region {first last : Node} (hR : g.Region first.id last.id R)
    (hs : ¬ g.LeadsToCycle first.id) (hfirst : first ∈ g.nodes) (hlast : last ∈ g.nodes) :
    ∃ before region after, g.walk = before ++ region ++ after ∧
      (∀ n, n ∈ region ↔ n ∈ g.nodes ∧ R n.id) ∧
      region.head? = some last ∧ region.getLast? = some first := by
  obtain ⟨before, region, after, heq, hmem, hhead, hend⟩ :=
    walkIds_region hR hs (id_mem_ids hlast)
  have hsub : region ⊆ g.ids := fun id hid => hR.mem_ids (id_mem_ids hlast) ((hmem id).mp hid)
  have hids : (g.nodesOf region).map Node.id = region := map_id_nodesOf hsub
  refine ⟨g.nodesOf before, g.nodesOf region, g.nodesOf after, ?_, fun n => ?_, ?_, ?_⟩
  · rw [walk_eq, heq, nodesOf_append, nodesOf_append]
  · rw [mem_nodesOf, hmem]
  · rw [← hids, List.head?_map, Option.map_eq_some_iff] at hhead
    obtain ⟨n, hn, hid⟩ := hhead
    have hmem' : n ∈ g.nodes := (mem_nodesOf.mp (List.mem_of_head? hn)).1
    rw [hn, eq_of_id_eq g.distinct hmem' hlast hid]
  · rw [← hids, List.getLast?_map, Option.map_eq_some_iff] at hend
    obtain ⟨n, hn, hid⟩ := hend
    have hmem' : n ∈ g.nodes := (mem_nodesOf.mp (List.mem_of_getLast? hn)).1
    rw [hn, eq_of_id_eq g.distinct hmem' hfirst hid]

/-! ## The nodes between two others -/

/-- The node is on a way from `s` to `e`, both included. -/
def Between (g : Graph) (s e id : NodeId) : Prop := g.Reaches s id ∧ g.Reaches id e

/-- The nodes between two others are a region if no edge leads from them to nodes elsewhere, but
at the last one, and none from elsewhere to them, but at the first one. -/
theorem region_between (hse : g.Reaches s e)
    (hchildren : ∀ id c, g.Between s e id → id ≠ e → Edge g.nodes id c → g.Between s e c)
    (hparents : ∀ id p, g.Between s e id → id ≠ s → Edge g.nodes p id → g.Between s e p) :
    g.Region s e (g.Between s e) where
  first_mem := ⟨ReflTransGen.refl, hse⟩
  last_mem := ⟨hse, ReflTransGen.refl⟩
  reached _ hid := hid.1
  reaches _ hid := hid.2
  children := hchildren
  parents := hparents

/-- **Scopes do not interleave.** In a trace without cycles, let no edge lead out of the nodes
between `first` and `last` but from `last`, and none into them but to `first`. Then the walk
yields these nodes one after the other, beginning with `last` and ending with `first`. -/
theorem walk_between {nodes : List Node} (hg : ofNodes nodes = .ok g) (hacyclic : g.Acyclic)
    {first last : Node} (hfirst : first ∈ nodes) (hlast : last ∈ nodes)
    (hreach : g.Reaches first.id last.id)
    (hchildren : ∀ id c, g.Between first.id last.id id → id ≠ last.id → Edge nodes id c →
      g.Between first.id last.id c)
    (hparents : ∀ id p, g.Between first.id last.id id → id ≠ first.id → Edge nodes p id →
      g.Between first.id last.id p) :
    ∃ before region after, g.walk = before ++ region ++ after ∧ region.Nodup ∧
      (∀ n, n ∈ region ↔ n ∈ nodes ∧ g.Between first.id last.id n.id) ∧
      region.head? = some last ∧ region.getLast? = some first := by
  obtain rfl := nodes_of_ofNodes hg
  have hR := region_between hreach hchildren hparents
  obtain ⟨before, region, after, heq, hmem, hends⟩ :=
    walk_region hR (hacyclic.not_leadsToCycle first.id) hfirst hlast
  have hnodup : (before ++ region ++ after).Nodup := heq ▸ g.nodup_walk
  exact ⟨before, region, after, heq, hnodup.of_append_left.of_append_right, hmem, hends⟩

/-- A fork at 1 with the branches 2 and 3 that join at 4, in the middle of a trace. -/
def forkedNodes : List Node :=
  [bareNode .other 5 [4], bareNode .other 4 [2, 3], bareNode .other 3 [1], bareNode .other 2 [1],
    bareNode .other 1 [0], bareNode .other 0 []]

/-- The graph of these nodes. -/
def forkedGraph : Graph := ⟨forkedNodes, by decide, by simp [forkedNodes, bareNode]⟩

/-- Its edges, each from a parent to a child. -/
theorem forkedNodes_edge {p c : NodeId} (h : Edge forkedNodes p c) :
    (p, c) ∈ [((0 : NodeId), (1 : NodeId)), (1, 2), (1, 3), (2, 4), (3, 4), (4, 5)] := by
  obtain ⟨n, hn, rfl, hp⟩ := h
  simp only [forkedNodes, bareNode, List.mem_cons, List.not_mem_nil, or_false] at hn
  rcases hn with rfl | rfl | rfl | rfl | rfl | rfl <;> simp_all

/-- They lead to greater numbers. -/
theorem forkedNodes_lt (p c : NodeId) (h : Edge forkedNodes p c) : p < c := by
  have hmem := forkedNodes_edge h
  simp only [List.mem_cons, Prod.mk.injEq, List.not_mem_nil, or_false] at hmem
  rcases hmem with ⟨rfl, rfl⟩ | ⟨rfl, rfl⟩ | ⟨rfl, rfl⟩ | ⟨rfl, rfl⟩ | ⟨rfl, rfl⟩ | ⟨rfl, rfl⟩ <;>
    decide

/-- Between the fork and the join lie both branches, and the walk does not leave them. -/
theorem walk_between_forked :
    ofNodes forkedNodes = .ok forkedGraph ∧ forkedGraph.Acyclic ∧ forkedGraph.Reaches 1 4 ∧
      ∃ before region after, forkedGraph.walk = before ++ region ++ after ∧ region.Nodup ∧
        (∀ n, n ∈ region ↔ n ∈ forkedNodes ∧ forkedGraph.Between 1 4 n.id) ∧
        region.head? = some (bareNode .other 4 [2, 3]) ∧
        region.getLast? = some (bareNode .other 1 [0]) := by
  have hok : ofNodes forkedNodes = .ok forkedGraph :=
    ofNodes_eq_ok forkedGraph.distinct forkedGraph.closed
  have hacyclic : forkedGraph.Acyclic := acyclic_of_lt forkedNodes_lt
  have h12 : forkedGraph.Reaches 1 2 := ReflTransGen.single (by decide : Edge forkedNodes 1 2)
  have h13 : forkedGraph.Reaches 1 3 := ReflTransGen.single (by decide : Edge forkedNodes 1 3)
  have h24 : forkedGraph.Reaches 2 4 := ReflTransGen.single (by decide : Edge forkedNodes 2 4)
  have h34 : forkedGraph.Reaches 3 4 := ReflTransGen.single (by decide : Edge forkedNodes 3 4)
  have h14 : forkedGraph.Reaches 1 4 := h12.trans h24
  have hfirst : bareNode .other 1 [0] ∈ forkedNodes := by decide
  have hlast : bareNode .other 4 [2, 3] ∈ forkedNodes := by decide
  refine ⟨hok, hacyclic, h14, walk_between hok hacyclic hfirst hlast h14 ?_ ?_⟩
  · intro id c hid hne hedge
    have hmem := forkedNodes_edge hedge
    simp only [List.mem_cons, Prod.mk.injEq, List.not_mem_nil, or_false] at hmem
    rcases hmem with ⟨rfl, rfl⟩ | ⟨rfl, rfl⟩ | ⟨rfl, rfl⟩ | ⟨rfl, rfl⟩ | ⟨rfl, rfl⟩ | ⟨rfl, rfl⟩
    · exact absurd (le_of_reaches forkedNodes_lt hid.1) (by decide)
    · exact ⟨h12, h24⟩
    · exact ⟨h13, h34⟩
    · exact ⟨h14, ReflTransGen.refl⟩
    · exact ⟨h14, ReflTransGen.refl⟩
    · exact absurd rfl hne
  · intro id p hid hne hedge
    have hmem := forkedNodes_edge hedge
    simp only [List.mem_cons, Prod.mk.injEq, List.not_mem_nil, or_false] at hmem
    rcases hmem with ⟨rfl, rfl⟩ | ⟨rfl, rfl⟩ | ⟨rfl, rfl⟩ | ⟨rfl, rfl⟩ | ⟨rfl, rfl⟩ | ⟨rfl, rfl⟩
    · exact absurd rfl hne
    · exact ⟨ReflTransGen.refl, h14⟩
    · exact ⟨ReflTransGen.refl, h14⟩
    · exact ⟨h12, h24⟩
    · exact ⟨h13, h34⟩
    · exact absurd (le_of_reaches forkedNodes_lt hid.2) (by decide)

end BuildMetrics.Trace.Graph
