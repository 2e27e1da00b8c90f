import BuildMetrics.Proofs.Trace.Parts
import BuildMetrics.Proofs.Trace.Region

/-!
# Traces that were cut off

A run may be reported before it is over, or lose what it would have recorded last. What is left
of a nested trace then is a part of its nodes that holds the parents of each of them (`Cut`):
several branches may be half finished at different depths, and the walk begins at several heads.

A scope whose end was recorded was recorded as a whole, so its nodes are still a region of the
graph that is left, and the walk yields it in one piece (`Cut.brackets`). Nothing is waiting when
the walk comes to the start of a scope without an end, so the end of one branch never goes to a
start of another one (`matcher_cut`).
-/

namespace BuildMetrics.Trace

open Relation

/-- Nodes of a nested trace, listed in any order, that hold with each node its parents. -/
structure Cut (t : NestedTrace) (nodes : List Node) : Prop where
  /-- no node is listed twice -/
  nodup : nodes.Nodup
  /-- they are nodes of the trace -/
  subset : nodes ⊆ t.nodes
  /-- what a node follows was recorded before it -/
  closed : ∀ n ∈ nodes, ∀ p ∈ n.parents, p ∈ nodes.map Node.id

namespace NestedTrace

variable (t : NestedTrace)

/-- The start of a scope is a start among the nodes. -/
theorem start_mem {s : Scope} (hs : s ∈ t.scopes) :
    s.start ∈ t.nodes ∧ s.start.kind = .scopeStart := by
  have hmem : s.start ∈ t.nodes.filter Node.isStart :=
    t.map_start_scopes ▸ List.mem_map_of_mem hs
  obtain ⟨hnodes, hkind⟩ := List.mem_filter.mp hmem
  exact ⟨hnodes, Node.isStart_iff.mp hkind⟩

/-- The end of a scope is an end among the nodes. -/
theorem ending_mem {s : Scope} (hs : s ∈ t.scopes) :
    s.ending ∈ t.nodes ∧ s.ending.kind = .scopeEnd := by
  have hmem : s.ending ∈ t.nodes.filter Node.isEnd :=
    t.map_ending_scopes.mem_iff.mp (List.mem_map_of_mem hs)
  obtain ⟨hnodes, hkind⟩ := List.mem_filter.mp hmem
  exact ⟨hnodes, Node.isEnd_iff.mp hkind⟩

theorem nodup_map_start : (t.scopes.map Scope.start).Nodup := by
  rw [t.map_start_scopes]
  exact t.nodup_nodes.filter _

/-- No two scopes of a trace have a node in common. -/
theorem separate : Separate t.scopes where
  start_inj _ hs _ hs' heq := List.inj_on_of_nodup_map t.nodup_map_start hs hs' heq
  ending_inj _ hs _ hs' heq := by
    refine List.inj_on_of_nodup_map ?_ hs hs' heq
    exact t.map_ending_scopes.nodup_iff.mpr (t.nodup_nodes.filter _)
  start_kind _ hs := (t.start_mem hs).2
  ending_kind _ hs := (t.ending_mem hs).2
  faithful _ hs := t.isFaithful_of_mem_scopes hs

end NestedTrace

namespace Cut

variable {t : NestedTrace} {nodes : List Node}

/-- All nodes of a trace, in any order. -/
theorem of_perm (h : nodes.Perm t.nodes) : Cut t nodes where
  nodup := h.nodup_iff.mpr t.nodup_nodes
  subset := h.subset
  closed _ hn _ hp := (h.map Node.id).mem_iff.mpr (t.parents_mem (h.subset hn) hp)

theorem distinct (h : Cut t nodes) : (nodes.map Node.id).Nodup :=
  h.nodup.map_on fun _ hn _ hm heq => eq_of_id_eq t.distinct (h.subset hn) (h.subset hm) heq

/-- The graph of the nodes. -/
def graph (h : Cut t nodes) : Graph := ⟨nodes, h.distinct, h.closed⟩

/-- The nodes of a cut form a graph. -/
theorem ofNodes_eq (h : Cut t nodes) : Graph.ofNodes nodes = .ok h.graph :=
  Graph.ofNodes_eq_ok h.distinct h.closed

/-- The graph of a cut has no cycle. -/
theorem acyclic (h : Cut t nodes) : h.graph.Acyclic := by
  intro id hcycle
  have hle : Edge nodes ≤ Edge t.nodes := fun _ _ hedge => Edge.mono h.subset hedge
  exact t.acyclic id (TransGen.mono hle id id hcycle)

/-- All nodes are met by the walk. -/
theorem mem_walk (h : Cut t nodes) {n : Node} : n ∈ h.graph.walk ↔ n ∈ nodes := by
  rw [Graph.mem_walk]
  exact ⟨And.left, fun hn => ⟨hn, h.acyclic.not_leadsToCycle n.id⟩⟩

/-- What was recorded before a node is not lost. -/
theorem mem_of_reaches (h : Cut t nodes) {a b : NodeId} (hab : ReflTransGen (Edge t.nodes) a b)
    (hb : b ∈ nodes.map Node.id) : a ∈ nodes.map Node.id := by
  induction hab using ReflTransGen.head_induction_on with
  | refl => exact hb
  | head hedge _ ih =>
    obtain ⟨m, hm, hid⟩ := List.mem_map.mp ih
    obtain ⟨n, hn, rfl, hp⟩ := hedge
    obtain rfl := eq_of_id_eq t.distinct (h.subset hm) hn hid
    exact h.closed m hm _ hp

/-- A block whose exit was recorded was recorded as a whole. -/
theorem nodes_subset (h : Cut t nodes) {c : Block} (hc : c.nodes ⊆ t.nodes) {own : List NodeId}
    (hrec : c.Recorded own) (hexit : c.exit ∈ nodes) : c.nodes ⊆ nodes := by
  intro n hn
  have hreach := (Block.reaches_of_recorded hc hrec n hn).2
  obtain ⟨m, hm, hid⟩ := List.mem_map.mp (h.mem_of_reaches hreach (List.mem_map_of_mem hexit))
  rwa [← eq_of_id_eq t.distinct (h.subset hm) (hc hn) hid]

/-- Such a block is a region of the graph. -/
theorem region (h : Cut t nodes) {c : Block} (hc : c.nodes ⊆ t.nodes) {own : List NodeId}
    (hrec : c.Recorded own) (hiso : Isolated t.nodes c) (hexit : c.exit ∈ nodes) :
    h.graph.Region c.entry.id c.exit.id fun id => id ∈ c.nodes.map Node.id := by
  have hsub := h.nodes_subset hc hrec hexit
  have hreach := Block.reaches_of_recorded hsub hrec
  refine ⟨List.mem_map_of_mem c.entry_mem_nodes, List.mem_map_of_mem c.exit_mem_nodes,
    ?_, ?_, ?_, ?_⟩
  · intro id hid
    obtain ⟨n, hn, rfl⟩ := List.mem_map.mp hid
    exact (hreach n hn).1
  · intro id hid
    obtain ⟨n, hn, rfl⟩ := List.mem_map.mp hid
    exact (hreach n hn).2
  · rintro id child hid hne ⟨n, hn, rfl, hp⟩
    exact List.mem_map_of_mem (hiso n (h.subset hn) id hp hid hne)
  · rintro id p hid hne ⟨n, hn, rfl, hp⟩
    obtain ⟨m, hm, heq⟩ := List.mem_map.mp hid
    obtain rfl := eq_of_id_eq t.distinct (hc hm) (h.subset hn) heq
    refine Block.parents_mem hrec hm (fun hentry => hne ?_) hp
    rw [hentry]

/-- The walk meets a block of this kind in one piece: its exit, what lies within, and its entry. -/
theorem walk_block (h : Cut t nodes) {c : Block} (hc : c.nodes ⊆ t.nodes) {own : List NodeId}
    (hrec : c.Recorded own) (hiso : Isolated t.nodes c) (hexit : c.exit ∈ nodes)
    (hne : c.entry ≠ c.exit) : ∃ before inside after,
      h.graph.walk = before ++ (c.exit :: (inside ++ [c.entry])) ++ after ∧
      ∀ n, n ∈ c.exit :: (inside ++ [c.entry]) ↔ n ∈ c.nodes := by
  have hsub := h.nodes_subset hc hrec hexit
  obtain ⟨before, region, after, heq, hregion, hhead, hlast⟩ :=
    Graph.walk_region (h.region hc hrec hiso hexit) (h.acyclic.not_leadsToCycle _)
      (hsub c.entry_mem_nodes) hexit
  have hnodes : ∀ n, n ∈ region ↔ n ∈ c.nodes := by
    intro n
    rw [hregion]
    constructor
    · rintro ⟨hn, hid⟩
      obtain ⟨m, hm, hid⟩ := List.mem_map.mp hid
      rwa [← eq_of_id_eq t.distinct (hc hm) (h.subset hn) hid]
    · exact fun hn => ⟨hsub hn, List.mem_map_of_mem hn⟩
  -- the exit and the entry are different nodes, so the region has room between them
  obtain ⟨inside, rfl⟩ : ∃ inside, region = c.exit :: (inside ++ [c.entry]) := by
    cases region with
    | nil => cases hhead
    | cons x region =>
      obtain rfl := Option.some.inj hhead
      rcases List.eq_nil_or_concat region with rfl | ⟨inside, y, rfl⟩
      · exact absurd (Option.some.inj hlast).symm hne
      · rw [List.concat_eq_append, ← List.cons_append, List.getLast?_concat] at hlast
        exact ⟨inside, by rw [List.concat_eq_append, Option.some.inj hlast]⟩
  exact ⟨before, inside, after, heq, hnodes⟩

/-- The walk yields the scopes whose ends were recorded like brackets. -/
theorem brackets (h : Cut t nodes) : Brackets t.scopes h.graph.walk where
  toSeparate := t.separate
  nodup := h.graph.nodup_walk
  exists_start n hn hkind := by
    have hmem : n ∈ t.nodes.filter Node.isStart :=
      List.mem_filter.mpr ⟨h.subset (h.mem_walk.mp hn), Node.isStart_iff.mpr hkind⟩
    rw [← t.map_start_scopes] at hmem
    exact List.mem_map.mp hmem
  exists_ending n hn hkind := by
    have hmem : n ∈ t.nodes.filter Node.isEnd :=
      List.mem_filter.mpr ⟨h.subset (h.mem_walk.mp hn), Node.isEnd_iff.mpr hkind⟩
    exact List.mem_map.mp (t.map_ending_scopes.mem_iff.mpr hmem)
  nest s hs hend := by
    obtain ⟨c, hentry, hexit, hc, ⟨own, hrec⟩, hiso, hclosed⟩ := t.exists_block hs
    have hmem : c.exit ∈ nodes := hexit ▸ h.mem_walk.mp hend
    have hne : c.entry ≠ c.exit := by
      rw [hentry, hexit]
      exact t.separate.start_ne_ending hs hs
    obtain ⟨before, inside, after, heq, hnodes⟩ := h.walk_block hc hrec hiso hmem hne
    rw [hentry, hexit] at heq hnodes
    refine ⟨before, inside, after, by simpa using heq, ?_⟩
    have hnodup : (s.ending :: (inside ++ [s.start])).Nodup := by
      have hwalk := h.graph.nodup_walk
      rw [heq] at hwalk
      exact hwalk.of_append_left.of_append_right
    have hperm : (s.ending :: (inside ++ [s.start])).Perm (s.ending :: s.start :: ([] ++ inside)) :=
      (List.perm_append_singleton s.start inside).cons s.ending
    -- the whole block holds scopes as a whole; without its own scope it still does
    have hall : Closed t.scopes (s.ending :: (inside ++ [s.start])) := by
      intro s' hs'
      rw [hnodes, hnodes]
      exact hclosed s' hs'
    have hnil : Closed t.scopes [] := fun _ _ => by simp
    exact t.separate.closed_rest hs hperm hnodup hall hnil

/-- Where every scope of the trace has its end, the matcher finds each of them once. -/
theorem all_perm (h : Cut t nodes) (hall : t.nodes ⊆ nodes) :
    ∃ found : List Scope, Matcher.all [] h.graph.walk = (found.map .ok, []) ∧
      found.Perm t.scopes := by
  obtain ⟨found, heq, hfound, hstarts⟩ :=
    h.brackets.all_eq fun s hs _ => h.mem_walk.mpr (hall (t.ending_mem hs).1)
  have hnodup : found.Nodup := by
    have hmap : (found.map Scope.start).Nodup := hstarts ▸ h.graph.nodup_walk.filter _
    exact hmap.of_map Scope.start
  refine ⟨found, heq, (List.perm_ext_iff_of_nodup hnodup ?_).mpr fun s => ⟨hfound s, fun hs => ?_⟩⟩
  · exact t.nodup_map_start.of_map Scope.start
  · obtain ⟨hmem, hkind⟩ := t.start_mem hs
    have hstart : s.start ∈ found.map Scope.start := by
      rw [hstarts]
      exact List.mem_filter.mpr ⟨h.mem_walk.mpr (hall hmem), Node.isStart_iff.mpr hkind⟩
    obtain ⟨x, hx, hxs⟩ := List.mem_map.mp hstart
    rwa [← t.separate.start_inj x (hfound x hx) s hs hxs]

end Cut

/-- **A trace that was cut off is never paired wrongly.** Whatever part of a nested trace was
recorded, its nodes form a graph, and what the matcher finds on the walk are scopes of the trace.
It reports an error when a scope has no end, and then it names such a scope; and if it reports
none, it has found a scope for each start and has no end left. -/
theorem matcher_cut {t : NestedTrace} {nodes : List Node} (h : Cut t nodes) :
    ∃ g, Graph.ofNodes nodes = .ok g ∧
      (∀ s, .ok s ∈ (Matcher.all [] g.walk).1 → s ∈ t.scopes) ∧
      ((∃ id, .error (.unmatchedScopeStart id) ∈ (Matcher.all [] g.walk).1) ↔
        ∃ s ∈ t.scopes, s.start ∈ nodes ∧ s.ending ∉ nodes) ∧
      (∀ err, .error err ∈ (Matcher.all [] g.walk).1 →
        ∃ s ∈ t.scopes, s.start ∈ nodes ∧ s.ending ∉ nodes ∧
          err = .unmatchedScopeStart s.start.id) ∧
      ((∀ err, .error err ∉ (Matcher.all [] g.walk).1) →
        (∀ n ∈ nodes, n.kind = .scopeStart →
          ∃ s, .ok s ∈ (Matcher.all [] g.walk).1 ∧ s.start = n) ∧
        (Matcher.all [] g.walk).2 = []) := by
  refine ⟨h.graph, h.ofNodes_eq, ?_⟩
  by_cases hopen : ∃ s ∈ t.scopes, s.start ∈ nodes ∧ s.ending ∉ nodes
  · -- the matcher stops at the start of an open scope, which is its only error
    have hopen' : ∃ s ∈ t.scopes, s.start ∈ h.graph.walk ∧ s.ending ∉ h.graph.walk := by
      simpa only [h.mem_walk] using hopen
    obtain ⟨found, s, hs, hstart, hending, hall, hfound⟩ := h.brackets.all_unclosed hopen'
    rw [h.mem_walk] at hstart hending
    have herror : .error (.unmatchedScopeStart s.start.id) ∈ (Matcher.all [] h.graph.walk).1 := by
      simp [hall]
    refine ⟨fun x hx => ?_, ⟨fun _ => hopen, fun _ => ⟨_, herror⟩⟩, fun err herr => ?_,
      fun hnone => absurd herror (hnone _)⟩
    · exact hfound x (by simpa [hall] using hx)
    · exact ⟨s, hs, hstart, hending, by simpa [hall] using herr⟩
  · -- every start has its end, so all of them are matched
    have hended : ∀ s ∈ t.scopes, s.start ∈ h.graph.walk → s.ending ∈ h.graph.walk := by
      intro s hs hstart
      rw [h.mem_walk] at hstart ⊢
      by_contra hending
      exact hopen ⟨s, hs, hstart, hending⟩
    obtain ⟨found, hall, hfound, hstarts⟩ := h.brackets.all_eq hended
    have hnone : ∀ err, .error err ∉ (Matcher.all [] h.graph.walk).1 := by simp [hall]
    refine ⟨fun x hx => hfound x (by simpa [hall] using hx), ⟨?_, fun hex => absurd hex hopen⟩,
      fun err herr => absurd herr (hnone err), fun _ => ⟨fun n hn hkind => ?_, by rw [hall]⟩⟩
    · rintro ⟨id, herr⟩
      exact absurd herr (hnone _)
    · have hmem : n ∈ h.graph.walk.filter Node.isStart :=
        List.mem_filter.mpr ⟨h.mem_walk.mpr hn, Node.isStart_iff.mpr hkind⟩
      rw [← hstarts] at hmem
      obtain ⟨s, hs, rfl⟩ := List.mem_map.mp hmem
      exact ⟨s, by simpa [hall] using hs, rfl⟩

/-- A run with two branches, the second one around a step. -/
def branchedTrace : NestedTrace where
  blocks :=
    [.group .inSequence (bareNode .scopeStart 1 [])
      [.group .sideBySide (bareNode .scopeStart 2 [1])
        [.group .inSequence (bareNode .scopeStart 3 [2]) [] (bareNode .scopeEnd 4 [3]),
          .group .inSequence (bareNode .scopeStart 5 [2]) [.step (bareNode .other 6 [5])]
            (bareNode .scopeEnd 7 [6])]
        (bareNode .scopeEnd 8 [7, 4])]
      (bareNode .scopeEnd 9 [8])]
  recorded := by
    simp [Arranged, Block.Recorded, Node.IsAt, Arrangement.exits, lastExit, Block.exit, bareNode,
      or_comm]
  distinct := by decide

/-- What is left of it when the second branch has not ended. -/
def halfBranched : List Node :=
  [bareNode .other 6 [5], bareNode .scopeStart 5 [2], bareNode .scopeEnd 4 [3],
    bareNode .scopeStart 3 [2], bareNode .scopeStart 2 [1], bareNode .scopeStart 1 []]

/-- A trace that breaks off while one of two branches is open. -/
theorem matcher_cut_branched :
    Cut branchedTrace halfBranched ∧ ∃ g, Graph.ofNodes halfBranched = .ok g ∧
      (∀ s, .ok s ∈ (Matcher.all [] g.walk).1 → s ∈ branchedTrace.scopes) ∧
      (∃ id, .error (.unmatchedScopeStart id) ∈ (Matcher.all [] g.walk).1) := by
  have hcut : Cut branchedTrace halfBranched :=
    ⟨by decide, by decide, by simp [halfBranched, bareNode]⟩
  obtain ⟨g, hg, hfound, herror, -, -⟩ := matcher_cut hcut
  refine ⟨hcut, g, hg, hfound, herror.mpr ?_⟩
  exact ⟨.between (bareNode .scopeStart 5 [2]) (bareNode .scopeEnd 7 [6]), by decide, by decide,
    by decide⟩

end BuildMetrics.Trace
