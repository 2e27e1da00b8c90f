import BuildMetrics.Proofs.Trace.Nested

/-!
# Parts of a nested trace

Each scope of a nested trace is a block somewhere within it. Such a block is cut off from the rest
of the trace but for its entry and its exit (`Block.isolated_of_isPart`), it holds the other scopes
as a whole or not at all (`Block.start_mem_iff`), and each start and each end among the nodes
belongs to exactly one scope (`NestedTrace.map_start_scopes`, `NestedTrace.map_ending_scopes`). All
this is put together in `NestedTrace.exists_block`.
-/

namespace BuildMetrics.Trace

open Relation

/-! ## Starts and ends -/

/-- The scopes of a block are those of its starts, in order. -/
theorem Block.map_start_scopes {b : Block} {before : List NodeId} (h : b.Recorded before) :
    b.scopes.map Scope.start = b.nodes.filter Node.isStart := by
  induction b generalizing before with
  | step n =>
    have hn : n.kind = .other := h.1
    simp [scopes, nodes, hn]
  | group a s inner e ih =>
    obtain ⟨⟨hs, -⟩, hinner, he, -⟩ := h
    have hblocks : (inner.flatMap fun d => d.scopes.map Scope.start) =
        inner.flatMap fun d => d.nodes.filter Node.isStart := by
      refine List.flatMap_congr fun d hd => ?_
      obtain ⟨own, hrec, -⟩ := hinner.recorded hd
      exact ih d hd hrec
    simpa [scopes, nodes, hs, he, blockScopes_eq, blockNodes_eq, List.map_flatMap,
      List.filter_flatMap] using hblocks

/-- Each end of a block closes one of its scopes. -/
theorem Block.map_ending_scopes {b : Block} {before : List NodeId} (h : b.Recorded before) :
    (b.scopes.map Scope.ending).Perm (b.nodes.filter Node.isEnd) := by
  induction b generalizing before with
  | step n =>
    have hn : n.kind = .other := h.1
    simp [scopes, nodes, hn]
  | group a s inner e ih =>
    obtain ⟨⟨hs, -⟩, hinner, he, -⟩ := h
    have hblocks : (inner.flatMap fun d => d.scopes.map Scope.ending).Perm
        (inner.flatMap fun d => d.nodes.filter Node.isEnd) := by
      refine List.Perm.flatMap_left _ fun d hd => ?_
      obtain ⟨own, hrec, -⟩ := hinner.recorded hd
      exact ih d hd hrec
    -- a scope is listed before the scopes within it, its end comes behind their ends
    have hends := (hblocks.cons e).trans (List.perm_append_singleton e _).symm
    simpa [scopes, nodes, hs, he, blockScopes_eq, blockNodes_eq, List.map_flatMap,
      List.filter_flatMap] using hends

/-- The nodes of a scope of a block are nodes of the block. -/
theorem Block.mem_nodes_of_mem_scopes {b : Block} {s : Scope} (h : s ∈ b.scopes) :
    s.start ∈ b.nodes ∧ s.ending ∈ b.nodes := by
  induction b with
  | step n => exact absurd h List.not_mem_nil
  | group a s₀ inner e₀ ih =>
    rw [scopes, blockScopes_eq] at h
    rcases List.mem_cons.mp h with rfl | h
    · exact ⟨mem_nodes_group.mpr (Or.inl rfl), mem_nodes_group.mpr (Or.inr (Or.inr rfl))⟩
    · obtain ⟨d, hd, hs⟩ := List.mem_flatMap.mp h
      obtain ⟨hstart, hending⟩ := ih d hd hs
      exact ⟨mem_nodes_group.mpr (Or.inr (Or.inl ⟨d, hd, hstart⟩)),
        mem_nodes_group.mpr (Or.inr (Or.inl ⟨d, hd, hending⟩))⟩

theorem Block.isFaithful_of_mem_scopes {b : Block} {s : Scope} (h : s ∈ b.scopes) :
    s.IsFaithful := by
  induction b with
  | step n => exact absurd h List.not_mem_nil
  | group a s₀ inner e₀ ih =>
    rw [scopes, blockScopes_eq] at h
    rcases List.mem_cons.mp h with rfl | h
    · exact Scope.isFaithful_between s₀ e₀
    · obtain ⟨d, hd, hs⟩ := List.mem_flatMap.mp h
      exact ih d hd hs

/-! ## Parts of a block -/

/-- The block is the other one or lies within it. -/
inductive Block.IsPart (c : Block) : Block → Prop where
  /-- the block itself -/
  | refl : IsPart c c
  /-- a part of a block within a group -/
  | inner {a : Arrangement} {s e : Node} {inner : List Block} {d : Block} (hd : d ∈ inner)
      (h : IsPart c d) : IsPart c (.group a s inner e)

/-- Nodes that follow a node of the block belong to the block, but for those that follow its
exit. -/
def Isolated (all : List Node) (b : Block) : Prop :=
  ∀ n ∈ all, ∀ p ∈ n.parents, p ∈ b.nodes.map Node.id → p ≠ b.exit.id → n ∈ b.nodes

namespace Block.IsPart

variable {b c : Block}

theorem nodes_subset (h : IsPart c b) : c.nodes ⊆ b.nodes := by
  induction h with
  | refl => exact fun _ hn => hn
  | inner hd _ ih => exact fun n hn => mem_nodes_group.mpr (Or.inr (Or.inl ⟨_, hd, ih hn⟩))

/-- Every scope of a block is a part of it. -/
theorem of_mem_scopes {s : Scope} (h : s ∈ b.scopes) :
    ∃ a inner, IsPart (.group a s.start inner s.ending) b := by
  induction b with
  | step n => exact absurd h List.not_mem_nil
  | group a s₀ inner e₀ ih =>
    rw [scopes, blockScopes_eq] at h
    rcases List.mem_cons.mp h with rfl | h
    · exact ⟨a, inner, .refl⟩
    · obtain ⟨d, hd, hs⟩ := List.mem_flatMap.mp h
      obtain ⟨a', inner', hpart⟩ := ih d hd hs
      exact ⟨a', inner', .inner hd hpart⟩

end Block.IsPart

/-- No node of a block comes twice. -/
theorem nodup_of_mem_blockNodes {bs : List Block} (h : (blockNodes bs).Nodup) {b : Block}
    (hb : b ∈ bs) : b.nodes.Nodup := by
  rw [blockNodes_eq, List.nodup_flatMap] at h
  exact h.1 b hb

/-- A part of a block holds the start of a scope of the block if it holds the end. -/
theorem Block.start_mem_iff {b c : Block} (hnodup : b.nodes.Nodup) (hc : IsPart c b) {s : Scope}
    (hs : s ∈ b.scopes) : s.start ∈ c.nodes ↔ s.ending ∈ c.nodes := by
  induction hc with
  | refl =>
    obtain ⟨hstart, hending⟩ := mem_nodes_of_mem_scopes hs
    exact ⟨fun _ => hending, fun _ => hstart⟩
  | @inner a s₀ e₀ inner d hd hpart ih =>
    have hsub : c.nodes ⊆ d.nodes := hpart.nodes_subset
    simp only [nodes, List.nodup_cons, List.nodup_append, List.mem_append, not_or] at hnodup
    obtain ⟨⟨hs₀, -⟩, hinner, -, he₀⟩ := hnodup
    rw [scopes, blockScopes_eq] at hs
    rcases List.mem_cons.mp hs with rfl | hs
    · have hstart : s₀ ∉ c.nodes := fun hmem => hs₀ (nodes_subset_blockNodes hd (hsub hmem))
      have hending : e₀ ∉ c.nodes := fun hmem =>
        he₀ e₀ (nodes_subset_blockNodes hd (hsub hmem)) e₀ List.mem_cons_self rfl
      exact ⟨fun hmem => absurd hmem hstart, fun hmem => absurd hmem hending⟩
    · obtain ⟨d', hd', hs⟩ := List.mem_flatMap.mp hs
      obtain ⟨hstart, hending⟩ := mem_nodes_of_mem_scopes hs
      by_cases heq : d' = d
      · subst heq
        exact ih (nodup_of_mem_blockNodes hinner hd) hs
      · constructor
        · exact fun hmem => absurd (block_unique hinner hd' hd hstart (hsub hmem)) heq
        · exact fun hmem => absurd (block_unique hinner hd' hd hending (hsub hmem)) heq

/-! ## Parts are isolated -/

section Isolated

variable {all : List Node} (hdistinct : (all.map Node.id).Nodup)
include hdistinct

/-- A number belongs to one block only. -/
theorem block_unique_id {bs : List Block} (hsub : blockNodes bs ⊆ all)
    (hnodup : (blockNodes bs).Nodup) {b b' : Block} (hb : b ∈ bs) (hb' : b' ∈ bs) {p : NodeId}
    (hp : p ∈ b.nodes.map Node.id) (hp' : p ∈ b'.nodes.map Node.id) : b = b' := by
  obtain ⟨n, hn, rfl⟩ := List.mem_map.mp hp
  obtain ⟨n', hn', hid⟩ := List.mem_map.mp hp'
  have hmem := hsub (nodes_subset_blockNodes hb hn)
  have hmem' := hsub (nodes_subset_blockNodes hb' hn')
  obtain rfl := eq_of_id_eq hdistinct hmem' hmem hid
  exact block_unique hnodup hb hb' hn hn'

/-- Blocks are isolated if nothing follows them but their own nodes and what follows an exit. -/
theorem isolated_of_arranged {a : Arrangement} {before : List NodeId} {bs : List Block}
    (hsub : blockNodes bs ⊆ all) (hnodup : (blockNodes bs).Nodup) (h : Arranged a before bs)
    (hbefore : ∀ p ∈ before, p ∉ (blockNodes bs).map Node.id)
    (hout : ∀ n ∈ all, ∀ p ∈ n.parents, p ∈ (blockNodes bs).map Node.id →
      n ∈ blockNodes bs ∨ ∃ b ∈ bs, p = b.exit.id) :
    ∀ b ∈ bs, Isolated all b := by
  intro b hb n hn p hp hpb hne
  have hexit : ∀ d ∈ bs, p ≠ d.exit.id := by
    rintro d hd rfl
    have hpd : d.exit.id ∈ d.nodes.map Node.id := List.mem_map_of_mem d.exit_mem_nodes
    exact hne (by rw [block_unique_id hdistinct hsub hnodup hb hd hpb hpd])
  have hpbs := List.map_subset Node.id (nodes_subset_blockNodes hb) hpb
  rcases hout n hn p hp hpbs with hin | ⟨d, hd, hpd⟩
  · obtain ⟨d, hd, hnd⟩ := mem_blockNodes.mp hin
    obtain ⟨own, hrec, hown⟩ := h.recorded hd
    -- only an entry follows something outside of its block, and this is no exit here
    by_cases hentry : n = d.entry
    · subst hentry
      rcases hown p ((Block.mem_parents_entry hrec).mp hp) with hp | ⟨d', hd', hpd'⟩
      · exact absurd hpbs (hbefore p hp)
      · exact absurd hpd' (hexit d' hd')
    · have hpd := Block.parents_mem hrec hnd hentry hp
      rwa [block_unique_id hdistinct hsub hnodup hb hd hpb hpd]
  · exact absurd hpd (hexit d hd)

/-- The blocks of an isolated group are isolated. -/
theorem Block.isolated_inner (hacyclic : ∀ id, ¬ TransGen (Edge all) id id) {a : Arrangement}
    {s e : Node} {inner : List Block} (hsub : (group a s inner e).nodes ⊆ all)
    (hnodup : (group a s inner e).nodes.Nodup) {before : List NodeId}
    (hrec : (group a s inner e).Recorded before) (hiso : Isolated all (group a s inner e)) :
    ∀ d ∈ inner, Isolated all d := by
  have hreach := reaches_of_recorded hsub hrec
  obtain ⟨hs, hinner, he⟩ := hrec
  have hsub' : blockNodes inner ⊆ all := fun n hn => hsub (by simp [nodes, hn])
  simp only [nodes, List.nodup_cons, List.nodup_append, List.mem_append, not_or] at hnodup
  obtain ⟨⟨hs₀, -⟩, hnodupInner, -, he₀⟩ := hnodup
  have hid : ∀ n ∈ (group a s inner e).nodes, n.id ∈ (blockNodes inner).map Node.id →
      n ∈ blockNodes inner := by
    intro n hn hmem
    obtain ⟨m, hm, hid⟩ := List.mem_map.mp hmem
    rwa [eq_of_id_eq hdistinct (hsub hn) (hsub' hm) hid.symm]
  have hstart : s.id ∉ (blockNodes inner).map Node.id :=
    fun hmem => hs₀ (hid s (mem_nodes_group.mpr (Or.inl rfl)) hmem)
  have hending : e.id ∉ (blockNodes inner).map Node.id := by
    intro hmem
    have hmem' := hid e (mem_nodes_group.mpr (Or.inr (Or.inr rfl))) hmem
    exact he₀ e hmem' e List.mem_cons_self rfl
  refine isolated_of_arranged hdistinct hsub' hnodupInner hinner ?_ ?_
  · intro p hp hmem
    obtain rfl := List.mem_singleton.mp hp
    exact hstart hmem
  · intro n hn p hp hmem
    have hpb : p ∈ (group a s inner e).nodes.map Node.id := by
      refine List.map_subset Node.id (fun m hm => ?_) hmem
      simp [nodes, hm]
    have hne : p ≠ (group a s inner e).exit.id := by
      rintro rfl
      exact hending hmem
    -- the follower is of the group: it is the start, lies within, or is the end
    rcases mem_nodes_group.mp (hiso n hn p hp hpb hne) with rfl | hin | rfl
    · -- a parent of the start that comes after the start
      obtain ⟨m, hm, rfl⟩ := List.mem_map.mp hpb
      exact absurd (TransGen.tail' (hreach m hm).1 ⟨_, hn, rfl, hp⟩) (hacyclic _)
    · exact Or.inl (mem_blockNodes.mpr hin)
    · rcases Arrangement.mem_exits ((he.2 p).mp hp) with hp | hexit
      · obtain rfl := List.mem_singleton.mp hp
        exact absurd hmem hstart
      · exact Or.inr hexit

/-- The parts of an isolated block are isolated. -/
theorem Block.isolated_of_isPart (hacyclic : ∀ id, ¬ TransGen (Edge all) id id) {b c : Block}
    (hc : IsPart c b) (hsub : b.nodes ⊆ all) (hnodup : b.nodes.Nodup) {before : List NodeId}
    (hrec : b.Recorded before) (hiso : Isolated all b) :
    Isolated all c ∧ ∃ own, c.Recorded own := by
  induction hc generalizing before with
  | refl => exact ⟨hiso, before, hrec⟩
  | @inner a s e inner d hd _ ih =>
    have hisod := isolated_inner hdistinct hacyclic hsub hnodup hrec hiso d hd
    obtain ⟨own, hrecd, -⟩ := hrec.2.1.recorded hd
    have hpart : IsPart d (group a s inner e) := .inner hd .refl
    have hsubd : d.nodes ⊆ all := fun n hn => hsub (hpart.nodes_subset hn)
    have hnodupd : d.nodes.Nodup := by
      simp only [nodes, List.nodup_cons, List.nodup_append] at hnodup
      exact nodup_of_mem_blockNodes hnodup.2.1 hd
    exact ih hsubd hnodupd hrecd hisod

end Isolated

/-! ## The scopes of a trace -/

namespace NestedTrace

variable (t : NestedTrace)

theorem nodup_nodes : t.nodes.Nodup := List.Nodup.of_map Node.id t.distinct

theorem nodes_subset {b : Block} (hb : b ∈ t.blocks) : b.nodes ⊆ t.nodes :=
  nodes_subset_blockNodes hb

/-- One can only go back from a node of a trace finitely often. -/
theorem acc {n : Node} (hn : n ∈ t.nodes) : Acc (Edge t.nodes) n.id := by
  obtain ⟨b, hb, hnb⟩ := mem_blockNodes.mp hn
  exact acc_of_arranged
    (fun b hb own hrec hown => Block.acc_of_recorded t.distinct (t.nodes_subset hb) hrec hown)
    t.recorded (fun p hp => absurd hp List.not_mem_nil) b hb n hnb

/-- A nested trace has no cycle. -/
theorem acyclic (id : NodeId) : ¬ TransGen (Edge t.nodes) id id := by
  intro hcycle
  obtain ⟨-, -, n, hn, rfl, -⟩ := TransGen.tail'_iff.mp hcycle
  have hacc := (t.acc hn).transGen
  generalize n.id = id at hcycle hacc
  induction hacc with
  | intro id _ ih => exact ih id hcycle hcycle

/-- The starts of the scopes are the starts among the nodes. -/
theorem map_start_scopes : t.scopes.map Scope.start = t.nodes.filter Node.isStart := by
  rw [scopes, nodes, blockScopes_eq, blockNodes_eq, List.map_flatMap, List.filter_flatMap]
  refine List.flatMap_congr fun b hb => ?_
  obtain ⟨own, hrec, -⟩ := t.recorded.recorded hb
  exact Block.map_start_scopes hrec

/-- The ends of the scopes are the ends among the nodes. -/
theorem map_ending_scopes : (t.scopes.map Scope.ending).Perm (t.nodes.filter Node.isEnd) := by
  rw [scopes, nodes, blockScopes_eq, blockNodes_eq, List.map_flatMap, List.filter_flatMap]
  refine List.Perm.flatMap_left _ fun b hb => ?_
  obtain ⟨own, hrec, -⟩ := t.recorded.recorded hb
  exact Block.map_ending_scopes hrec

theorem isFaithful_of_mem_scopes {s : Scope} (h : s ∈ t.scopes) : s.IsFaithful := by
  rw [scopes, blockScopes_eq] at h
  obtain ⟨b, -, hs⟩ := List.mem_flatMap.mp h
  exact Block.isFaithful_of_mem_scopes hs

/-- What a node of a trace follows is of the trace. -/
theorem parents_mem {n : Node} (hn : n ∈ t.nodes) {p : NodeId} (hp : p ∈ n.parents) :
    p ∈ t.nodes.map Node.id := by
  obtain ⟨b, hb, hnb⟩ := mem_blockNodes.mp hn
  obtain ⟨own, hrec, hown⟩ := t.recorded.recorded hb
  by_cases hentry : n = b.entry
  · subst hentry
    rcases hown p ((Block.mem_parents_entry hrec).mp hp) with hp | ⟨d, hd, rfl⟩
    · exact absurd hp List.not_mem_nil
    · exact exit_id_mem hd
  · exact List.map_subset Node.id (t.nodes_subset hb) (Block.parents_mem hrec hnb hentry hp)

/-- **A scope is a part of the trace by itself.** Its nodes are those of a block that is isolated
from the other nodes and holds the other scopes as a whole or not at all. -/
theorem exists_block {s : Scope} (hs : s ∈ t.scopes) : ∃ c : Block, c.entry = s.start ∧
    c.exit = s.ending ∧ c.nodes ⊆ t.nodes ∧ (∃ own, c.Recorded own) ∧ Isolated t.nodes c ∧
    Closed t.scopes c.nodes := by
  rw [scopes, blockScopes_eq] at hs
  obtain ⟨b, hb, hsb⟩ := List.mem_flatMap.mp hs
  obtain ⟨a, inner, hpart⟩ := Block.IsPart.of_mem_scopes hsb
  have hsub := t.nodes_subset hb
  obtain ⟨own, hrec, -⟩ := t.recorded.recorded hb
  have hisob : Isolated t.nodes b :=
    isolated_of_arranged t.distinct (fun _ hn => hn) t.nodup_nodes t.recorded
      (fun p hp => absurd hp List.not_mem_nil) (fun n hn _ _ _ => Or.inl hn) b hb
  have hnodupb : b.nodes.Nodup := nodup_of_mem_blockNodes t.nodup_nodes hb
  obtain ⟨hiso, hrecc⟩ :=
    Block.isolated_of_isPart t.distinct t.acyclic hpart hsub hnodupb hrec hisob
  refine ⟨_, rfl, rfl, fun n hn => hsub (hpart.nodes_subset hn), hrecc, hiso, fun s' hs' => ?_⟩
  rw [scopes, blockScopes_eq] at hs'
  obtain ⟨b', hb', hsb'⟩ := List.mem_flatMap.mp hs'
  by_cases heq : b' = b
  · subst heq
    exact Block.start_mem_iff hnodupb hpart hsb'
  · -- a scope of another block has no node in this one
    obtain ⟨hstart, hending⟩ := Block.mem_nodes_of_mem_scopes hsb'
    constructor
    · intro hmem
      exact absurd (block_unique t.nodup_nodes hb' hb hstart (hpart.nodes_subset hmem)) heq
    · intro hmem
      exact absurd (block_unique t.nodup_nodes hb' hb hending (hpart.nodes_subset hmem)) heq

end NestedTrace

end BuildMetrics.Trace
