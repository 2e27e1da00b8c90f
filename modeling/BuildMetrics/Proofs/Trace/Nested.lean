import BuildMetrics.Proofs.Trace.Edges
import BuildMetrics.Proofs.Trace.Matching
import Mathlib.Data.List.Pairwise

/-!
# Nested traces

What a run looks like that was recorded to its end: blocks one after the other, each of them a
plain step, a scope around further blocks, or a parallel step whose branches ran side by side, to
any depth. `Block` is this shape with the recorded nodes in it; `Block.Recorded` says which kind
and which parents each node has because of its place; and a `NestedTrace` is a list of blocks
recorded in this way under distinct numbers. The order in which the nodes are listed, their times,
names, markers and errors are free.

Shown here are the facts that hang on the shape alone:

* `Block.acc_of_recorded`: parents are always nearer to the beginning, so there are no cycles;
* `Block.parents_mem`: what a node of a block follows lies within the block, unless it is the entry;
* `Block.reaches_of_recorded`: a block lies between its entry and its exit.
-/

namespace BuildMetrics.Trace

open Relation

/-- How the blocks of a group ran. -/
inductive Arrangement where
  /-- one after the other: the group is a scope -/
  | inSequence
  /-- each for itself, from the same start: the group is a parallel step, its blocks are the
  branches -/
  | sideBySide

/-- A part of a trace that begins at one node and ends at one node. -/
inductive Block where
  /-- a plain step -/
  | step (node : Node)
  /-- a start and an end around blocks -/
  | group (arrangement : Arrangement) (start : Node) (inner : List Block) (ending : Node)

namespace Block

/-- To show a fact about all blocks it may be assumed of the blocks within a group. -/
@[elab_as_elim, induction_eliminator]
theorem induction {motive : Block → Prop} (step : ∀ n, motive (.step n))
    (group : ∀ a s inner e, (∀ b ∈ inner, motive b) → motive (.group a s inner e)) :
    ∀ b, motive b
  | .step n => step n
  | .group a s inner e => group a s inner e fun b _ => induction step group b

/-- The node at which a block begins. -/
def entry : Block → Node
  | step n => n
  | group _ s _ _ => s

/-- The node at which a block ends. -/
def exit : Block → Node
  | step n => n
  | group _ _ _ e => e

end Block

mutual

/-- The nodes of a block in the order in which they were recorded. -/
def Block.nodes : Block → List Node
  | .step n => [n]
  | .group _ s inner e => s :: (blockNodes inner ++ [e])

/-- The nodes of blocks. -/
def blockNodes : List Block → List Node
  | [] => []
  | b :: bs => b.nodes ++ blockNodes bs

end

mutual

/-- The scopes of a block, parallel steps included. -/
def Block.scopes : Block → List Scope
  | .step _ => []
  | .group _ s inner e => .between s e :: blockScopes inner

/-- The scopes of blocks. -/
def blockScopes : List Block → List Scope
  | [] => []
  | b :: bs => b.scopes ++ blockScopes bs

end

/-! ## Recorded blocks -/

/-- The node is of a kind, and it names the given parents, in whatever order. -/
def Node.IsAt (n : Node) (kind : NodeKind) (before : List NodeId) : Prop :=
  n.kind = kind ∧ ∀ p, p ∈ n.parents ↔ p ∈ before

/-- What a block behind these blocks follows: the exit of the last one. -/
def lastExit (before : List NodeId) : List Block → List NodeId
  | [] => before
  | b :: bs => lastExit [b.exit.id] bs

/-- What the end of a group follows: the exit of the last block, or the exits of all branches. A
group without blocks ends right after its start. -/
def Arrangement.exits (before : List NodeId) (bs : List Block) : Arrangement → List NodeId
  | inSequence => lastExit before bs
  | sideBySide => if bs.isEmpty then before else bs.map fun b => b.exit.id

mutual

/-- The nodes of a block that begins behind the nodes `before`. -/
def Block.Recorded (before : List NodeId) : Block → Prop
  | .step n => n.IsAt .other before
  | .group a s inner e =>
    s.IsAt .scopeStart before ∧ Arranged a [s.id] inner ∧
      e.IsAt .scopeEnd (a.exits [s.id] inner)

/-- Blocks that were recorded one after the other or side by side. -/
def Arranged (a : Arrangement) (before : List NodeId) : List Block → Prop
  | [] => True
  | b :: bs =>
    b.Recorded before ∧
      Arranged a (match a with | .inSequence => [b.exit.id] | .sideBySide => before) bs

end

/-- A run that was recorded to its end. -/
structure NestedTrace where
  /-- the blocks, one after the other -/
  blocks : List Block
  /-- the first one has no parents -/
  recorded : Arranged .inSequence [] blocks
  /-- every node has a number of its own -/
  distinct : ((blockNodes blocks).map Node.id).Nodup

namespace NestedTrace

/-- The nodes of a trace. -/
def nodes (t : NestedTrace) : List Node := blockNodes t.blocks

/-- The scopes of a trace. -/
def scopes (t : NestedTrace) : List Scope := blockScopes t.blocks

end NestedTrace

/-! ## Lists of blocks -/

theorem blockNodes_eq (bs : List Block) : blockNodes bs = bs.flatMap Block.nodes := by
  induction bs with
  | nil => rfl
  | cons b bs ih => rw [blockNodes, ih, List.flatMap_cons]

theorem blockScopes_eq (bs : List Block) : blockScopes bs = bs.flatMap Block.scopes := by
  induction bs with
  | nil => rfl
  | cons b bs ih => rw [blockScopes, ih, List.flatMap_cons]

/-- The nodes of blocks are the nodes of any of them. -/
theorem mem_blockNodes {bs : List Block} {n : Node} :
    n ∈ blockNodes bs ↔ ∃ b ∈ bs, n ∈ b.nodes := by
  rw [blockNodes_eq, List.mem_flatMap]

theorem nodes_subset_blockNodes {bs : List Block} {b : Block} (hb : b ∈ bs) :
    b.nodes ⊆ blockNodes bs := fun _ hn => mem_blockNodes.mpr ⟨b, hb, hn⟩

/-- A node lies in one block only. -/
theorem block_unique {bs : List Block} (h : (blockNodes bs).Nodup) {b b' : Block} (hb : b ∈ bs)
    (hb' : b' ∈ bs) {n : Node} (hn : n ∈ b.nodes) (hn' : n ∈ b'.nodes) : b = b' := by
  rw [blockNodes_eq, List.nodup_flatMap] at h
  by_contra hne
  have : Std.Symm (Function.onFun List.Disjoint Block.nodes) :=
    ⟨fun _ _ hdisjoint => List.Disjoint.symm hdisjoint⟩
  exact h.2.forall hb hb' hne hn hn'

namespace Block

variable {b : Block} {a : Arrangement} {before : List NodeId} {inner : List Block} {s e n : Node}

theorem entry_mem_nodes (b : Block) : b.entry ∈ b.nodes := by
  cases b with
  | step n => exact List.mem_singleton_self n
  | group a s inner e => exact List.mem_cons_self

theorem exit_mem_nodes (b : Block) : b.exit ∈ b.nodes := by
  cases b with
  | step n => exact List.mem_singleton_self n
  | group a s inner e => simp [nodes, exit]

/-- The nodes of a group are its start, those within it, and its end. -/
theorem mem_nodes_group :
    n ∈ (group a s inner e).nodes ↔ n = s ∨ (∃ d ∈ inner, n ∈ d.nodes) ∨ n = e := by
  simp [nodes, mem_blockNodes]

/-- The parents of a block are those of its first node. -/
theorem mem_parents_entry (h : b.Recorded before) {p : NodeId} :
    p ∈ b.entry.parents ↔ p ∈ before := by
  cases b with
  | step n => exact h.2 p
  | group a s inner e => exact h.1.2 p

end Block

/-! ## What the nodes of a block follow -/

/-- Behind blocks comes what comes behind the last of them. -/
theorem mem_lastExit {before : List NodeId} {bs : List Block} {p : NodeId}
    (h : p ∈ lastExit before bs) : p ∈ before ∨ ∃ b ∈ bs, p = b.exit.id := by
  induction bs generalizing before with
  | nil => exact Or.inl h
  | cons b bs ih =>
    rcases ih h with hp | ⟨d, hd, rfl⟩
    · exact Or.inr ⟨b, List.mem_cons_self, List.mem_singleton.mp hp⟩
    · exact Or.inr ⟨d, List.mem_cons_of_mem _ hd, rfl⟩

theorem Arrangement.mem_exits {a : Arrangement} {before : List NodeId} {bs : List Block}
    {p : NodeId} (h : p ∈ a.exits before bs) : p ∈ before ∨ ∃ b ∈ bs, p = b.exit.id := by
  cases a with
  | inSequence => exact mem_lastExit h
  | sideBySide =>
    rw [exits] at h
    split at h
    · exact Or.inl h
    · obtain ⟨b, hb, rfl⟩ := List.mem_map.mp h
      exact Or.inr ⟨b, hb, rfl⟩

namespace Arranged

variable {a : Arrangement} {before : List NodeId} {bs : List Block} {b : Block}

/-- A block follows what all of them follow, or exits of blocks in front of it. -/
theorem recorded_of_split {front back : List Block} (h : Arranged a before (front ++ b :: back)) :
    ∃ own, b.Recorded own ∧ ∀ p ∈ own, p ∈ before ∨ ∃ d ∈ front, p = d.exit.id := by
  induction front generalizing before with
  | nil => exact ⟨before, h.1, fun p hp => Or.inl hp⟩
  | cons d front ih =>
    obtain ⟨own, hb, hown⟩ := ih h.2
    refine ⟨own, hb, fun p hp => ?_⟩
    rcases hown p hp with hp | ⟨d', hd', rfl⟩
    · cases a with
      | inSequence => exact Or.inr ⟨d, List.mem_cons_self, List.mem_singleton.mp hp⟩
      | sideBySide => exact Or.inl hp
    · exact Or.inr ⟨d', List.mem_cons_of_mem _ hd', rfl⟩

theorem recorded (h : Arranged a before bs) (hb : b ∈ bs) :
    ∃ own, b.Recorded own ∧ ∀ p ∈ own, p ∈ before ∨ ∃ d ∈ bs, p = d.exit.id := by
  obtain ⟨front, back, rfl⟩ := List.append_of_mem hb
  obtain ⟨own, hrec, hown⟩ := h.recorded_of_split
  refine ⟨own, hrec, fun p hp => (hown p hp).imp_right ?_⟩
  rintro ⟨d, hd, rfl⟩
  exact ⟨d, List.mem_append_left _ hd, rfl⟩

end Arranged

theorem exit_id_mem {bs : List Block} {b : Block} (hb : b ∈ bs) :
    b.exit.id ∈ (blockNodes bs).map Node.id :=
  List.mem_map_of_mem (nodes_subset_blockNodes hb b.exit_mem_nodes)

/-- The nodes of a block follow nodes of the block, but for the entry. -/
theorem Block.parents_mem {b : Block} {before : List NodeId} (h : b.Recorded before) {n : Node}
    (hn : n ∈ b.nodes) (hne : n ≠ b.entry) {p : NodeId} (hp : p ∈ n.parents) :
    p ∈ b.nodes.map Node.id := by
  induction b generalizing before with
  | step m => exact absurd (List.mem_singleton.mp hn) hne
  | group a s inner e ih =>
    obtain ⟨-, hinner, he⟩ := h
    have hs : s.id ∈ (group a s inner e).nodes.map Node.id :=
      List.mem_map_of_mem (mem_nodes_group.mpr (Or.inl rfl))
    have hsub : blockNodes inner ⊆ (group a s inner e).nodes := fun m hm => by simp [nodes, hm]
    -- the blocks and the end of the group follow its start or the exit of a block
    have hbehind : p ∈ [s.id] ∨ (∃ d ∈ inner, p = d.exit.id) →
        p ∈ (group a s inner e).nodes.map Node.id := by
      rintro (hp | ⟨d, hd, rfl⟩)
      · obtain rfl := List.mem_singleton.mp hp
        exact hs
      · exact List.map_subset Node.id hsub (exit_id_mem hd)
    rcases mem_nodes_group.mp hn with rfl | ⟨d, hd, hnd⟩ | rfl
    · exact absurd rfl hne
    · obtain ⟨own, hrec, hown⟩ := hinner.recorded hd
      by_cases hentry : n = d.entry
      · subst hentry
        exact hbehind (hown p ((mem_parents_entry hrec).mp hp))
      · have hin := ih d hd hrec hnd hentry
        exact List.map_subset Node.id (fun m hm => hsub (nodes_subset_blockNodes hd hm)) hin
    · exact hbehind (Arrangement.mem_exits ((he.2 p).mp hp))

/-! ## Parents come earlier -/

section Acc

variable {all : List Node}

/-- One can only go back from a node finitely often if that holds of its parents. -/
theorem acc_of_isAt (hdistinct : (all.map Node.id).Nodup) {n : Node} {kind : NodeKind}
    {before : List NodeId} (hn : n ∈ all) (h : n.IsAt kind before)
    (hbefore : ∀ p ∈ before, Acc (Edge all) p) : Acc (Edge all) n.id := by
  refine Acc.intro n.id fun p hp => hbefore p ?_
  exact (h.2 p).mp ((edge_iff hdistinct hn).mp hp)

theorem acc_of_arranged {a : Arrangement} {before : List NodeId} {bs : List Block}
    (hblock : ∀ b ∈ bs, ∀ own, b.Recorded own → (∀ p ∈ own, Acc (Edge all) p) →
      ∀ n ∈ b.nodes, Acc (Edge all) n.id)
    (h : Arranged a before bs) (hbefore : ∀ p ∈ before, Acc (Edge all) p) :
    ∀ b ∈ bs, ∀ n ∈ b.nodes, Acc (Edge all) n.id := by
  induction bs generalizing before with
  | nil => exact fun b hb => absurd hb List.not_mem_nil
  | cons d bs ih =>
    have hd := hblock d List.mem_cons_self before h.1 hbefore
    intro b hb
    rcases List.mem_cons.mp hb with rfl | hb
    · exact hd
    · refine ih (fun b hb => hblock b (List.mem_cons_of_mem _ hb)) h.2 ?_ b hb
      cases a with
      | inSequence =>
        -- what comes next follows the exit of a block for which it is shown already
        intro p hp
        obtain rfl := List.mem_singleton.mp hp
        exact hd d.exit d.exit_mem_nodes
      | sideBySide => exact hbefore

/-- From a node of a block one can only go back to parents finitely often. -/
theorem Block.acc_of_recorded (hdistinct : (all.map Node.id).Nodup) {b : Block}
    {before : List NodeId} (hsub : b.nodes ⊆ all) (h : b.Recorded before)
    (hbefore : ∀ p ∈ before, Acc (Edge all) p) : ∀ n ∈ b.nodes, Acc (Edge all) n.id := by
  induction b generalizing before with
  | step m =>
    intro n hn
    obtain rfl := List.mem_singleton.mp hn
    exact acc_of_isAt hdistinct (hsub hn) h hbefore
  | group a s inner e ih =>
    obtain ⟨hs, hinner, he⟩ := h
    have hsacc : Acc (Edge all) s.id :=
      acc_of_isAt hdistinct (hsub (mem_nodes_group.mpr (Or.inl rfl))) hs hbefore
    have hstart : ∀ p ∈ [s.id], Acc (Edge all) p := by
      intro p hp
      obtain rfl := List.mem_singleton.mp hp
      exact hsacc
    have hsub' : ∀ d ∈ inner, d.nodes ⊆ all :=
      fun d hd n hn => hsub (mem_nodes_group.mpr (Or.inr (Or.inl ⟨d, hd, hn⟩)))
    have hinacc := acc_of_arranged
      (fun d hd own hrec hown => ih d hd (hsub' d hd) hrec hown) hinner hstart
    intro n hn
    rcases mem_nodes_group.mp hn with rfl | ⟨d, hd, hnd⟩ | rfl
    · exact hsacc
    · exact hinacc d hd n hnd
    · refine acc_of_isAt hdistinct (hsub hn) he fun p hp => ?_
      rcases Arrangement.mem_exits hp with hp | ⟨d, hd, rfl⟩
      · exact hstart p hp
      · exact hinacc d hd d.exit d.exit_mem_nodes

end Acc

/-! ## A block lies between its entry and its exit -/

section Reaches

variable {all : List Node}

theorem edge_of_isAt {n : Node} {kind : NodeKind} {before : List NodeId} {p : NodeId}
    (hn : n ∈ all) (h : n.IsAt kind before) (hp : p ∈ before) : Edge all p n.id :=
  ⟨n, hn, rfl, (h.2 p).mpr hp⟩

/-- An edge leads from the node before a block to its first node. -/
theorem edge_entry {b : Block} {q : NodeId} (hsub : b.nodes ⊆ all) (h : b.Recorded [q]) :
    Edge all q b.entry.id :=
  ⟨b.entry, hsub b.entry_mem_nodes, rfl, (Block.mem_parents_entry h).mpr List.mem_cons_self⟩

/-- From what the blocks follow one comes to each of their nodes, and from there to what follows
the blocks. -/
theorem reaches_of_arranged {a : Arrangement} {q : NodeId} {bs : List Block}
    (hsub : ∀ b ∈ bs, b.nodes ⊆ all)
    (hblock : ∀ b ∈ bs, ∀ n ∈ b.nodes,
      ReflTransGen (Edge all) b.entry.id n.id ∧ ReflTransGen (Edge all) n.id b.exit.id)
    (h : Arranged a [q] bs) :
    (∀ b ∈ bs, ∀ n ∈ b.nodes, ReflTransGen (Edge all) q n.id ∧
      ∃ z ∈ a.exits [q] bs, ReflTransGen (Edge all) n.id z) ∧
    ∃ z ∈ a.exits [q] bs, ReflTransGen (Edge all) q z := by
  cases a with
  | inSequence =>
    induction bs generalizing q with
    | nil => exact ⟨fun b hb => absurd hb List.not_mem_nil, q, List.mem_singleton_self q, .refl⟩
    | cons d bs ih =>
      -- through the first block to its exit, and from there on as before
      have hd := hblock d List.mem_cons_self
      have hqd := edge_entry (hsub d List.mem_cons_self) h.1
      have hexit : ReflTransGen (Edge all) q d.exit.id :=
        ReflTransGen.head hqd (hd d.exit d.exit_mem_nodes).1
      obtain ⟨hrest, z, hz, hdz⟩ := ih (fun b hb => hsub b (List.mem_cons_of_mem _ hb))
        (fun b hb => hblock b (List.mem_cons_of_mem _ hb)) h.2
      refine ⟨fun b hb n hn => ?_, z, hz, hexit.trans hdz⟩
      rcases List.mem_cons.mp hb with rfl | hb
      · exact ⟨ReflTransGen.head hqd (hd n hn).1, z, hz, (hd n hn).2.trans hdz⟩
      · obtain ⟨hreach, hends⟩ := hrest b hb n hn
        exact ⟨hexit.trans hreach, hends⟩
  | sideBySide =>
    -- the branches all follow the same node
    have hrec : ∀ b ∈ bs, b.Recorded [q] := by
      intro b hb
      obtain ⟨front, back, rfl⟩ := List.append_of_mem hb
      clear hb hblock hsub
      induction front with
      | nil => exact h.1
      | cons d front ih => exact ih h.2
    cases bs with
    | nil => exact ⟨fun b hb => absurd hb List.not_mem_nil, q, List.mem_singleton_self q, .refl⟩
    | cons d bs =>
      have hends : ∀ b ∈ d :: bs, ∀ n ∈ b.nodes, ReflTransGen (Edge all) q n.id ∧
          ∃ z ∈ Arrangement.sideBySide.exits [q] (d :: bs), ReflTransGen (Edge all) n.id z :=
        fun b hb n hn =>
          ⟨ReflTransGen.head (edge_entry (hsub b hb) (hrec b hb)) (hblock b hb n hn).1,
            b.exit.id, List.mem_map_of_mem hb, (hblock b hb n hn).2⟩
      obtain ⟨hq, z, hz, hreach⟩ := hends d List.mem_cons_self d.exit d.exit_mem_nodes
      exact ⟨hends, z, hz, hq.trans hreach⟩

/-- The nodes of a block come after its entry and before its exit. -/
theorem Block.reaches_of_recorded {b : Block} {before : List NodeId} (hsub : b.nodes ⊆ all)
    (h : b.Recorded before) : ∀ n ∈ b.nodes,
      ReflTransGen (Edge all) b.entry.id n.id ∧ ReflTransGen (Edge all) n.id b.exit.id := by
  induction b generalizing before with
  | step m =>
    intro n hn
    obtain rfl := List.mem_singleton.mp hn
    exact ⟨.refl, .refl⟩
  | group a s inner e ih =>
    obtain ⟨-, hinner, he⟩ := h
    have hsub' : ∀ d ∈ inner, d.nodes ⊆ all :=
      fun d hd n hn => hsub (mem_nodes_group.mpr (Or.inr (Or.inl ⟨d, hd, hn⟩)))
    have hblock : ∀ d ∈ inner, ∀ n ∈ d.nodes,
        ReflTransGen (Edge all) d.entry.id n.id ∧ ReflTransGen (Edge all) n.id d.exit.id := by
      intro d hd
      obtain ⟨own, hrec, -⟩ := hinner.recorded hd
      exact ih d hd (hsub' d hd) hrec
    obtain ⟨hspan, z, hz, hsz⟩ := reaches_of_arranged hsub' hblock hinner
    have hmem : e ∈ all := hsub (mem_nodes_group.mpr (Or.inr (Or.inr rfl)))
    have hse : ReflTransGen (Edge all) s.id e.id := hsz.tail (edge_of_isAt hmem he hz)
    intro n hn
    rcases mem_nodes_group.mp hn with rfl | ⟨d, hd, hnd⟩ | rfl
    · exact ⟨.refl, hse⟩
    · obtain ⟨hreach, z, hz, hends⟩ := hspan d hd n hnd
      exact ⟨hreach, hends.tail (edge_of_isAt hmem he hz)⟩
    · exact ⟨hse, .refl⟩

end Reaches

end BuildMetrics.Trace
