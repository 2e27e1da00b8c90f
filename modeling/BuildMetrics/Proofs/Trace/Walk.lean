import BuildMetrics.Proofs.Trace.Worklist

/-!
# Walks of any graph

A host can send whatever it likes: nodes that name themselves as a parent, cycles, parents that are
named more than once, parts that have nothing to do with each other. Whatever the graph is, its walk
comes to an end and tells the nodes that lead to no cycle.

* `Graph.run_ofGraph`: a walk that is asked for more and more nodes yields the same ones, and then
  no more;
* `Graph.child_mem_before`: the children of a node are yielded before it;
* `Graph.walk_perm_nodes_iff`: all nodes are yielded if and only if there is no cycle.
-/

namespace BuildMetrics.Trace

/-! ## The number of steps -/

namespace Walk

variable {g : Graph}

/-- A walk has no more nodes than steps. -/
theorem length_run_le (g : Graph) (steps : Nat) (w : Walk) : (w.run g steps).length ≤ steps := by
  induction steps generalizing w with
  | zero => exact Nat.le_refl 0
  | succ steps ih =>
    cases hnext : w.next? g with
    | none => simp [run, hnext]
    | some next =>
      rw [run_succ hnext, List.length_cons]
      exact Nat.succ_le_succ (ih next.2)

/-- A walk that may take fewer steps yields the first of the same numbers. -/
theorem take_run {steps fewer : Nat} (h : fewer ≤ steps) (w : Walk) :
    (w.run g steps).take fewer = w.run g fewer := by
  induction fewer generalizing w steps with
  | zero => rw [List.take_zero, run]
  | succ fewer ih =>
    obtain ⟨steps, rfl⟩ := Nat.exists_eq_add_of_le' h
    rw [← Nat.add_assoc]
    cases hnext : w.next? g with
    | none => simp [run, hnext]
    | some next =>
      rw [run_succ hnext, run_succ hnext, List.take_succ_cons, ih (Nat.le_add_left _ _)]

end Walk

namespace Graph

variable {g : Graph} {w : Walk} {done before after : List NodeId} {id c : NodeId} {steps : Nat}

namespace Worklist

/-- When there has been a step for each node, a walk makes nothing of further steps. -/
theorem run_add (h : Worklist g w done) (hsteps : g.nodeCount ≤ steps + done.length)
    (more : Nat) : w.run g (steps + more) = w.run g steps := by
  induction steps generalizing w done with
  | zero =>
    -- all nodes are done, so none is left for the stack
    have hle := h.length_le
    have hstack : w.stack = [] := List.eq_nil_of_length_eq_zero (by omega)
    rw [Walk.run_of_stack_nil hstack, Walk.run_of_stack_nil hstack]
  | succ steps ih =>
    cases hstack : w.stack with
    | nil => rw [Walk.run_of_stack_nil hstack, Walk.run_of_stack_nil hstack]
    | cons top stack =>
      obtain ⟨w', -, hnext, -, -, h'⟩ := h.next hstack
      have hsteps' : g.nodeCount ≤ steps + (top :: done).length := by
        rw [List.length_cons]
        omega
      rw [Nat.add_right_comm, Walk.run_succ hnext, Walk.run_succ hnext, ih h' hsteps']

/-- What a walk yields before a node, with what was done earlier, holds the children of the node. -/
theorem child_mem_before (h : Worklist g w done) (hrun : w.run g steps = before ++ id :: after)
    (hc : Edge g.nodes id c) : c ∈ before ++ done := by
  induction steps generalizing w done before with
  | zero => simp [Walk.run] at hrun
  | succ steps ih =>
    cases hstack : w.stack with
    | nil => simp [Walk.run_of_stack_nil hstack] at hrun
    | cons top stack =>
      obtain ⟨w', -, hnext, -, -, h'⟩ := h.next hstack
      rw [Walk.run_succ hnext] at hrun
      cases before with
      | nil =>
        -- the node is the top of the stack, where it came when all its children were done
        obtain ⟨rfl, -⟩ := List.cons.inj hrun
        exact h.child_mem_done (by simp [hstack]) hc
      | cons first before =>
        rw [List.cons_append, List.cons.injEq] at hrun
        obtain ⟨rfl, hrun⟩ := hrun
        have hmem := ih h' hrun
        simp only [List.cons_append, List.mem_append, List.mem_cons] at hmem ⊢
        tauto

end Worklist

/-! ## Whole walks -/

/-- **A walk ends.** However many steps it may take, it yields the numbers of the walk and no
others. -/
theorem run_ofGraph (g : Graph) (steps : Nat) :
    (Walk.ofGraph g).run g steps = g.walkIds.take steps := by
  rcases Nat.le_total steps g.nodeCount with hle | hle
  · exact (Walk.take_run hle _).symm
  · obtain ⟨more, rfl⟩ := Nat.exists_eq_add_of_le hle
    have hlength : g.walkIds.length ≤ g.nodeCount + more :=
      Nat.le_trans (Walk.length_run_le _ _ _) hle
    rw [List.take_of_length_le hlength]
    exact (Worklist.ofGraph g).run_add (Nat.le_add_right _ _) more

/-- A child comes before its parent. -/
theorem child_mem_before (hwalk : g.walkIds = before ++ id :: after) (hc : Edge g.nodes id c) :
    c ∈ before := by
  have hmem := (Worklist.ofGraph g).child_mem_before hwalk hc
  rwa [List.append_nil] at hmem

/-- The walk meets all nodes if and only if there is no cycle. -/
theorem walk_perm_nodes_iff : g.walk.Perm g.nodes ↔ g.Acyclic := by
  rw [acyclic_iff]
  constructor
  · intro hperm
    rw [← g.map_id_walk]
    exact (hperm.map Node.id).symm.subset
  · intro hall
    refine (List.perm_ext_iff_of_nodup g.nodup_walk g.nodup_nodes).mpr fun n => ?_
    rw [mem_walk]
    refine ⟨And.left, fun hn => ⟨hn, ?_⟩⟩
    exact (mem_walkIds.mp (hall (id_mem_ids hn))).2

/-- **What a walk makes of any graph.** It ends, whatever is on a cycle; it yields no number twice;
it yields a node after all children of the node; it yields the nodes from which going on to children
leads to no cycle, and so it yields all nodes if and only if there is no cycle. -/
theorem walk_of_ofNodes {nodes : List Node} {g : Graph} (h : ofNodes nodes = .ok g) :
    (∀ steps, (Walk.ofGraph g).run g steps = (g.walk.map Node.id).take steps) ∧
    (g.walk.map Node.id).Nodup ∧
    (∀ before n after, g.walk = before ++ n :: after →
      ∀ child ∈ nodes, n.id ∈ child.parents → child ∈ before) ∧
    (∀ n, n ∈ g.walk ↔ n ∈ nodes ∧ ¬ g.LeadsToCycle n.id) ∧
    (g.walk.Perm nodes ↔ g.Acyclic) := by
  obtain rfl := nodes_of_ofNodes h
  rw [g.map_id_walk]
  refine ⟨g.run_ofGraph, g.nodup_walkIds, ?_, fun _ => mem_walk, walk_perm_nodes_iff⟩
  intro before n after hwalk child hchild hparent
  have hids : g.walkIds = before.map Node.id ++ n.id :: after.map Node.id := by
    rw [← g.map_id_walk, hwalk, List.map_append, List.map_cons]
  have hmem : child.id ∈ before.map Node.id :=
    child_mem_before hids ⟨child, hchild, rfl, hparent⟩
  obtain ⟨m, hm, hid⟩ := List.mem_map.mp hmem
  have hnodes : m ∈ g.nodes := (mem_walk.mp (by simp [hwalk, hm])).1
  rwa [← eq_of_id_eq g.distinct hnodes hchild hid]

/-- Two nodes that are each other's parents, with one node before them and two behind them, which
name parents more than once; beside them a node that names itself, and one that is alone. -/
def tangledNodes : List Node :=
  [bareNode .scopeEnd 5 [4, 3, 4], bareNode .scopeStart 1 [], bareNode .other 2 [1, 3],
    bareNode .other 3 [2], bareNode .scopeStart 4 [3, 3], bareNode .other 6 [6],
    bareNode .other 7 []]

/-- Their graph. -/
def tangled : Graph := ⟨tangledNodes, by decide, by simp [tangledNodes, bareNode]⟩

theorem walkIds_tangled : tangled.walkIds = [5, 4, 7] := by
  have hcount : tangled.nodeCount = 7 := rfl
  have hlast : (tangled.ids.filter fun id => (tangled.childEdges id).isEmpty) = [5, 7] := by decide
  have hheads : tangled.heads = [5, 7] := by
    rw [heads, hlast]
    exact List.mergeSort_of_pairwise (by decide)
  have hparents : tangled.parents 4 = [3, 3] := rfl
  have hending : tangled.parents 5 = [4, 3, 4] := rfl
  have halone : tangled.parents 7 = [] := rfl
  have hedges : tangled.childEdges 3 = [5, 2, 4, 4] := by decide
  have hedges' : tangled.childEdges 4 = [5, 5] := by decide
  rw [walkIds, Walk.ofGraph, hcount, hheads]
  simp [Walk.run, Walk.next?, Walk.countDown, hparents, hending, halone, hedges, hedges', sorted,
    List.eraseReps, List.eraseRepsBy, List.eraseRepsBy.loop]

/-- Nodes of which some lead to a cycle. -/
theorem walk_of_ofNodes_tangled :
    ofNodes tangledNodes = .ok tangled ∧
    (∀ steps, (Walk.ofGraph tangled).run tangled steps = [5, 4, 7].take steps) ∧
    (∀ n ∈ tangledNodes, tangled.LeadsToCycle n.id ↔ n.id ∉ [5, 4, 7]) ∧
    ¬ tangled.walk.Perm tangledNodes := by
  have hok : ofNodes tangledNodes = .ok tangled := ofNodes_eq_ok tangled.distinct tangled.closed
  have hwalk : tangled.walk.map Node.id = [5, 4, 7] := by
    rw [map_id_walk, walkIds_tangled]
  obtain ⟨hends, -, -, hmem, hall⟩ := walk_of_ofNodes hok
  have hcycle : ∀ n ∈ tangledNodes, tangled.LeadsToCycle n.id ↔ n.id ∉ [5, 4, 7] := by
    intro n hn
    rw [leadsToCycle_iff, ← map_id_walk, hwalk]
    exact and_iff_right (id_mem_ids hn)
  refine ⟨hok, fun steps => by rw [hends, hwalk], hcycle, fun hperm => ?_⟩
  have hself : tangled.LeadsToCycle 6 :=
    (hcycle (bareNode .other 6 [6]) (by decide)).mpr (by decide)
  exact (hall.mp hperm).not_leadsToCycle 6 hself

end Graph

end BuildMetrics.Trace
