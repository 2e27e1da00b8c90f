import BuildMetrics.Proofs.Report.Scopes
import BuildMetrics.Proofs.Trace.Rearranged

/-!
# Records of nodes in another order

The records of a run do not depend on the order in which the nodes of its trace are listed, nor on
the order in which a node names its parents.

* `pipelineRecords_rearranged`: the pass over the scopes gives the same records and the same error,
  or the nodes form no graph in either order;
* `runRecords_rearranged`: so do all passes over a run.
-/

namespace BuildMetrics

open Run Trace

/-- The pass does not look at parents. -/
theorem scopeRecords_map_alone (ctx : RunContext) (results : List (Except TraceError Scope)) :
    scopeRecords ctx (results.map (Except.map Scope.alone)) = scopeRecords ctx results := by
  induction results with
  | nil => rfl
  | cons result results ih =>
    cases result with
    | error e => rfl
    | ok s =>
      have hclass : ScopeClass.ofStart? s.alone.start = ScopeClass.ofStart? s.start := rfl
      rw [List.map_cons, Except.map, scopeRecords, scopeRecords, ih, hclass]
      rfl

section

variable {nodes nodes' : List Node} {g g' : Graph}

/-- Two graphs of the same nodes in another order have the same scopes. -/
theorem scopeRecords_walk_rearranged (ctx : RunContext) (h : Rearranged g.nodes g'.nodes) :
    scopeRecords ctx (Matcher.all [] g.walk).1 = scopeRecords ctx (Matcher.all [] g'.walk).1 := by
  have halone (g : Graph) : scopeRecords ctx (Matcher.all [] g.walk).1 =
      scopeRecords ctx (Matcher.all [] (g.walk.map Node.alone)).1 := by
    rw [← List.map_nil (f := PendingEnd.alone), Matcher.all_map_alone, scopeRecords_map_alone,
      List.map_nil]
  rw [halone g, halone g', h.map_alone_walk]

/-- What the pass over the scopes makes of nodes and of the same nodes in another order. -/
theorem pipelineRecords_rearranged (ctx : RunContext) (h : Rearranged nodes nodes') :
    (∃ g g', Graph.ofNodes nodes = .ok g ∧ Graph.ofNodes nodes' = .ok g' ∧
      Rearranged g.nodes g'.nodes ∧ pipelineRecords ctx nodes = pipelineRecords ctx nodes') ∨
    (∃ err err', Graph.ofNodes nodes = .error err ∧ Graph.ofNodes nodes' = .error err' ∧
      pipelineRecords ctx nodes = ([], some (.invalidTrace err)) ∧
      pipelineRecords ctx nodes' = ([], some (.invalidTrace err'))) := by
  cases hg : Graph.ofNodes nodes with
  | ok g =>
    obtain ⟨g', hg', hnodes⟩ := h.ofNodes_ok hg
    refine .inl ⟨g, g', rfl, hg', hnodes, ?_⟩
    rw [pipelineRecords_eq hg, pipelineRecords_eq hg']
    exact scopeRecords_walk_rearranged ctx hnodes
  | error err =>
    obtain ⟨err', herr'⟩ := h.ofNodes_error hg
    refine .inr ⟨err, err', rfl, herr', ?_, ?_⟩
    · rw [pipelineRecords, hg]
    · rw [pipelineRecords, herr']

end

/-! ## All passes -/

/-- The runs differ at most in the order of their nodes and of the parents of these. -/
structure Run.Event.Rearranged (e e' : Event) : Prop where
  /-- nothing but the trace may differ -/
  rest : { e with trace := none } = { e' with trace := none }
  /-- the trace is there or not, and has the same nodes -/
  trace : Option.Rel Trace.Rearranged e.trace e'.trace

/-- The pass over the scopes is found among those of the run. -/
theorem pass?_pipeline {e : Event} {nodes : List Node} (h : e.trace = some nodes) (config : Config)
    (now : Millis) (property : Option JobProperty) {records : List Record}
    {error : Option TraceError}
    (hfound : pipelineRecords ⟨e.run, .ofConfig config now, config, property⟩ nodes =
      (records, error)) :
    (runRecords config now e property).pass? .pipeline = some ⟨.pipeline, records, error⟩ := by
  simp [runRecords, RunRecords.pass?, pipelinePass, h, hfound]

/-- **The order of the nodes does not matter.** A run and the same run with its nodes, and the
parents of each, in another order give the same records in each pass. Either the nodes form a graph
in both orders, the walks yield the same numbers, and the records and the errors are the same; or
they form none, there is no record of a scope, and the error says that a number occurs twice if and
only if one does. -/
theorem runRecords_rearranged {e e' : Event} (h : e.Rearranged e') (config : Config) (now : Millis)
    (property : Option JobProperty) :
    ((runRecords config now e property).passes.map fun p => (p.pass, p.records)) =
      ((runRecords config now e' property).passes.map fun p => (p.pass, p.records)) ∧
    ∀ nodes nodes', e.trace = some nodes → e'.trace = some nodes' →
      (∃ g g', Graph.ofNodes nodes = .ok g ∧ Graph.ofNodes nodes' = .ok g' ∧
        g.walk.map Node.id = g'.walk.map Node.id ∧
        runRecords config now e property = runRecords config now e' property) ∨
      (∃ err err', Graph.ofNodes nodes = .error err ∧ Graph.ofNodes nodes' = .error err' ∧
        (runRecords config now e property).pass? .pipeline =
          some ⟨.pipeline, [], some (.invalidTrace err)⟩ ∧
        (runRecords config now e' property).pass? .pipeline =
          some ⟨.pipeline, [], some (.invalidTrace err')⟩ ∧
        ((∃ id, err = .duplicateNode id) ↔ ¬ (nodes.map Node.id).Nodup) ∧
        ((∃ id, err' = .duplicateNode id) ↔ ¬ (nodes'.map Node.id).Nodup)) := by
  obtain ⟨run, trace, tests, coverage⟩ := e
  obtain ⟨run', trace', tests', coverage'⟩ := e'
  obtain ⟨hrest, htrace⟩ := h
  obtain ⟨rfl, -, rfl, rfl⟩ := Event.mk.inj hrest
  constructor
  · have hpass : ((pipelinePass ⟨run, .ofConfig config now, config, property⟩ trace).map
          fun p => (p.pass, p.records)) =
        (pipelinePass ⟨run, .ofConfig config now, config, property⟩ trace').map
          fun p => (p.pass, p.records) := by
      cases htrace with
      | none => rfl
      | some hnodes =>
        rcases pipelineRecords_rearranged ⟨run, .ofConfig config now, config, property⟩ hnodes with
          ⟨-, -, -, -, -, heq⟩ | ⟨err, err', -, -, heq, heq'⟩
        · simp only [pipelinePass, heq]
        · simp only [pipelinePass, heq, heq', List.map_cons, List.map_nil]
    simp only [runRecords, List.map_cons, List.map_append, hpass]
  · rintro nodes nodes' rfl rfl
    cases htrace with
    | some hnodes =>
      rcases pipelineRecords_rearranged ⟨run, .ofConfig config now, config, property⟩ hnodes with
        ⟨g, g', hg, hg', hwalk, heq⟩ | ⟨err, err', herr, herr', heq, heq'⟩
      · refine .inl ⟨g, g', hg, hg', ?_, ?_⟩
        · rw [g.map_id_walk, g'.map_id_walk, hwalk.walkIds_eq]
        · simp only [runRecords, pipelinePass, heq]
      · exact .inr ⟨err, err', herr, herr', pass?_pipeline rfl config now property heq,
          pass?_pipeline rfl config now property heq', Graph.duplicateNode_iff_of_error herr,
          Graph.duplicateNode_iff_of_error herr'⟩

/-- A run whose trace forks, with two ends that nothing ran after, and a node that names a parent
twice. -/
def forkedRun : Event where
  run := stagedRun
  trace := some
    [{ bareNode .scopeStart 1 [] with displayName := "Build", markers := [.label "Build"] },
      bareNode .other 2 [1], bareNode .other 3 [1], bareNode .scopeEnd 4 [3, 2, 3],
      bareNode .other 5 [2]]
  tests := none
  coverage := none

/-- The same run, listed from its end. -/
def forkedRunBackwards : Event where
  run := stagedRun
  trace := some
    [bareNode .other 5 [2], bareNode .scopeEnd 4 [2, 3, 3], bareNode .other 3 [1],
      bareNode .other 2 [1],
      { bareNode .scopeStart 1 [] with displayName := "Build", markers := [.label "Build"] }]
  tests := none
  coverage := none

/-- A run with two branches, and the same run listed backwards. -/
theorem runRecords_rearranged_forked :
    forkedRun.Rearranged forkedRunBackwards ∧
    runRecords Config.default.cleaned 0 forkedRun none =
      runRecords Config.default.cleaned 0 forkedRunBackwards none := by
  have htrace : Option.Rel Trace.Rearranged forkedRun.trace forkedRunBackwards.trace := by
    refine .some ⟨_, (List.reverse_perm _).symm, ?_⟩
    refine .cons ⟨rfl, .refl _⟩ (.cons ⟨rfl, ?_⟩ (.cons ⟨rfl, .refl _⟩ (.cons ⟨rfl, .refl _⟩
      (.cons ⟨rfl, .refl _⟩ .nil))))
    decide
  have hrearranged : forkedRun.Rearranged forkedRunBackwards := ⟨rfl, htrace⟩
  obtain ⟨-, hpipeline⟩ := runRecords_rearranged hrearranged Config.default.cleaned 0 none
  refine ⟨hrearranged, ?_⟩
  rcases hpipeline _ _ rfl rfl with ⟨g, g', -, -, -, heq⟩ | ⟨err, -, herr, -⟩
  · exact heq
  · rw [Graph.ofNodes_eq_ok (by decide) (Graph.firstUnknown?_eq_none_iff.mp rfl)] at herr
    cases herr

end BuildMetrics
