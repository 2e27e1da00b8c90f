import BuildMetrics.Proofs.Report.Tags

/-!
# Runs with the same records

What the passes over a run look at, and so what they cannot tell apart.

* `runRecords_eq`: runs that look alike to the passes have the same records;
* `runRecords_unselected`: runs that differ in parameters that the job does not ask for look alike.
-/

namespace BuildMetrics

open Run Trace

/-- Two runs that look alike to all passes: the job has the same segment, the parameters ask for the
same tags, and the same passes apply. -/
structure RunContext.Alike (ctx ctx' : RunContext) : Prop where
  /-- the segment of the job -/
  job : ctx.job = ctx'.job
  /-- the number of the run -/
  buildId : ctx.run.buildId = ctx'.run.buildId
  /-- how long it took -/
  duration : ctx.run.duration = ctx'.run.duration
  /-- how it ended -/
  result : ctx.run.result = ctx'.run.result
  /-- what all records share -/
  template : ctx.template = ctx'.template
  /-- the tags that the parameters ask for -/
  parameters : parameterTags ctx.run ctx.config ctx.property =
    parameterTags ctx'.run ctx'.config ctx'.property
  /-- the tests are measured or not -/
  junit : ctx.junitEnabled = ctx'.junitEnabled
  /-- the coverage is measured or not -/
  jacoco : ctx.jacocoEnabled = ctx'.jacocoEnabled

namespace RunContext.Alike

variable {ctx ctx' : RunContext} (h : ctx.Alike ctx')
include h

theorem statusTags : ctx.statusTags = ctx'.statusTags := by
  rw [RunContext.statusTags, RunContext.statusTags, h.template, h.result, h.buildId]

theorem addParameterTags (tags : TagSet) :
    ctx.addParameterTags tags = ctx'.addParameterTags tags := by
  rw [RunContext.addParameterTags, RunContext.addParameterTags, h.parameters]

theorem jobRecord : jobRecord ctx = jobRecord ctx' := by
  rw [BuildMetrics.jobRecord, BuildMetrics.jobRecord, h.template, h.job, h.duration, h.statusTags,
    h.addParameterTags]

theorem scopeRecords (results : List (Except TraceError Scope)) :
    scopeRecords ctx results = scopeRecords ctx' results := by
  induction results with
  | nil => rfl
  | cons result results ih =>
    cases result with
    | error e => rfl
    | ok s =>
      rw [BuildMetrics.scopeRecords, BuildMetrics.scopeRecords, ih]
      cases ScopeClass.ofStart? s.start with
      | none => rfl
      | some c => simp only [scopeRecord, h.template, h.job, h.buildId]

theorem pipelinePass (trace : Option (List Node)) :
    pipelinePass ctx trace = pipelinePass ctx' trace := by
  cases trace with
  | none => rfl
  | some nodes =>
    rw [BuildMetrics.pipelinePass, BuildMetrics.pipelinePass, pipelineRecords, pipelineRecords]
    cases Graph.ofNodes nodes with
    | error e => rfl
    | ok g => simp only [h.scopeRecords]

theorem testRecords (report : TestReport) : testRecords ctx report = testRecords ctx' report := by
  have hrecord : testRecord ctx = testRecord ctx' := by
    funext tags outcome t
    rw [testRecord, testRecord, h.template]
  simp only [BuildMetrics.testRecords, testTotals, hrecord, h.template, h.job, h.buildId,
    h.addParameterTags]

theorem testPass (tests : Option TestReport) : testPass ctx tests = testPass ctx' tests := by
  cases tests with
  | none => rfl
  | some report =>
    rw [BuildMetrics.testPass, BuildMetrics.testPass, h.junit, h.testRecords]

theorem coveragePass (coverage : Option CoverageReport) :
    coveragePass ctx coverage = coveragePass ctx' coverage := by
  cases coverage with
  | none => rfl
  | some report =>
    have hentry : coverageEntryRecords ctx = coverageEntryRecords ctx' := by
      funext e
      simp only [coverageEntryRecords, h.template, h.job, h.statusTags]
    rw [BuildMetrics.coveragePass, BuildMetrics.coveragePass, h.jacoco, coverageRecords,
      coverageRecords, hentry]

end RunContext.Alike

/-- Runs that look alike, with the same trace, the same tests and the same coverage, have the same
records. -/
theorem runRecords_eq {config : Config} {now : Millis} {e e' : Event}
    {property property' : Option JobProperty}
    (h : (RunContext.ofEvent config now e property).Alike (.ofEvent config now e' property'))
    (htrace : e.trace = e'.trace) (htests : e.tests = e'.tests)
    (hcoverage : e.coverage = e'.coverage) :
    runRecords config now e property = runRecords config now e' property' := by
  have hpasses :
      (runRecords config now e property).passes = (runRecords config now e' property').passes := by
    refine congrArg₂ List.cons (congrArg (PassRecords.mk .job [·] none) h.jobRecord) ?_
    refine congrArg₂ _ (congrArg₂ _ ?_ ?_) ?_
    · exact htrace ▸ h.pipelinePass e.trace
    · exact htests ▸ h.testPass e.tests
    · exact hcoverage ▸ h.coveragePass e.coverage
  exact (RunRecords.mk.injEq ..).mpr ⟨h.job, h.buildId, hpasses⟩

/-! ## Parameters that are not asked for -/

namespace Run

/-- The run with other parameters. -/
def Event.withParameters (e : Event) (parameters : List Parameter) : Event :=
  { e with run := { e.run with parameters } }

/-- The runs differ at most in parameters with other names than these. -/
structure Event.SameFor (names : List String) (e e' : Event) : Prop where
  /-- nothing but the parameters may differ -/
  rest : e.withParameters [] = e'.withParameters []
  /-- those with these names are the same, in the same order -/
  parameters : (e.run.parameters.filter (·.name ∈ names)) =
    e'.run.parameters.filter (·.name ∈ names)

/-- To look up a name of a list, one needs only the parameters with names of the list. -/
theorem Summary.parameter?_of_mem (run : Summary) {names : List String} {name : String}
    (h : name ∈ names) :
    run.parameter? name =
      (run.parameters.filter (·.name ∈ names)).find? fun p => p.name = name := by
  rw [List.find?_filter, parameter?]
  congr 1
  funext p
  by_cases hp : p.name = name
  · simp [hp, h]
  · simp [hp]

namespace Event.SameFor

variable {names : List String} {e e' : Event} (h : e.SameFor names e')
include h

/-- The other event is this one with other parameters. -/
theorem eq_withParameters : e' = e.withParameters e'.run.parameters :=
  (congrArg (Event.withParameters · e'.run.parameters) h.rest).symm

/-- The passes look at parameters for their tags only. -/
theorem runRecords_eq {config : Config} {property : Option JobProperty} (now : Millis)
    (htags : parameterTags e.run config property = parameterTags e'.run config property) :
    runRecords config now e property = runRecords config now e' property := by
  rw [h.eq_withParameters] at htags ⊢
  exact BuildMetrics.runRecords_eq ⟨rfl, rfl, rfl, rfl, rfl, htags, rfl, rfl⟩ rfl rfl rfl

/-- The parameters that are named have the same tags in both events. -/
theorem selectedParameterTags_eq :
    selectedParameterTags e.run names = selectedParameterTags e'.run names := by
  have hfound : names.filterMap e.run.parameter? = names.filterMap e'.run.parameter? := by
    refine List.filterMap_congr fun name hname => ?_
    rw [e.run.parameter?_of_mem hname, e'.run.parameter?_of_mem hname, h.parameters]
  rw [selectedParameterTags, selectedParameterTags, hfound]

end Event.SameFor

end Run

/-- A job that names parameters asks for these. -/
theorem parameterTags_selected {property : JobProperty}
    (henabled : property.enableParameters = true) (hselected : property.selectedParameters ≠ [])
    (run : Summary) (config : Config) :
    parameterTags run config (some property) =
      selectedParameterTags run property.selectedParameters := by
  rw [parameterTags, Option.filter_some, if_pos henabled]
  cases hnames : property.selectedParameters with
  | nil => exact absurd hnames hselected
  | cons name names => simp only [hnames]

/-- Where nobody asks for parameters, there are no tags of them. -/
theorem parameterTags_none {property : Option JobProperty} {config : Config}
    (hconfig : config.parametersForAll = false)
    (hproperty : ∀ p ∈ property, p.enableParameters = false) (run : Summary) :
    parameterTags run config property = [] := by
  have hfilter : property.filter JobProperty.enableParameters = none := by
    rw [Option.filter_eq_none_iff]
    intro p hp henabled
    simp [hproperty p hp] at henabled
  simp [parameterTags, hfilter, hconfig]

/-- **Parameters that are not asked for do not matter.** A job that names the parameters it asks for
has the same records whatever other parameters the run has, in whatever places. Where neither the
job nor the configuration asks for parameters, the records are the same whatever parameters the run
has. -/
theorem runRecords_unselected (config : Config) (now : Millis) (e e' : Event) :
    (∀ property : JobProperty, property.enableParameters = true →
      property.selectedParameters ≠ [] → e.SameFor property.selectedParameters e' →
      runRecords config now e (some property) = runRecords config now e' (some property)) ∧
    (config.parametersForAll = false → ∀ property : Option JobProperty,
      (∀ p ∈ property, p.enableParameters = false) →
      e.withParameters [] = e'.withParameters [] →
      runRecords config now e property = runRecords config now e' property) := by
  constructor
  · intro property henabled hselected h
    refine h.runRecords_eq now ?_
    rw [parameterTags_selected henabled hselected, parameterTags_selected henabled hselected,
      h.selectedParameterTags_eq]
  · intro hconfig property hproperty hrest
    have h : e.SameFor [] e' := ⟨hrest, by simp⟩
    refine h.runRecords_eq now ?_
    rw [parameterTags_none hconfig hproperty, parameterTags_none hconfig hproperty]

/-- A job that asks for a branch and for its tests. -/
def branchProperty : JobProperty :=
  { JobProperty.default with
    enableJunit := true, enableParameters := true, jobParameters := "BRANCH" }

/-- A run with a token, given twice, and with a second branch. -/
def secretEvent : Event :=
  crowdedEvent.withParameters [⟨"TOKEN", some "s3cret"⟩, ⟨"BRANCH", some "main"⟩,
    ⟨"TOKEN", some "older"⟩, ⟨"BRANCH", some "next"⟩]

/-- The same run with no token but with another parameter. -/
def plainEvent : Event :=
  crowdedEvent.withParameters [⟨"BRANCH", some "main"⟩, ⟨"BRANCH", some "next"⟩, ⟨"DEBUG", none⟩]

/-- A secret that the job does not name is in none of its records. -/
theorem runRecords_unselected_branch :
    parameterTags secretEvent.run Config.default (some branchProperty) = [("p_BRANCH", "main")] ∧
    runRecords Config.default 0 secretEvent (some branchProperty) =
      runRecords Config.default 0 plainEvent (some branchProperty) ∧
    runRecords Config.default 0 secretEvent none = runRecords Config.default 0 plainEvent none := by
  obtain ⟨hselected, hnone⟩ := runRecords_unselected Config.default 0 secretEvent plainEvent
  refine ⟨by decide, hselected branchProperty rfl (by decide) ⟨rfl, by decide⟩, ?_⟩
  exact hnone rfl none nofun rfl

end BuildMetrics
