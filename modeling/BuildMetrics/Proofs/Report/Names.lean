import BuildMetrics.Proofs.Name
import BuildMetrics.Proofs.Report.Tags

/-!
# The names of the records of a report

Each record of a run, and that of a timed step, is called by the path of its configuration, a dot
and segments of its own. All of these are in the alphabet of names, whatever the job, its stages,
branches and tests, or the step are called. So a line shows the name of a record as it is, and lines
of records with different names tell the names apart.

* `mem_all`: which records a run has;
* `Template.makes_of_mem_all`, `Template.makes_stepRecord`: each is made from the template under a
  name in the alphabet;
* `name_of_built`: what follows of its name, its line and its source.
-/

namespace BuildMetrics

open Run Trace

variable {config : Config} {now : Millis} {event : Event} {property : Option JobProperty}
  {ctx : RunContext} {r : Record}

/-- The records of a run are those of its passes. -/
theorem mem_all :
    r ∈ (runRecords config now event property).all ↔
      let ctx := RunContext.ofEvent config now event property
      r = jobRecord ctx ∨
      (∃ nodes, event.trace = some nodes ∧ r ∈ (pipelineRecords ctx nodes).1) ∨
      (∃ report, event.tests = some report ∧ ctx.junitEnabled = true ∧
        r ∈ testRecords ctx report) ∨
      ∃ report, event.coverage = some report ∧ ctx.jacocoEnabled = true ∧
        r ∈ coverageRecords ctx report := by
  have hpipeline (ctx : RunContext) :
      r ∈ (pipelinePass ctx event.trace).flatMap PassRecords.records ↔
        ∃ nodes, event.trace = some nodes ∧ r ∈ (pipelineRecords ctx nodes).1 := by
    cases event.trace with
    | none => simp [pipelinePass]
    | some nodes => simp [pipelinePass]
  have htests (ctx : RunContext) : r ∈ (testPass ctx event.tests).flatMap PassRecords.records ↔
      ∃ report, event.tests = some report ∧ ctx.junitEnabled = true ∧
        r ∈ testRecords ctx report := by
    cases event.tests with
    | none => simp [testPass]
    | some report => cases hjunit : ctx.junitEnabled <;> simp [testPass, hjunit]
  have hcoverage (ctx : RunContext) :
      r ∈ (coveragePass ctx event.coverage).flatMap PassRecords.records ↔
        ∃ report, event.coverage = some report ∧ ctx.jacocoEnabled = true ∧
          r ∈ coverageRecords ctx report := by
    cases event.coverage with
    | none => simp [coveragePass]
    | some report => cases hjacoco : ctx.jacocoEnabled <;> simp [coveragePass, hjacoco]
  rw [RunRecords.all, runRecords, List.flatMap_cons, List.flatMap_append, List.flatMap_append,
    List.mem_append, List.mem_append, List.mem_append, hpipeline, htests, hcoverage,
    List.mem_singleton, or_assoc]
  rfl

/-! ## Made from the template -/

/-- The record is made from the template, under a name in the alphabet. -/
def Template.Makes (t : Template) (r : Record) : Prop :=
  ∃ name value tags, Name.IsDotted name ∧ r = t.record name value tags

namespace Template

/-- A record with a clean name is one that the template makes. -/
theorem makes_record (t : Template) {name : String} (h : Name.IsDotted name) (value : Float)
    (tags : TagSet) : t.Makes (t.record name value tags) :=
  ⟨name, value, tags, h, rfl⟩

end Template

theorem isDotted_scopeKind (k : ScopeKind) : Name.IsDotted k.name := by
  cases k <;> decide

theorem isDotted_coverageCategory (c : CoverageCategory) : Name.IsDotted c.segment := by
  cases c <;> decide

theorem makes_jobRecord (ctx : RunContext) : ctx.template.Makes (jobRecord ctx) :=
  Template.makes_record _ (Name.isDotted_job _) _ _

theorem makes_scopeRecord {s : Scope} {c : ScopeClass} (h : ScopeClass.ofStart? s.start = some c) :
    ctx.template.Makes (scopeRecord ctx s c) := by
  have hname : Name.IsDotted c.name := by
    rw [ScopeClass.ofStart?] at h
    split at h
    · obtain rfl := Option.some.inj h
      exact Name.isDotted_category _
    · split at h
      · obtain rfl := Option.some.inj h
        exact Name.isDotted_category _
      · cases h
  refine Template.makes_record _ ?_ _ _
  simp only [Name.isDotted_append]
  exact ⟨⟨⟨⟨Name.isDotted_job _, by decide⟩, isDotted_scopeKind _⟩, by decide⟩, hname⟩

theorem makes_of_mem_scopeRecords {results : List (Except TraceError Scope)}
    (h : r ∈ (scopeRecords ctx results).1) : ctx.template.Makes r := by
  induction results with
  | nil => cases h
  | cons result results ih =>
    cases result with
    | error e => cases h
    | ok s =>
      rw [scopeRecords] at h
      cases hclass : ScopeClass.ofStart? s.start with
      | none =>
        rw [hclass] at h
        exact ih h
      | some c =>
        rw [hclass] at h
        rcases List.mem_cons.mp h with rfl | h
        · exact makes_scopeRecord hclass
        · exact ih h

theorem makes_of_mem_pipelineRecords {nodes : List Node} (h : r ∈ (pipelineRecords ctx nodes).1) :
    ctx.template.Makes r := by
  rw [pipelineRecords] at h
  split at h
  · cases h
  · exact makes_of_mem_scopeRecords h

theorem makes_of_mem_testRecords {report : TestReport} (h : r ∈ testRecords ctx report) :
    ctx.template.Makes r := by
  have hjunit : Name.IsDotted "junit." := by decide
  have hjob : Name.IsDotted ctx.job := Name.isDotted_job _
  have hcount {kind : String} (hkind : Name.IsDotted kind) :
      Name.IsDotted ("junit." ++ ctx.job ++ "." ++ kind ++ "count") := by
    simp only [Name.isDotted_append]
    exact ⟨⟨⟨⟨hjunit, hjob⟩, by decide⟩, hkind⟩, by decide⟩
  rcases List.mem_append.mp h with h | h
  · simp only [testTotals, List.mem_cons, List.not_mem_nil, or_false] at h
    rcases h with rfl | rfl | rfl | rfl | rfl
    · exact Template.makes_record _ (Name.isDotted_append.mpr ⟨hjunit, hjob⟩) _ _
    all_goals exact Template.makes_record _ (hcount (by decide)) _ _
  · obtain ⟨⟨outcome, t⟩, -, rfl⟩ := List.mem_map.mp h
    exact Template.makes_record _ (Name.isDotted_append.mpr ⟨hjunit, Name.isDotted_test _⟩) _ _

theorem makes_of_mem_coverageRecords {report : CoverageReport}
    (h : r ∈ coverageRecords ctx report) : ctx.template.Makes r := by
  obtain ⟨e, -, h⟩ := List.mem_flatMap.mp h
  have hname : Name.IsDotted (ctx.job ++ ".jacoco." ++ e.category.segment) := by
    simp only [Name.isDotted_append]
    exact ⟨⟨Name.isDotted_job _, by decide⟩, isDotted_coverageCategory _⟩
  simp only [coverageEntryRecords, List.mem_cons, List.not_mem_nil, or_false] at h
  rcases h with rfl | rfl | rfl | rfl | rfl
  · exact Template.makes_record _ hname _ _
  all_goals exact Template.makes_record _ (Name.isDotted_append.mpr ⟨hname, by decide⟩) _ _

/-- Each record of a run is made from the template. -/
theorem makes_of_mem_all (h : r ∈ (runRecords config now event property).all) :
    (Template.ofConfig config now).Makes r := by
  rcases mem_all.mp h with rfl | ⟨nodes, -, h⟩ | ⟨report, -, -, h⟩ | ⟨report, -, -, h⟩
  · exact makes_jobRecord (.ofEvent config now event property)
  · exact makes_of_mem_pipelineRecords h
  · exact makes_of_mem_testRecords h
  · exact makes_of_mem_coverageRecords h

theorem makes_stepRecord (config : Config) (now : Millis) (step : StepEvent) :
    (Template.ofConfig config now).Makes (stepRecord config now step) :=
  Template.makes_record _
    (Name.isDotted_append.mpr ⟨by decide, Name.isDotted_step _⟩) _ _

/-! ## Names, lines and sources -/

/-- The record is one of a run or that of a timed step. -/
def Config.Builds (config : Config) (r : Record) : Prop :=
  (∃ now event property, r ∈ (runRecords config now event property).all) ∨
    ∃ now step, r = stepRecord config now step

/-- Whatever a configuration builds, its template makes. -/
theorem Config.Builds.makes (h : config.Builds r) :
    ∃ now, (Template.ofConfig config now).Makes r := by
  rcases h with ⟨now, event, property, h⟩ | ⟨now, step, rfl⟩
  · exact ⟨now, makes_of_mem_all h⟩
  · exact ⟨now, makes_stepRecord config now step⟩

/-- What stands between the first two quotes of a line. -/
def nameInLine (line : String) : String :=
  String.ofList ((line.toList.drop 1).takeWhile (· ≠ '"'))

/-- A line begins with the clean name between quotes. -/
theorem line_eq_of_isDotted (h : Name.IsDotted r.name) :
    ∃ rest, r.line = "\"" ++ r.name ++ "\"" ++ rest := by
  refine ⟨String.ofList (r.lineChars.drop (r.name.toList.length + 2)), String.toList_inj.mp ?_⟩
  rw [Record.line, Record.lineChars, h.hyphenate_eq]
  simp

/-- A clean name is found in its line as it stands. -/
theorem nameInLine_line (h : Name.IsDotted r.name) : nameInLine r.line = r.name := by
  obtain ⟨rest, hline⟩ := line_eq_of_isDotted h
  have hname : ∀ c ∈ r.name.toList, decide (c ≠ '"') = true := by
    intro c hc
    refine decide_eq_true fun hquote => h.quote_not_mem ?_
    rwa [← hquote]
  have hlist : r.line.toList = '"' :: (r.name.toList ++ '"' :: rest.toList) := by
    rw [hline]
    simp
  rw [nameInLine, hlist, List.drop_succ_cons, List.drop_zero, List.takeWhile_append_of_pos hname,
    List.takeWhile_cons_of_neg (by decide), List.append_nil, String.ofList_toList]

/-- With a proxy there is a source. -/
theorem Config.sourceName_ne_empty (h : config.isConfigured = true) : config.sourceName ≠ "" := by
  have hhost : config.proxyHostname ≠ "" := by
    intro hempty
    rw [Config.isConfigured, hempty] at h
    exact absurd h (by decide)
  rw [Config.sourceName]
  split
  · split
    · exact hhost
    · next hsource => rwa [String.isEmpty_iff] at hsource
  · exact hhost

/-- The name of what is made under a path that is in the alphabet. -/
theorem name_of_makes {given : Config} (h : given.normalized = .ok config)
    (hr : (Template.ofConfig config now).Makes r) :
    Name.IsDotted r.name ∧ ∃ rest, r.name = config.jobMetricsPrefix ++ "." ++ rest := by
  obtain ⟨name, value, tags, hname, rfl⟩ := hr
  have hpath : (Template.ofConfig config now).path ≠ "" := Config.jobMetricsPrefix_ne_empty h
  have heq : ((Template.ofConfig config now).record name value tags).name =
      config.jobMetricsPrefix ++ "." ++ name := Template.metricName_eq hpath name
  obtain ⟨-, rfl⟩ := Config.normalized_eq_ok_iff.mp h
  refine ⟨?_, name, heq⟩
  rw [heq]
  simp only [Name.isDotted_append]
  exact ⟨⟨Name.isDotted_dotted _, by decide⟩, hname⟩

/-- **Every name is fit for a line.** Under a normal configuration the name of each record begins
with the path and a dot and is in the alphabet. So no character of it becomes a hyphen, its line
begins with it in quotes, and it can be read off the line, where no other name is read. If there is
a proxy, the record has a source. -/
theorem name_of_built {given : Config} (h : given.normalized = .ok config) (hr : config.Builds r) :
    (∃ rest, r.name = config.jobMetricsPrefix ++ "." ++ rest) ∧
    (∀ c ∈ r.name.toList, Name.isDottedChar c = true) ∧
    Record.hyphenate Record.isNameChar r.name.toList = r.name.toList ∧
    (∃ rest, r.line = "\"" ++ r.name ++ "\"" ++ rest) ∧
    (∀ {given' config' : Config} {s : Record}, given'.normalized = .ok config' →
      config'.Builds s → r.name ≠ s.name → nameInLine r.line ≠ nameInLine s.line) ∧
    (config.isConfigured = true → r.source ≠ "") := by
  obtain ⟨now, hmakes⟩ := hr.makes
  obtain ⟨hdotted, hrest⟩ := name_of_makes h hmakes
  refine ⟨hrest, hdotted, hdotted.hyphenate_eq, line_eq_of_isDotted hdotted, ?_, ?_⟩
  · intro given' config' s h' hs hne
    obtain ⟨now', hmakes'⟩ := hs.makes
    obtain ⟨hdotted', -⟩ := name_of_makes h' hmakes'
    rwa [nameInLine_line hdotted, nameInLine_line hdotted']
  · intro hproxy
    obtain ⟨-, -, -, -, rfl⟩ := hmakes
    exact Config.sourceName_ne_empty hproxy

/-- A configuration with a proxy and a path that is not clean. -/
def spelledConfig : Config :=
  { Config.default with
    proxyHostname := " proxy ", jobMetricsPrefix := "Builds\"~", source := some "" }

/-- A timed step whose name is in form encoding, with a capital letter beyond ASCII. -/
def spelledStep : StepEvent := ⟨"Nightly", "5", "%C3%89TAPE+\"1\"", 0, 700⟩

/-- The record of a step whose name is spelled with other characters. -/
theorem name_of_built_spelled :
    spelledConfig.normalized = .ok spelledConfig.cleaned ∧
    spelledConfig.cleaned.Builds (stepRecord spelledConfig.cleaned 0 spelledStep) ∧
    (stepRecord spelledConfig.cleaned 0 spelledStep).name = "builds__.step._tape__1_" ∧
    (∃ rest, (stepRecord spelledConfig.cleaned 0 spelledStep).line =
      "\"" ++ (stepRecord spelledConfig.cleaned 0 spelledStep).name ++ "\"" ++ rest) ∧
    (stepRecord spelledConfig.cleaned 0 spelledStep).source ≠ "" := by
  have hconfig : spelledConfig.normalized = .ok spelledConfig.cleaned :=
    Config.normalized_eq_ok_iff.mpr ⟨by decide, rfl⟩
  have hbuilt : spelledConfig.cleaned.Builds (stepRecord spelledConfig.cleaned 0 spelledStep) :=
    .inr ⟨0, spelledStep, rfl⟩
  obtain ⟨-, -, -, hline, -, hsource⟩ := name_of_built hconfig hbuilt
  exact ⟨hconfig, hbuilt, by decide, hline, hsource (by decide)⟩

end BuildMetrics
