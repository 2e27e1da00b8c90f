import BuildMetrics.Proofs.Report.Template
import BuildMetrics.Proofs.Tags
import BuildMetrics.Report.Passes
import Mathlib.Data.List.Perm.Subperm

/-!
# The tags of the records of a run

A record has tags of its own, and some records have tags of parameters next to them. The first pass
puts its own tags down before it takes those of parameters, the pass over the tests only afterwards;
either way there is room for both, since the limits are normal and the names of parameters get a
lead that no tag of a record's own has.

* `RunContext.exists_share`: what a set takes of the parameters is a share: it comes behind what is
  there, keeps to the limit of one source, and leaves room for three more tags;
* `runRecords_tags`: hence each record has exactly its own tags and, if it may have them, a share.
-/

namespace BuildMetrics

open Run Trace

/-! ## Tags of parameters -/

/-- The name of a tag has the lead that the names of parameters get. -/
def isParameterKey (key : String) : Bool := "p_".toList.isPrefixOf key.toList

/-- Names of parameters get the lead. -/
theorem isParameterKey_append (name : String) : isParameterKey ("p_" ++ name) = true := by
  rw [isParameterKey, String.toList_append]
  rfl

variable {run : Summary} {config : Config} {property : Option JobProperty}

/-- A parameter has a tag if it has a value that is not empty; the tag has this value. -/
theorem parameterTag?_eq_some_iff {p : Parameter} {e : String × String} :
    parameterTag? p = some e ↔
      ∃ value, p.value = some value ∧ value ≠ "" ∧ e = ("p_" ++ p.name, value) := by
  rw [parameterTag?, Option.map_eq_some_iff, Parameter.filled?]
  refine exists_congr fun value => ?_
  rw [Option.filter_eq_some_iff, Bool.not_eq_true', ← Bool.not_eq_true, String.isEmpty_iff,
    and_assoc, eq_comm (a := e)]

/-- The tag of a parameter is called like the parameter, with the lead in front. -/
theorem key_of_parameterTag? {p : Parameter} {e : String × String} (h : parameterTag? p = some e) :
    e.1 = "p_" ++ p.name := by
  obtain ⟨value, -, -, rfl⟩ := parameterTag?_eq_some_iff.mp h
  rfl

/-- A tag that the parameters ask for is the tag of a parameter of the run. -/
theorem exists_of_mem_parameterTags {e : String × String}
    (h : e ∈ parameterTags run config property) :
    ∃ p ∈ run.parameters, parameterTag? p = some e := by
  have hall (h : e ∈ allParameterTags run) : ∃ p ∈ run.parameters, parameterTag? p = some e :=
    List.mem_filterMap.mp h
  have hselected {names : List String} (h : e ∈ selectedParameterTags run names) :
      ∃ p ∈ run.parameters, parameterTag? p = some e := by
    obtain ⟨p, hp, htag⟩ := List.mem_filterMap.mp h
    obtain ⟨name, -, hname⟩ := List.mem_filterMap.mp hp
    exact ⟨p, List.mem_of_find?_eq_some hname, htag⟩
  rw [parameterTags] at h
  split at h
  · split at h
    · exact hall h
    · exact hselected h
  · split at h
    · exact hall h
    · cases h

/-- Whatever the parameters ask for has the lead. -/
theorem isParameterKey_of_mem {e : String × String} (h : e ∈ parameterTags run config property) :
    isParameterKey e.1 = true := by
  obtain ⟨p, -, htag⟩ := exists_of_mem_parameterTags h
  rw [key_of_parameterTag? htag]
  exact isParameterKey_append _

/-- However often a parameter is asked for, there is one tag of it. -/
theorem length_le_of_subset_parameterTags {extra : TagEntries} (hkeys : extra.keys.Nodup)
    (h : extra ⊆ parameterTags run config property) : extra.length ≤ run.parameters.length := by
  have hnames : extra.keys ⊆ run.parameters.map fun p => "p_" ++ p.name := by
    intro key hkey
    obtain ⟨e, he, rfl⟩ := List.mem_map.mp hkey
    obtain ⟨p, hp, htag⟩ := exists_of_mem_parameterTags (h he)
    exact List.mem_map.mpr ⟨p, hp, (key_of_parameterTag? htag).symm⟩
  have hlength : extra.keys.length ≤ (run.parameters.map fun p => "p_" ++ p.name).length :=
    (List.subperm_of_subset hkeys hnames).length_le
  rwa [TagEntries.keys, List.length_map, List.length_map] at hlength

/-! ## Shares -/

namespace RunContext

variable {ctx : RunContext} {extra : TagEntries} {s : TagSet}

/-- The limits have room for three tags next to the tags of parameters. -/
def HasRoom (ctx : RunContext) : Prop :=
  ∀ count ≤ ctx.template.limits.maxParameterTags.toNat, count ≤ ctx.run.parameters.length →
    count + Config.fixedTags ≤ ctx.template.limits.maxTags.toNat

/-- The tags of parameters that a set has taken. -/
structure IsShare (ctx : RunContext) (extra : TagEntries) : Prop where
  /-- the parameters ask for them -/
  asked : extra ⊆ parameterTags ctx.run ctx.config ctx.property
  /-- each is called like a parameter of the run and has its value -/
  told : ∀ e ∈ extra, ∃ p ∈ ctx.run.parameters, ∃ value, p.value = some value ∧ value ≠ "" ∧
    e = ("p_" ++ p.name, value)
  /-- they are no more than one source may have -/
  length_le : extra.length ≤ ctx.template.limits.maxParameterTags.toNat
  /-- there is room for three more tags -/
  room : extra.length + 3 ≤ ctx.template.limits.maxTags.toNat

/-- Nothing at all is a share. -/
theorem isShare_nil (h : ctx.HasRoom) : ctx.IsShare [] where
  asked := List.nil_subset _
  told := fun _ he => absurd he List.not_mem_nil
  length_le := Nat.zero_le _
  room := h 0 (Nat.zero_le _) (Nat.zero_le _)

theorem IsShare.isParameterKey (h : ctx.IsShare extra) {e : String × String} (he : e ∈ extra) :
    isParameterKey e.1 = true :=
  isParameterKey_of_mem (h.asked he)

/-- No tag of a share is called by a name without the lead. -/
theorem IsShare.not_mem_keys (h : ctx.IsShare extra) {key : String}
    (hkey : BuildMetrics.isParameterKey key = false) : key ∉ extra.keys := by
  intro hmem
  obtain ⟨e, he, rfl⟩ := List.mem_map.mp hmem
  rw [h.isParameterKey he] at hkey
  cases hkey

/-- **What a set takes of the parameters is a share.** -/
theorem exists_share (hroom : ctx.HasRoom) (hlimits : s.limits = ctx.template.limits)
    (hkeys : ∀ key ∈ s.entries.keys, isParameterKey key = false) :
    ∃ extra, ctx.IsShare extra ∧ (ctx.addParameterTags s).2.entries = s.entries ++ extra := by
  have hnew : ∀ e ∈ parameterTags ctx.run ctx.config ctx.property, e.1 ∉ s.entries.keys := by
    intro e he hmem
    have hkey := hkeys _ hmem
    rw [isParameterKey_of_mem he] at hkey
    cases hkey
  obtain ⟨extra, hentries, hasked, hlength⟩ := TagSet.entries_admitFrom hnew
  have hle : extra.length ≤ ctx.template.limits.maxParameterTags.toNat := by
    rw [hlimits, TagLimits.admission] at hlength
    exact Nat.le_trans hlength (Nat.min_le_left _ _)
  have hdistinct : extra.keys.Nodup := by
    have hall := (ctx.addParameterTags s).2.distinct
    rw [addParameterTags, hentries, TagEntries.keys, List.map_append] at hall
    exact (List.nodup_append.mp hall).2.1
  have hcount : extra.length ≤ ctx.run.parameters.length :=
    length_le_of_subset_parameterTags hdistinct hasked
  have htold : ∀ e ∈ extra, ∃ p ∈ ctx.run.parameters, ∃ value, p.value = some value ∧
      value ≠ "" ∧ e = ("p_" ++ p.name, value) := by
    intro e he
    obtain ⟨p, hp, htag⟩ := exists_of_mem_parameterTags (hasked he)
    exact ⟨p, hp, parameterTag?_eq_some_iff.mp htag⟩
  exact ⟨extra, ⟨hasked, htold, hle, hroom _ hle hcount⟩, hentries⟩

/-- No name of a share is that of a tag of a record's own. -/
theorem IsShare.nodup_append (h : ctx.IsShare extra) (hextra : extra.keys.Nodup)
    {own : TagEntries} (hown : own.keys.Nodup)
    (hkeys : ∀ key ∈ own.keys, BuildMetrics.isParameterKey key = false) :
    (extra ++ own).keys.Nodup := by
  rw [TagEntries.keys, List.map_append]
  refine List.nodup_append.mpr ⟨hextra, hown, ?_⟩
  rintro key hkey _ hmem rfl
  exact h.not_mem_keys (hkeys key hmem) hkey

end RunContext

/-! ## The tags of each pass -/

variable {ctx : RunContext}

/-- The text for how a run ended. -/
inductive Run.Result.Reads : Run.Result → String → Prop where
  /-- it succeeded -/
  | success : Reads .success "SUCCESS"
  /-- it succeeded, but its tests did not -/
  | unstable : Reads .unstable "UNSTABLE"
  /-- it failed -/
  | failure : Reads .failure "FAILURE"
  /-- it was not built -/
  | notBuilt : Reads .notBuilt "NOT_BUILT"
  /-- it was aborted -/
  | aborted : Reads .aborted "ABORTED"

/-- The text that is written for a result is the one for it. -/
theorem Run.Result.reads_name (result : Run.Result) : result.Reads result.name := by
  cases result with
  | success => exact .success
  | unstable => exact .unstable
  | failure => exact .failure
  | notBuilt => exact .notBuilt
  | aborted => exact .aborted

/-- The tags for how something ended and for the number of the run. -/
def statusEntries (status buildId : String) : TagEntries :=
  [("Status", status), ("Build Number", buildId)]

/-- The tags of the record of a test, but for those of parameters. -/
def caseEntries (run : Summary) (status : String) : TagEntries :=
  [("Job Name", Name.job run.jobFullName), ("Build Number", run.buildId), ("Test Status", status)]

/-- The tags for how something ended and for the number of the run are called without the lead. -/
theorem isParameterKey_statusEntries (status buildId : String) :
    ∀ key ∈ (statusEntries status buildId).keys, isParameterKey key = false := by
  show ∀ key ∈ ["Status", "Build Number"], isParameterKey key = false
  decide

/-- The tags of the record of a test are called without the lead, but for those of parameters. -/
theorem isParameterKey_caseEntries (run : Summary) (status : String) :
    ∀ key ∈ (caseEntries run status).keys, isParameterKey key = false := by
  show ∀ key ∈ ["Job Name", "Build Number", "Test Status"], isParameterKey key = false
  decide

/-- With room for three tags, the tags of a status are there in full. -/
theorem statusTags_entries (hroom : ctx.HasRoom) (status : String) :
    (ctx.template.statusTags status ctx.run.buildId).entries =
      statusEntries status ctx.run.buildId := by
  have hfixed : Config.fixedTags ≤ ctx.template.limits.maxTags.toNat := by
    simpa using hroom 0 (Nat.zero_le _) (Nat.zero_le _)
  rw [Template.statusTags_eq (Nat.le_of_succ_le hfixed)]
  rfl

/-- What is promised of the tags of a pass. -/
def PassRecords.HasTags (ctx : RunContext) (tests : Option TestReport) (p : PassRecords) : Prop :=
  match p.pass with
  | .job => ∃ r text extra, p.records = [r] ∧ ctx.run.result.Reads text ∧ ctx.IsShare extra ∧
      r.tags.entries = statusEntries text ctx.run.buildId ++ extra
  | .pipeline => ∀ r ∈ p.records, ∃ text ∈ ["SUCCESS", "FAILURE", "ABORTED"],
      r.tags.entries = statusEntries text ctx.run.buildId
  | .tests => ∃ report totals extra, ∃ record : String → TestCase → Record,
      tests = some report ∧ totals.length = 5 ∧ ctx.IsShare extra ∧
      p.records = totals ++ (report.failedTests.map (record "Failed") ++
        report.skippedTests.map (record "Skipped") ++ report.passedTests.map (record "Passed")) ∧
      (∀ r ∈ totals, r.tags.entries = extra) ∧
      ∀ status t, (record status t).name =
          ctx.template.metricName ("junit." ++ Name.test t.fullName) ∧
        (record status t).tags.entries = extra ++ caseEntries ctx.run status
  | .coverage => ∀ r ∈ p.records, ∃ text, ctx.run.result.Reads text ∧
      r.tags.entries = statusEntries text ctx.run.buildId

/-- The record of the run as a whole has its tags. -/
theorem hasTags_job (hroom : ctx.HasRoom) (tests : Option TestReport) :
    PassRecords.HasTags ctx tests ⟨.job, [jobRecord ctx], none⟩ := by
  have hstatus : ctx.statusTags.entries = statusEntries ctx.run.result.name ctx.run.buildId :=
    statusTags_entries hroom _
  have hlimits : ctx.statusTags.limits = ctx.template.limits := by
    simp [RunContext.statusTags, Template.statusTags, Template.tags, TagSet.empty]
  have hkeys : ∀ key ∈ ctx.statusTags.entries.keys, isParameterKey key = false := by
    rw [hstatus]
    exact isParameterKey_statusEntries _ _
  obtain ⟨extra, hshare, hentries⟩ := RunContext.exists_share hroom hlimits hkeys
  exact ⟨jobRecord ctx, _, extra, rfl, ctx.run.result.reads_name, hshare, hstatus ▸ hentries⟩

/-- Each record of the pass over the scopes is that of some scope. -/
theorem exists_of_mem_scopeRecords {results : List (Except TraceError Scope)} {r : Record}
    (h : r ∈ (scopeRecords ctx results).1) : ∃ s c, r = scopeRecord ctx s c := by
  induction results with
  | nil => cases h
  | cons result results ih =>
    cases result with
    | error e => cases h
    | ok s =>
      rw [scopeRecords] at h
      cases hclass : ScopeClass.ofStart? s.start with
      | none =>
        rw [hclass] at h
        exact ih h
      | some c =>
        rw [hclass] at h
        rcases List.mem_cons.mp h with rfl | h
        · exact ⟨s, c, rfl⟩
        · exact ih h

/-- The records of the scopes have their tags. -/
theorem hasTags_pipeline (hroom : ctx.HasRoom) (tests : Option TestReport) (nodes : List Node) :
    PassRecords.HasTags ctx tests
      ⟨.pipeline, (pipelineRecords ctx nodes).1, (pipelineRecords ctx nodes).2⟩ := by
  intro r hr
  have hscope : ∃ s c, r = scopeRecord ctx s c := by
    rw [pipelineRecords] at hr
    split at hr
    · cases hr
    · exact exists_of_mem_scopeRecords hr
  obtain ⟨s, c, rfl⟩ := hscope
  have htext : s.status.name ∈ ["SUCCESS", "FAILURE", "ABORTED"] := by
    cases s.status <;> decide
  exact ⟨s.status.name, htext, statusTags_entries hroom _⟩

/-- The records of the tests as a whole have the same tags. -/
theorem tags_of_mem_testTotals {report : TestReport} {tags : TagSet} {r : Record}
    (h : r ∈ testTotals ctx report tags) : r.tags = tags := by
  simp only [testTotals, List.mem_cons, List.not_mem_nil, or_false] at h
  rcases h with rfl | rfl | rfl | rfl | rfl <;> rfl

/-- The records of the tests have their tags. -/
theorem hasTags_tests (hroom : ctx.HasRoom) (report : TestReport) :
    PassRecords.HasTags ctx (some report) ⟨.tests, testRecords ctx report, none⟩ := by
  let tags : TagSet := (ctx.addParameterTags ctx.template.tags).2
  let record (status : String) (t : TestCase) : Record :=
    ctx.template.record ("junit." ++ Name.test t.fullName) (millisOfSeconds t.seconds)
      (tags.addAll (caseEntries ctx.run status))
  obtain ⟨extra, hshare, htags⟩ : ∃ extra, ctx.IsShare extra ∧ tags.entries = extra :=
    RunContext.exists_share hroom rfl (fun key hkey => by cases hkey)
  have hlimits : tags.limits = ctx.template.limits := TagSet.limits_admitFrom
  have hcase (status : String) :
      (tags.addAll (caseEntries ctx.run status)).entries = extra ++ caseEntries ctx.run status := by
    rw [← htags]
    refine TagSet.entries_addAll ?_ ?_
    · rw [htags]
      refine hshare.nodup_append (htags ▸ tags.distinct) ?_ (isParameterKey_caseEntries _ _)
      show ["Job Name", "Build Number", "Test Status"].Nodup
      decide
    · rw [TagSet.size, htags, hlimits]
      exact hshare.room
  refine ⟨report, testTotals ctx report tags, extra, record, rfl, rfl, hshare, ?_, ?_, ?_⟩
  · simp only [testRecords, TestReport.outcomes, List.map_append, List.map_map]
    rfl
  · intro r hr
    rw [tags_of_mem_testTotals hr]
    exact htags
  · exact fun status t => ⟨rfl, hcase status⟩

/-- The records of the coverage have the tags for the result and the number of the run. -/
theorem tags_of_mem_coverageRecords {report : CoverageReport} {r : Record}
    (h : r ∈ coverageRecords ctx report) : r.tags = ctx.statusTags := by
  obtain ⟨e, -, h⟩ := List.mem_flatMap.mp h
  simp only [coverageEntryRecords, List.mem_cons, List.not_mem_nil, or_false] at h
  rcases h with rfl | rfl | rfl | rfl | rfl <;> rfl

/-- The records of the coverage have their tags. -/
theorem hasTags_coverage (hroom : ctx.HasRoom) (tests : Option TestReport)
    (report : CoverageReport) :
    PassRecords.HasTags ctx tests ⟨.coverage, coverageRecords ctx report, none⟩ := by
  intro r hr
  rw [tags_of_mem_coverageRecords hr]
  exact ⟨_, ctx.run.result.reads_name, statusTags_entries hroom _⟩

/-! ## The tags of all passes -/

/-- What the passes know of the run of an event. -/
def RunContext.ofEvent (config : Config) (now : Millis) (event : Event)
    (property : Option JobProperty) : RunContext :=
  ⟨event.run, .ofConfig config now, config, property⟩

/-- There are no more tags than the limits allow, neither in all nor of parameters. -/
def Record.WithinLimits (limits : TagLimits) (r : Record) : Prop :=
  r.tags.size ≤ limits.maxTags.toNat ∧
    r.tags.entries.keys.countP isParameterKey ≤ limits.maxParameterTags.toNat

/-- Three tags of its own and a share do not take a record over the limits. -/
theorem withinLimits_of_perm {r : Record} {own extra : TagEntries} (hshare : ctx.IsShare extra)
    (hperm : r.tags.entries.Perm (own ++ extra)) (hown : own.length ≤ Config.fixedTags)
    (hkeys : ∀ key ∈ own.keys, isParameterKey key = false) :
    r.WithinLimits ctx.template.limits := by
  constructor
  · rw [TagSet.size, hperm.length_eq, List.length_append, Nat.add_comm]
    exact Nat.le_trans (Nat.add_le_add_left hown _) hshare.room
  · have hnone : own.keys.countP isParameterKey = 0 :=
      List.countP_eq_zero.mpr fun key hkey => by simp [hkeys key hkey]
    have hkeysPerm : r.tags.entries.keys.Perm (own.keys ++ extra.keys) := by
      have hmap := hperm.map Prod.fst
      rwa [List.map_append] at hmap
    rw [hkeysPerm.countP_eq, List.countP_append, hnone, Nat.zero_add]
    calc extra.keys.countP isParameterKey ≤ extra.keys.length := List.countP_le_length
      _ = extra.length := List.length_map _
      _ ≤ ctx.template.limits.maxParameterTags.toNat := hshare.length_le

/-- A record that has its tags keeps to the limits. -/
theorem PassRecords.HasTags.withinLimits {p : PassRecords} {tests : Option TestReport}
    (hroom : ctx.HasRoom) (h : p.HasTags ctx tests) {r : Record} (hr : r ∈ p.records) :
    r.WithinLimits ctx.template.limits := by
  have hstatus {status : String} {extra : TagEntries} (hshare : ctx.IsShare extra)
      (hentries : r.tags.entries = statusEntries status ctx.run.buildId ++ extra) :
      r.WithinLimits ctx.template.limits :=
    withinLimits_of_perm hshare (.of_eq hentries) (Nat.le_succ 2)
      (isParameterKey_statusEntries _ _)
  obtain ⟨pass, records, error⟩ := p
  cases pass with
  | job =>
    obtain ⟨_, text, extra, rfl, -, hshare, hentries⟩ := h
    obtain rfl := List.mem_singleton.mp hr
    exact hstatus hshare hentries
  | pipeline =>
    obtain ⟨text, -, hentries⟩ := h r hr
    exact hstatus (RunContext.isShare_nil hroom) (hentries.trans (List.append_nil _).symm)
  | coverage =>
    obtain ⟨text, -, hentries⟩ := h r hr
    exact hstatus (RunContext.isShare_nil hroom) (hentries.trans (List.append_nil _).symm)
  | tests =>
    obtain ⟨report, totals, extra, record, -, -, hshare, rfl, htotals, hcases⟩ := h
    rcases List.mem_append.mp hr with hr | hr
    · have hentries : r.tags.entries = [] ++ extra := htotals r hr
      exact withinLimits_of_perm hshare (.of_eq hentries) (Nat.zero_le _)
        (by simp [TagEntries.keys])
    · obtain ⟨status, t, rfl⟩ : ∃ status t, r = record status t := by
        simp only [List.mem_append, List.mem_map] at hr
        obtain (⟨t, -, rfl⟩ | ⟨t, -, rfl⟩) | ⟨t, -, rfl⟩ := hr
        · exact ⟨_, _, rfl⟩
        · exact ⟨_, _, rfl⟩
        · exact ⟨_, _, rfl⟩
      have hperm : (record status t).tags.entries.Perm (caseEntries ctx.run status ++ extra) := by
        rw [(hcases status t).2]
        exact List.perm_append_comm
      exact withinLimits_of_perm hshare hperm (Nat.le_refl 3) (isParameterKey_caseEntries _ _)

variable {given : Config} {event : Event}

/-- A normal configuration leaves room for three tags next to those of parameters. -/
theorem hasRoom_ofEvent (h : given.normalized = .ok config) (now : Millis)
    (hcount : event.run.parameters.length < 18446744073709551613) (property : Option JobProperty) :
    (RunContext.ofEvent config now event property).HasRoom := by
  intro count hshare hparameters
  have hle : count + Config.fixedTags ≤ Config.greatestCount :=
    Nat.add_le_of_le_sub (by decide) (Nat.le_trans hparameters (Nat.le_of_lt_succ hcount))
  exact Config.add_fixedTags_le_of_normalized h hshare hle

/-- Every pass over a run has its tags. -/
theorem hasTags_of_mem {now : Millis}
    (hroom : (RunContext.ofEvent config now event property).HasRoom) {p : PassRecords}
    (hp : p ∈ (runRecords config now event property).passes) :
    p.HasTags (.ofEvent config now event property) event.tests := by
  rcases List.mem_cons.mp hp with rfl | hp
  · exact hasTags_job hroom _
  · rcases List.mem_append.mp hp with hp | hp
    · rcases List.mem_append.mp hp with hp | hp
      · cases htrace : event.trace with
        | none =>
          rw [htrace] at hp
          cases hp
        | some nodes =>
          rw [htrace] at hp
          obtain rfl := List.mem_singleton.mp hp
          exact hasTags_pipeline hroom _ nodes
      · cases htests : event.tests with
        | none =>
          rw [htests] at hp
          cases hp
        | some report =>
          rw [htests, testPass] at hp
          split at hp
          · obtain rfl := List.mem_singleton.mp hp
            exact hasTags_tests hroom report
          · cases hp
    · cases hcoverage : event.coverage with
      | none =>
        rw [hcoverage] at hp
        cases hp
      | some report =>
        rw [hcoverage, coveragePass] at hp
        split at hp
        · obtain rfl := List.mem_singleton.mp hp
          exact hasTags_coverage hroom _ report
        · cases hp

/-- **No tag of a record's own is crowded out.** Under a normal configuration each record of a run
has all its own tags, whatever the parameters are called and however many there are, if they and
three more can be counted in 64 bits, and keeps to the limits; so has the record of a timed step. -/
theorem runRecords_tags (h : given.normalized = .ok config) (now : Millis)
    (hcount : event.run.parameters.length < 18446744073709551613) (property : Option JobProperty) :
    (∀ p ∈ (runRecords config now event property).passes,
      p.HasTags (.ofEvent config now event property) event.tests) ∧
    (∀ r ∈ (runRecords config now event property).all, r.WithinLimits config.tagLimits) ∧
    ∀ step : StepEvent, (stepRecord config now step).tags.entries =
      [("Job Name", step.jobName), ("Build Number", step.buildNumber)] := by
  have hroom : (RunContext.ofEvent config now event property).HasRoom :=
    hasRoom_ofEvent h now hcount property
  refine ⟨fun p hp => hasTags_of_mem hroom hp, fun r hr => ?_, fun step => ?_⟩
  · obtain ⟨p, hp, hr⟩ := List.mem_flatMap.mp hr
    exact (hasTags_of_mem hroom hp).withinLimits hroom hr
  · have hfixed : 2 ≤ config.tagLimits.maxTags.toNat :=
      Nat.le_of_succ_le (Config.fixedTags_le_of_normalized h)
    have hkeys : ["Job Name", "Build Number"].Nodup := by decide
    let own : TagEntries := [("Job Name", step.jobName), ("Build Number", step.buildNumber)]
    have hentries : ((TagSet.empty config.tagLimits).addAll own).entries = [] ++ own :=
      TagSet.entries_addAll hkeys hfixed
    exact hentries

/-- Limits that have room for one parameter and no more. -/
def tightConfig : Config :=
  { Config.default with junitForAll := true, parametersForAll := true, tagLimits := ⟨4, 1⟩ }

/-- A run with a test and with parameters that are called like tags of a record's own. -/
def crowdedEvent : Event where
  run := ⟨"Nightly", "5", 700, .unstable, [⟨"Status", some "x"⟩, ⟨"Build Number", some "y"⟩]⟩
  trace := none
  tests := some ⟨1, 1, 0, 2, [⟨"suite.case[1]", 2⟩], [], []⟩
  coverage := none

/-- Parameters that are called like tags of records, under limits with room for one of them. -/
theorem runRecords_tags_crowded :
    tightConfig.normalized = .ok tightConfig.cleaned ∧
    crowdedEvent.run.parameters.length < 18446744073709551613 ∧
    (runRecords tightConfig.cleaned 0 crowdedEvent none).passes.map PassRecords.pass =
      [.job, .tests] ∧
    (∀ p ∈ (runRecords tightConfig.cleaned 0 crowdedEvent none).passes,
      p.HasTags (.ofEvent tightConfig.cleaned 0 crowdedEvent none) crowdedEvent.tests) ∧
    ∀ r ∈ (runRecords tightConfig.cleaned 0 crowdedEvent none).all, r.WithinLimits ⟨4, 1⟩ := by
  have hconfig : tightConfig.normalized = .ok tightConfig.cleaned :=
    Config.normalized_eq_ok_iff.mpr ⟨by decide, rfl⟩
  have hcount : crowdedEvent.run.parameters.length < 18446744073709551613 := by decide
  obtain ⟨htags, hlimits, -⟩ := runRecords_tags hconfig 0 hcount none
  exact ⟨hconfig, hcount, rfl, htags, hlimits⟩

end BuildMetrics
