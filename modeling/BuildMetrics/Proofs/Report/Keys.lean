import BuildMetrics.Proofs.Record.Line
import BuildMetrics.Proofs.Report.Names
import Mathlib.Data.List.Nodup

/-!
# The keys of tags in a line

A record keeps its tags under distinct keys, but a line shows a key with hyphens, and two keys may
look alike there. The tags of a record's own never do, neither with each other nor with those of
parameters, since only the latter show the lead of parameters.

* `RunContext.Gives`: where a tag comes from. `givesAll_of_mem_all`: each tag of each record comes
  from there, since the empty set does and every tag that is put down does;
* `RunContext.Gives.exists_parameters`: two tags that share a key in the line are tags of two
  parameters whose names look alike;
* `lineKeys_of_mem_all`: hence the keys in the line are distinct just if those names are. They need
  not be: `lineKeys_repeated`.
-/

namespace BuildMetrics

open Run Trace

namespace Record

/-- A key as a line shows it. -/
def lineKey (key : String) : String := String.ofList (hyphenate isKeyChar key.toList)

/-- The keys of a record as its line shows them. -/
def lineKeys (r : Record) : List String := r.tags.entries.keys.map lineKey

/-- A tag as a line shows it, with a blank in front of it. -/
def lineTag (key value : String) : String :=
  " \"" ++ lineKey key ++ "\"=" ++ String.ofList (quoted value)

/-- The record without its tags. -/
def untagged (r : Record) : Record := { r with tags := .empty r.tags.limits }

/-- The name of a tag is written character by character. -/
theorem lineKey_append (a b : String) : lineKey (a ++ b) = lineKey a ++ lineKey b := by
  simp [lineKey, hyphenate]

/-- The lead of the keys of parameters is shown as it is. -/
theorem lineKey_parameter (name : String) : lineKey ("p_" ++ name) = "p_" ++ lineKey name :=
  lineKey_append "p_" name

theorem ofList_tagChars (key value : String) :
    String.ofList (tagChars key value) = lineTag key value := by
  apply String.toList_inj.mp
  simp [lineTag, lineKey, tagChars]

/-- The tags of a line are its single tags, one after the other. -/
theorem ofList_tagsChars (es : TagEntries) :
    String.ofList (tagsChars es) = String.join (es.map fun (key, value) => lineTag key value) := by
  induction es with
  | nil => rfl
  | cons e es ih =>
    obtain ⟨key, value⟩ := e
    rw [tagsChars, List.flatMap_cons, String.ofList_append, ofList_tagChars, List.map_cons,
      String.join_cons, ← ih]
    rfl

/-- A line goes on with the tags after what it is without them. -/
theorem line_eq_untagged (r : Record) :
    r.line = r.untagged.line ++
      String.join (r.tags.entries.map fun (key, value) => lineTag key value) := by
  have hlead : r.untagged.leadChars = r.leadChars := rfl
  rw [line, line, lineChars_eq, lineChars_eq, hlead, ← ofList_tagsChars, ← String.ofList_append]
  simp [untagged, TagSet.empty, tagsChars]

end Record

open Record

/-! ## Where tags come from -/

/-- The keys of tags that no parameter gives. -/
def ownKeys : List String := [statusTag, buildNumberTag, jobNameTag, testStatusTag]

namespace RunContext

variable {ctx : RunContext} {s : TagSet} {e f : String × String} {r : Record}

/-- The tag is one of a record's own or that of a parameter of the run. -/
def Gives (ctx : RunContext) (e : String × String) : Prop :=
  e.1 ∈ ownKeys ∨ ∃ p ∈ ctx.run.parameters, parameterTag? p = some e

/-- All tags of a set come from the run. -/
def GivesAll (ctx : RunContext) (s : TagSet) : Prop := ∀ e ∈ s.entries, ctx.Gives e

theorem givesAll_tags : ctx.GivesAll ctx.template.tags := fun _ he => absurd he List.not_mem_nil

theorem GivesAll.add (h : ctx.GivesAll s) {key : String} (hkey : key ∈ ownKeys) (value : String) :
    ctx.GivesAll (s.add key value) := by
  intro e he
  rcases TagSet.mem_of_mem_add he with he | rfl
  · exact h e he
  · exact .inl hkey

/-- Such a set may be added tags of parameters. -/
theorem GivesAll.addParameterTags (h : ctx.GivesAll s) :
    ctx.GivesAll (ctx.addParameterTags s).2 := by
  intro e he
  rcases TagSet.mem_of_mem_admitFrom he with he | he
  · exact h e he
  · exact .inr (exists_of_mem_parameterTags he)

theorem givesAll_templateStatusTags (status buildId : String) :
    ctx.GivesAll (ctx.template.statusTags status buildId) :=
  (givesAll_tags.add (by decide) status).add (by decide) buildId

theorem givesAll_pipelineRecords {nodes : List Node} (hr : r ∈ (pipelineRecords ctx nodes).1) :
    ctx.GivesAll r.tags := by
  rw [pipelineRecords] at hr
  split at hr
  · cases hr
  · obtain ⟨s, c, rfl⟩ := exists_of_mem_scopeRecords hr
    exact givesAll_templateStatusTags _ _

theorem givesAll_testRecords {report : TestReport} (hr : r ∈ testRecords ctx report) :
    ctx.GivesAll r.tags := by
  have htags : ctx.GivesAll (ctx.addParameterTags ctx.template.tags).2 :=
    givesAll_tags.addParameterTags
  rcases List.mem_append.mp hr with hr | hr
  · rw [tags_of_mem_testTotals hr]
    exact htags
  · obtain ⟨⟨outcome, t⟩, -, rfl⟩ := List.mem_map.mp hr
    exact ((htags.add (by decide) _).add (by decide) _).add (by decide) _

theorem givesAll_coverageRecords {report : CoverageReport} (hr : r ∈ coverageRecords ctx report) :
    ctx.GivesAll r.tags := by
  rw [tags_of_mem_coverageRecords hr]
  exact givesAll_templateStatusTags _ _

/-! ## Tags that share a key in the line -/

/-- No tag of a record is written with the lead of parameters. -/
theorem isParameterKey_lineKey_own {key : String} (h : key ∈ ownKeys) :
    isParameterKey (lineKey key) = false := by
  have hall : ∀ key ∈ ownKeys, isParameterKey (lineKey key) = false := by decide
  exact hall key h

/-- The tags of records are written with names of their own. -/
theorem lineKey_own_inj {a b : String} (ha : a ∈ ownKeys) (hb : b ∈ ownKeys)
    (h : lineKey a = lineKey b) : a = b := by
  have hall : ∀ a ∈ ownKeys, ∀ b ∈ ownKeys, lineKey a = lineKey b → a = b := by decide
  exact hall a ha b hb h

/-- The tag of a parameter is written with its lead. -/
theorem isParameterKey_lineKey {p : Parameter} (h : parameterTag? p = some e) :
    isParameterKey (lineKey e.1) = true := by
  rw [key_of_parameterTag? h, lineKey_parameter]
  exact isParameterKey_append _

/-- **Only tags of parameters share a key in the line.** -/
theorem Gives.exists_parameters (he : ctx.Gives e) (hf : ctx.Gives f) (hne : e.1 ≠ f.1)
    (h : lineKey e.1 = lineKey f.1) :
    ∃ p ∈ ctx.run.parameters, ∃ q ∈ ctx.run.parameters, parameterTag? p = some e ∧
      parameterTag? q = some f ∧ p.name ≠ q.name ∧ lineKey p.name = lineKey q.name := by
  rcases he with he | ⟨p, hp, he⟩ <;> rcases hf with hf | ⟨q, hq, hf⟩
  · exact absurd (lineKey_own_inj he hf h) hne
  · have hlead : isParameterKey (lineKey e.1) = false := isParameterKey_lineKey_own he
    rw [h, isParameterKey_lineKey hf] at hlead
    cases hlead
  · have hlead : isParameterKey (lineKey f.1) = false := isParameterKey_lineKey_own hf
    rw [← h, isParameterKey_lineKey he] at hlead
    cases hlead
  · rw [key_of_parameterTag? he, key_of_parameterTag? hf] at h hne
    rw [lineKey_parameter, lineKey_parameter] at h
    exact ⟨p, hp, q, hq, he, hf, fun hname => hne (congrArg _ hname),
      (String.append_right_inj _).mp h⟩

end RunContext

variable {config : Config} {now : Millis} {event : Event} {property : Option JobProperty}
  {r : Record}

/-- Each tag of each record of a run is one of its own or that of a parameter. -/
theorem givesAll_of_mem_all (hr : r ∈ (runRecords config now event property).all) :
    (RunContext.ofEvent config now event property).GivesAll r.tags := by
  rcases mem_all.mp hr with rfl | ⟨nodes, -, hr⟩ | ⟨report, -, -, hr⟩ | ⟨report, -, -, hr⟩
  · exact (RunContext.givesAll_templateStatusTags _ _).addParameterTags
  · exact RunContext.givesAll_pipelineRecords hr
  · exact RunContext.givesAll_testRecords hr
  · exact RunContext.givesAll_coverageRecords hr

/-- **Keys in a line are as distinct as the names of parameters are there.** The keys of the tags of
a record of a run are distinct, and its line shows each of them with hyphens. Two tags share a key
in the line only if they are tags of parameters whose names look alike. So the keys in the line are
distinct just if no two names of parameters among the tags look alike. -/
theorem lineKeys_of_mem_all (hr : r ∈ (runRecords config now event property).all) :
    r.tags.entries.keys.Nodup ∧
    r.line = r.untagged.line ++
      String.join (r.tags.entries.map fun (key, value) => lineTag key value) ∧
    (∀ e ∈ r.tags.entries, ∀ f ∈ r.tags.entries, e ≠ f → lineKey e.1 = lineKey f.1 →
      ∃ p ∈ event.run.parameters, ∃ q ∈ event.run.parameters, parameterTag? p = some e ∧
        parameterTag? q = some f ∧ p.name ≠ q.name ∧ lineKey p.name = lineKey q.name) ∧
    (r.lineKeys.Nodup ↔ ∀ a b, "p_" ++ a ∈ r.tags.entries.keys → "p_" ++ b ∈ r.tags.entries.keys →
      lineKey a = lineKey b → a = b) := by
  have hkeys : r.tags.entries.keys.Nodup := r.tags.distinct
  have hgives : (RunContext.ofEvent config now event property).GivesAll r.tags :=
    givesAll_of_mem_all hr
  refine ⟨hkeys, line_eq_untagged r, fun e he f hf hne h => ?_, ?_⟩
  · have hdistinct : e.1 ≠ f.1 := fun hkey => hne (List.inj_on_of_nodup_map hkeys he hf hkey)
    exact (hgives e he).exists_parameters (hgives f hf) hdistinct h
  · rw [lineKeys, List.nodup_map_iff_inj_on hkeys]
    constructor
    · intro hinj a b ha hb h
      have hshown : lineKey ("p_" ++ a) = lineKey ("p_" ++ b) := by
        rw [lineKey_parameter, lineKey_parameter, h]
      exact (String.append_right_inj _).mp (hinj _ ha _ hb hshown)
    · intro hnames x hx y hy h
      obtain ⟨e, he, rfl⟩ := List.mem_map.mp hx
      obtain ⟨f, hf, rfl⟩ := List.mem_map.mp hy
      by_contra hne
      obtain ⟨p, -, q, -, hp, hq, hname, hshown⟩ :=
        (hgives e he).exists_parameters (hgives f hf) hne h
      rw [key_of_parameterTag? hp] at hx
      rw [key_of_parameterTag? hq] at hy
      exact hname (hnames _ _ hx hy hshown)

/-- A configuration under which the parameters of all jobs become tags. -/
def parametersConfig : Config :=
  { Config.default with proxyHostname := "proxy", parametersForAll := true }

/-- A run with two parameters. -/
def twoParameters (a b : String) : Event where
  run := ⟨"Nightly", "5", 700, .success, [⟨a, some "1"⟩, ⟨b, some "2"⟩]⟩
  trace := none
  tests := none
  coverage := none

/-- Two parameters whose names are written apart. -/
theorem lineKeys_of_mem_all_distinct :
    ∃ r ∈ (runRecords parametersConfig.cleaned 0 (twoParameters "A B" "A_B") none).all,
      r.tags.entries.keys = [statusTag, buildNumberTag, "p_A B", "p_A_B"] ∧
      r.line = r.untagged.line ++
        String.join (r.tags.entries.map fun (key, value) => lineTag key value) ∧
      ∀ a b, "p_" ++ a ∈ r.tags.entries.keys → "p_" ++ b ∈ r.tags.entries.keys →
        lineKey a = lineKey b → a = b := by
  refine ⟨_, List.mem_cons_self, by decide, ?_⟩
  obtain ⟨-, hline, -, hiff⟩ := lineKeys_of_mem_all (r := jobRecord _) List.mem_cons_self
  exact ⟨hline, hiff.mp (by decide)⟩

/-- Names of parameters that differ in a blank and a hyphen give tags under two keys, which are one
key in the line. -/
theorem lineKeys_repeated :
    parametersConfig.normalized = .ok parametersConfig.cleaned ∧
    ∃ r ∈ (runRecords parametersConfig.cleaned 0 (twoParameters "A B" "A-B") none).all,
      r.tags.entries.keys = [statusTag, buildNumberTag, "p_A B", "p_A-B"] ∧
      r.lineKeys = ["Status", "Build-Number", "p_A-B", "p_A-B"] ∧ ¬ r.lineKeys.Nodup ∧
      r.line = r.untagged.line ++
        " \"Status\"=\"SUCCESS\" \"Build-Number\"=\"5\" \"p_A-B\"=\"1\" \"p_A-B\"=\"2\"" := by
  refine ⟨Config.normalized_eq_ok_iff.mpr ⟨by decide, rfl⟩, _, List.mem_cons_self, by decide,
    by decide, by decide, ?_⟩
  rw [line_eq_untagged]
  congr 1

end BuildMetrics
