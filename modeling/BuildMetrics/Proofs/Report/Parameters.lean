import BuildMetrics.Proofs.Tags.Admission
import BuildMetrics.Report.Passes

/-!
# Parameters that come up more than once

A run can have several parameters of one name, and a job can name a parameter on several lines. What
a set then answers is how many of these tags it took, and of those that share a name all but the
first one only replace a value. So the answer can be more than the number of tags that were added,
and more than the share of the parameters.

* `RunContext.size_addParameterTags`: how many tags are added;
* `RunContext.told_eq_added_iff`: when the answer is that number.
-/

namespace BuildMetrics.RunContext

variable {ctx : RunContext} {s : TagSet}

/-- As many tags are added as there are new names, but no more than are admitted. -/
theorem size_addParameterTags :
    (ctx.addParameterTags s).2.size =
      s.size + min (s.limits.admission s.size)
        (s.newKeys (parameterTags ctx.run ctx.config ctx.property)).length :=
  TagSet.size_admitFrom

/-- What was taken is added as far as its names are new. -/
theorem size_addParameterTags_eq_take :
    (ctx.addParameterTags s).2.size =
      s.size + (s.newKeys ((parameterTags ctx.run ctx.config ctx.property).take
        (ctx.addParameterTags s).1)).length := by
  rw [addParameterTags, TagSet.admitFrom_snd, TagSet.size_putAll]

theorem length_take_addParameterTags :
    ((parameterTags ctx.run ctx.config ctx.property).take (ctx.addParameterTags s).1).length =
      (ctx.addParameterTags s).1 :=
  List.length_take_of_le TagSet.admitFrom_fst_le

/-- No more tags are added than are told. -/
theorem added_le_told : (ctx.addParameterTags s).2.size ≤ s.size + (ctx.addParameterTags s).1 := by
  rw [size_addParameterTags_eq_take]
  refine Nat.add_le_add_left ?_ _
  conv_rhs => rw [← length_take_addParameterTags]
  exact TagSet.length_newKeys_le

/-- The answer is the number of tags that were added if and only if all that were taken have
distinct new names. -/
theorem told_eq_added_iff :
    (ctx.addParameterTags s).1 = (ctx.addParameterTags s).2.size - s.size ↔
      (s.entries ++ (parameterTags ctx.run ctx.config ctx.property).take
        (ctx.addParameterTags s).1).keys.Nodup := by
  rw [← TagSet.length_newKeys_eq_iff, length_take_addParameterTags,
    size_addParameterTags_eq_take, Nat.add_sub_cancel_left]
  exact eq_comm

/-- **How many tags of parameters are added.** They are the new names that the parameters ask for,
but no more than the share. The answer is at least as many; it is that number if and only if what
was taken has distinct new names. Where all that is asked for has distinct new names the answer
is within the share as well. -/
theorem addParameterTags_counts (ctx : RunContext) (s : TagSet) :
    let asked := parameterTags ctx.run ctx.config ctx.property
    let told := (ctx.addParameterTags s).1
    let grown := (ctx.addParameterTags s).2
    grown.size = s.size + min (s.limits.admission s.size) (s.newKeys asked).length ∧
    grown.size ≤ s.size + told ∧
    (told = grown.size - s.size ↔ (s.entries ++ asked.take told).keys.Nodup) ∧
    ((s.entries ++ asked).keys.Nodup →
      told = grown.size - s.size ∧ told ≤ s.limits.admission s.size) := by
  intro asked told grown
  refine ⟨size_addParameterTags, added_le_told, told_eq_added_iff, fun hnodup => ⟨?_, ?_⟩⟩
  · exact told_eq_added_iff.mpr (TagEntries.nodup_keys_take hnodup told)
  · have htold : told = min (s.limits.admission s.size) asked.length :=
      TagSet.admitFrom_fst_of_nodup hnodup
    exact htold ▸ Nat.min_le_left _ _

/-- A run with a parameter, and a job that asks for parameters by these lines. -/
def askedBy (lines : String) : RunContext :=
  let config : Config := { Config.default with tagLimits := ⟨5, 2⟩ }
  { run := ⟨"Nightly", "5", 700, .success, [⟨"BRANCH", some "main"⟩, ⟨"LEVEL", some "2"⟩]⟩
    template := .ofConfig config 0
    config := config
    property := some { JobProperty.default with enableParameters := true, jobParameters := lines } }

/-- Two lines with two parameters. -/
theorem addParameterTags_counts_lines :
    let ctx := askedBy "LEVEL\nBRANCH"
    let s := TagSet.empty ⟨5, 2⟩
    (s.entries ++ parameterTags ctx.run ctx.config ctx.property).keys.Nodup ∧
    (ctx.addParameterTags s).1 = (ctx.addParameterTags s).2.size - s.size ∧
    (ctx.addParameterTags s).1 ≤ s.limits.admission s.size := by
  intro ctx s
  have hnodup : (s.entries ++ parameterTags ctx.run ctx.config ctx.property).keys.Nodup := by
    decide
  exact ⟨hnodup, (addParameterTags_counts ctx s).2.2.2 hnodup⟩

/-- A parameter on three lines is told as three tags, which is more than the share, and only one
tag is added. -/
theorem addParameterTags_repeated :
    let ctx := askedBy "BRANCH\nBRANCH\nBRANCH"
    let s := TagSet.empty ⟨5, 2⟩
    (ctx.addParameterTags s).1 = 3 ∧
    (ctx.addParameterTags s).2.entries = [("p_BRANCH", "main")] ∧
    (ctx.addParameterTags s).2.size - s.size = 1 ∧
    s.limits.admission s.size = 2 := by
  decide

end BuildMetrics.RunContext
