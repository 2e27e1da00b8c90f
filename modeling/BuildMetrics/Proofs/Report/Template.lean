import BuildMetrics.Proofs.Config
import BuildMetrics.Report.Template

/-!
# Records with exactly two tags

With limits that have room for them, the tags of a template for how something ended are these two
and no others; under a path that is not empty, names begin with the path and a dot.
-/

namespace BuildMetrics

/-- The tags for how something ended and for the number of the run, and no others. -/
def TagSet.ofStatus (limits : TagLimits) (status buildId : String) : TagSet where
  entries := [(statusTag, status), (buildNumberTag, buildId)]
  distinct := by
    have hne : statusTag ≠ buildNumberTag := by decide
    simp [TagEntries.keys, hne]
  limits := limits

namespace Template

variable {t : Template}

/-- With room for two tags, both are there and no others. -/
theorem statusTags_eq (h : 2 ≤ t.limits.maxTags.toNat) (status buildId : String) :
    t.statusTags status buildId = TagSet.ofStatus t.limits status buildId := by
  have hne : statusTag ≠ buildNumberTag := by decide
  have hzero : t.limits.maxTags.toNat ≠ 0 := by omega
  have hone : ¬ t.limits.maxTags.toNat ≤ 1 := by omega
  simp [statusTags, tags, TagSet.add, TagSet.insert, TagSet.contains, TagSet.empty, TagSet.size,
    TagSet.put, TagEntries.write, TagEntries.keys, TagSet.ofStatus, hne, hne.symm, hzero, hone]

/-- Under a path that is not empty, a name begins with the path and a dot. -/
theorem metricName_eq (h : t.path ≠ "") (name : String) :
    t.metricName name = t.path ++ "." ++ name := by
  rw [metricName, if_neg]
  rwa [String.isEmpty_iff]

end Template

end BuildMetrics
