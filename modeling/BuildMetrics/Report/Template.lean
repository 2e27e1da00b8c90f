import BuildMetrics.Config.Basic
import BuildMetrics.Record
import BuildMetrics.Trace.Scope

/-!
# What the records of a report share

All records of a report are called under one path, come from one source at one time, and have
tags within the same limits.
-/

namespace BuildMetrics

/-- The tag for how something ended. -/
def statusTag : String := "Status"

/-- The tag for the number of the run. -/
def buildNumberTag : String := "Build Number"

/-- The tag for the job. -/
def jobNameTag : String := "Job Name"

/-- The tag for how a test ended. -/
def testStatusTag : String := "Test Status"

/-- What the records of a report share. -/
structure Template where
  /-- the path that all names begin with -/
  path : String
  /-- the source -/
  source : String
  /-- the time -/
  time : Millis
  /-- the limits of the tags -/
  limits : TagLimits

namespace Template

/-- The template of a configuration at a time. -/
def ofConfig (c : Config) (time : Millis) : Template :=
  ⟨c.jobMetricsPrefix, c.sourceName, time, c.tagLimits⟩

/-- The name of a metric under the path. -/
def metricName (t : Template) (name : String) : String :=
  if t.path.isEmpty then name else t.path ++ "." ++ name

/-- No tags yet. -/
def tags (t : Template) : TagSet := TagSet.empty t.limits

/-- The tags for how something ended and for the number of the run. -/
def statusTags (t : Template) (status buildId : String) : TagSet :=
  (t.tags.add statusTag status).add buildNumberTag buildId

/-- A record under the path. -/
def record (t : Template) (name : String) (value : Float) (tags : TagSet) : Record :=
  ⟨t.metricName name, value, t.time, t.source, tags⟩

end Template

end BuildMetrics
