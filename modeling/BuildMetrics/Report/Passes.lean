import BuildMetrics.Report.Parameters
import BuildMetrics.Report.Template
import BuildMetrics.Run.Event
import BuildMetrics.Trace.Walk

/-!
# The records of a run

A run is measured in up to four passes: the run as a whole, its scopes, its tests and its
coverage. Each pass looks at a part of the event of its own, so one that fails takes nothing from
the others; only the pass over the scopes can fail, and it keeps the records it had so far.
-/

namespace BuildMetrics

open Run Trace

/-- The passes over a run. -/
inductive PassKind where
  /-- the run as a whole -/
  | job
  /-- its scopes -/
  | pipeline
  /-- its tests -/
  | tests
  /-- its coverage -/
  | coverage
  deriving DecidableEq, Repr

namespace PassKind

/-- The pass as it is written. -/
def name : PassKind → String
  | job => "job"
  | pipeline => "pipeline"
  | tests => "tests"
  | coverage => "coverage"

/-- The pass as a warning calls it. -/
def title : PassKind → String
  | job => "Job"
  | pipeline => "Pipeline"
  | tests => "Tests"
  | coverage => "Coverage"

end PassKind

/-- What the passes over a run need to know. -/
structure RunContext where
  /-- the run as a whole -/
  run : Summary
  /-- what all records share -/
  template : Template
  /-- the settings for all jobs -/
  config : Config
  /-- what the job asks for itself -/
  property : Option JobProperty

namespace RunContext

/-- The segment of the job. -/
def job (ctx : RunContext) : String := Name.job ctx.run.jobFullName

/-- Adds the tags of the run's parameters as far as they are admitted. Tells how many were. -/
def addParameterTags (ctx : RunContext) (tags : TagSet) : Nat × TagSet :=
  tags.admitFrom (parameterTags ctx.run ctx.config ctx.property)

/-- The tests of the job are measured. -/
def junitEnabled (ctx : RunContext) : Bool :=
  ctx.config.junitForAll || ctx.property.any JobProperty.enableJunit

/-- The coverage of the job is measured. -/
def jacocoEnabled (ctx : RunContext) : Bool :=
  ctx.config.jacocoForAll || ctx.property.any JobProperty.enableJacoco

/-- The tags for the result and the number of the run. -/
def statusTags (ctx : RunContext) : TagSet :=
  ctx.template.statusTags ctx.run.result.name ctx.run.buildId

end RunContext

/-- The record of the run as a whole. -/
def jobRecord (ctx : RunContext) : Record :=
  ctx.template.record ctx.job ctx.run.duration.toFloat (ctx.addParameterTags ctx.statusTags).2

/-! ## Scopes -/

/-- The record of a scope of a class. -/
def scopeRecord (ctx : RunContext) (s : Scope) (c : ScopeClass) : Record :=
  ctx.template.record (ctx.job ++ "." ++ c.kind.name ++ "." ++ c.name) s.duration.toFloat
    (ctx.template.statusTags s.status.name ctx.run.buildId)

/-- The records of the scopes that are measured, up to the first error. -/
def scopeRecords (ctx : RunContext) :
    List (Except TraceError Scope) → List Record × Option TraceError
  | [] => ([], none)
  | .error e :: _ => ([], some e)
  | .ok s :: rest =>
    let (records, error) := scopeRecords ctx rest
    match ScopeClass.ofStart? s.start with
    | none => (records, error)
    | some c => (scopeRecord ctx s c :: records, error)

/-- The records of the scopes of a trace, in the order of the walk. -/
def pipelineRecords (ctx : RunContext) (nodes : List Node) : List Record × Option TraceError :=
  match Graph.ofNodes nodes with
  | .error e => ([], some (.invalidTrace e))
  | .ok g => scopeRecords ctx (Matcher.all [] g.walk).1

/-! ## Tests -/

/-- A duration in seconds as one in milliseconds. -/
def millisOfSeconds (x : Float) : Float := x * 1000

/-- The records of the tests as a whole: how long they took and how many there were of each
kind. Their only tags are those of parameters. -/
def testTotals (ctx : RunContext) (report : TestReport) (tags : TagSet) : List Record :=
  let name := "junit." ++ ctx.job
  let count (kind : String) (n : UInt64) : Record :=
    ctx.template.record (name ++ "." ++ kind ++ "count") n.toFloat tags
  [ctx.template.record name (millisOfSeconds report.seconds) tags,
    count "skip" report.skipped, count "fail" report.failed, count "total" report.total,
    count "pass" report.passed]

/-- The record of a test. -/
def testRecord (ctx : RunContext) (tags : TagSet) (outcome : TestOutcome) (t : TestCase) :
    Record :=
  ctx.template.record ("junit." ++ Name.test t.fullName) (millisOfSeconds t.seconds)
    (tags.add testStatusTag outcome.name)

/-- The records of the tests as a whole, then those of the single tests. -/
def testRecords (ctx : RunContext) (report : TestReport) : List Record :=
  let tags := (ctx.addParameterTags ctx.template.tags).2
  let caseTags := (tags.add jobNameTag ctx.job).add buildNumberTag ctx.run.buildId
  testTotals ctx report tags ++
    report.outcomes.map fun (outcome, t) => testRecord ctx caseTags outcome t

/-! ## Coverage -/

/-- The five records of the coverage of a category. -/
def coverageEntryRecords (ctx : RunContext) (e : CoverageEntry) : List Record :=
  let name := ctx.job ++ ".jacoco." ++ e.category.segment
  let record (name : String) (value : Float) : Record :=
    ctx.template.record name value ctx.statusTags
  [record name e.percentage, record (name ++ ".minimum") e.minimum,
    record (name ++ ".maximum") e.maximum, record (name ++ ".covered") e.covered.toFloat,
    record (name ++ ".total") e.total.toFloat]

/-- The records of the coverage of a run. -/
def coverageRecords (ctx : RunContext) (report : CoverageReport) : List Record :=
  report.entries.flatMap (coverageEntryRecords ctx)

/-! ## All passes -/

/-- The records of a pass. -/
structure PassRecords where
  /-- the pass -/
  pass : PassKind
  /-- its records -/
  records : List Record
  /-- why it stopped early, if it did -/
  error : Option TraceError

/-- The records of a run. -/
structure RunRecords where
  /-- the segment of the job -/
  job : String
  /-- the number of the run -/
  buildId : String
  /-- the passes that apply, in their order -/
  passes : List PassRecords

namespace RunRecords

/-- All records, in order. -/
def all (r : RunRecords) : List Record := r.passes.flatMap PassRecords.records

/-- The records of a pass, if it applies. -/
def pass? (r : RunRecords) (kind : PassKind) : Option PassRecords :=
  r.passes.find? fun p => p.pass = kind

end RunRecords

/-- The pass over the scopes, if there is a trace. -/
def pipelinePass (ctx : RunContext) (trace : Option (List Node)) : List PassRecords :=
  match trace with
  | none => []
  | some nodes =>
    let (records, error) := pipelineRecords ctx nodes
    [⟨.pipeline, records, error⟩]

/-- The pass over the tests, if there are any and they are measured. -/
def testPass (ctx : RunContext) (tests : Option TestReport) : List PassRecords :=
  match tests with
  | none => []
  | some report => if ctx.junitEnabled then [⟨.tests, testRecords ctx report, none⟩] else []

/-- The pass over the coverage, if there is one and it is measured. -/
def coveragePass (ctx : RunContext) (coverage : Option CoverageReport) : List PassRecords :=
  match coverage with
  | none => []
  | some report =>
    if ctx.jacocoEnabled then [⟨.coverage, coverageRecords ctx report, none⟩] else []

/-- The records of a run that is over. -/
def runRecords (config : Config) (now : Millis) (event : Event) (property : Option JobProperty) :
    RunRecords :=
  let ctx : RunContext := ⟨event.run, .ofConfig config now, config, property⟩
  { job := ctx.job
    buildId := event.run.buildId
    passes := ⟨.job, [jobRecord ctx], none⟩ ::
      (pipelinePass ctx event.trace ++ testPass ctx event.tests ++
        coveragePass ctx event.coverage) }

/-- The record of a timed step. -/
def stepRecord (config : Config) (now : Millis) (event : StepEvent) : Record :=
  let template := Template.ofConfig config now
  template.record ("step." ++ Name.step event.metricName) event.duration.toFloat
    ((template.tags.add jobNameTag event.jobName).add buildNumberTag event.buildNumber)

end BuildMetrics
