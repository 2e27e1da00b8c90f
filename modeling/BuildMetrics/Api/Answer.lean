import BuildMetrics.Api.ReportId
import BuildMetrics.Config.Codec
import BuildMetrics.Report.Codec

/-!
# Answers

What requests that succeed are answered with. Parts that are absent are not written.
-/

namespace BuildMetrics.Api

open Json Json.Codec

/-- The answer to the report of a run. -/
structure RunAnswer where
  /-- the run was reported -/
  emitted : Bool
  /-- the number of the report -/
  reportId : Option ReportId
  /-- what became of its records -/
  report : Option RunReport
  deriving DecidableEq, Repr

namespace RunAnswer

/-- The answer for a run that was not reported. -/
def notEmitted : RunAnswer := ⟨false, none, none⟩

/-- The answer for a run that was reported. -/
def ofReport (id : ReportId) (report : RunReport) : RunAnswer := ⟨true, some id, some report⟩

/-- An answer is a record. -/
def codec : Codec RunAnswer :=
  record
    (.cons (required "emitted" bool) <|
      .cons (optional "report_id" ReportId.codec) <|
      .cons (optional "report" RunReport.codec) .nil)
    (fun a => (a.emitted, a.reportId, a.report, ()))
    (fun (emitted, reportId, report, ()) => ⟨emitted, reportId, report⟩)

end RunAnswer

/-- The answer to the report of a timed step. -/
structure StepAnswer where
  /-- the step was reported -/
  emitted : Bool
  /-- what became of its record -/
  summary : Option Emission
  deriving DecidableEq, Repr

namespace StepAnswer

/-- The answer for a step that may have been reported. -/
def ofEmission (e : Option Emission) : StepAnswer := ⟨e.isSome, e⟩

/-- An answer is a record. -/
def codec : Codec StepAnswer :=
  record (.cons (required "emitted" bool) <| .cons (optional "summary" Emission.codec) .nil)
    (fun a => (a.emitted, a.summary, ())) (fun (emitted, summary, ()) => ⟨emitted, summary⟩)

end StepAnswer

/-- The answer to the question whether the service is up. -/
structure Health where
  /-- the state of the service -/
  status : String
  /-- there is a proxy to send to -/
  proxyConfigured : Bool
  deriving DecidableEq, Repr

/-- An answer is a record. -/
def Health.codec : Codec Health :=
  record (.cons (required "status" string) <| .cons (required "proxy_configured" bool) .nil)
    (fun a => (a.status, a.proxyConfigured, ()))
    (fun (status, proxyConfigured, ()) => ⟨status, proxyConfigured⟩)

/-- What a job asks for, with the job's name. -/
structure JobAnswer where
  /-- the full name of the job -/
  job : String
  /-- what it asks for -/
  property : JobProperty
  deriving DecidableEq, Repr

/-- An answer is a record. -/
def JobAnswer.codec : Codec JobAnswer :=
  record (.cons (required "job" string) <| .cons (required "property" JobProperty.codec) .nil)
    (fun a => (a.job, a.property, ())) (fun (job, property, ()) => ⟨job, property⟩)

end BuildMetrics.Api
