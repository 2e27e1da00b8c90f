import BuildMetrics.Json.Codec
import BuildMetrics.Report.Emission

/-!
# Reports in JSON

What became of the records of a pass stands among the fields of its summary.
-/

namespace BuildMetrics

open Json Json.Codec

/-- A pass is a word. -/
def PassKind.codec : Codec PassKind := word PassKind.name [.job, .pipeline, .tests, .coverage]

/-- The fields of an emission. -/
def Emission.fields : Fields [Nat, Nat, Nat] :=
  .cons (required "sent" nat) <| .cons (required "dropped" nat) <|
    .cons (required "failed" nat) .nil

/-- An emission as its fields. -/
def Emission.toRow (e : Emission) : Row [Nat, Nat, Nat] := (e.sent, e.dropped, e.failed, ())

/-- The emission of its fields. -/
def Emission.ofRow : Row [Nat, Nat, Nat] → Emission
  | (sent, dropped, failed, ()) => ⟨sent, dropped, failed⟩

/-- An emission is a record. -/
def Emission.codec : Codec Emission := record Emission.fields Emission.toRow Emission.ofRow

/-- A summary is the record of its emission with a field before and a field behind. -/
def PassSummary.codec : Codec PassSummary :=
  flat (.cons (required "pass" PassKind.codec) .nil) Emission.fields
    (.cons (optional "error" string) .nil)
    (fun s => ((s.pass, ()), s.emission.toRow, (s.error, ())))
    (fun ((pass, ()), emission, (error, ())) => ⟨pass, .ofRow emission, error⟩)

/-- A report is a record. -/
def RunReport.codec : Codec RunReport :=
  record
    (.cons (required "job" string) <|
      .cons (required "build_id" string) <|
      .cons (required "passes" PassSummary.codec.list) <|
      .cons (optional "flush_error" string) .nil)
    (fun r => (r.job, r.buildId, r.passes, r.flushError, ()))
    (fun (job, buildId, passes, flushError, ()) => ⟨job, buildId, passes, flushError⟩)

end BuildMetrics
