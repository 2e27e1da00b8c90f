import BuildMetrics.Json.Codec
import BuildMetrics.Record

/-!
# Tags and records in JSON

A set of tags is an object of texts. The limits of a set are not written: a set that is read has
the usual limits for what comes later, and is taken as large as it is.
-/

namespace BuildMetrics

open Json Json.Codec

/-- Limits are a record; what is not there has its usual value. -/
def TagLimits.codec : Codec TagLimits :=
  record
    (.cons (defaulted "max_tags" uint64 TagLimits.default.maxTags) <|
      .cons (defaulted "max_parameter_tags" uint64 TagLimits.default.maxParameterTags) .nil)
    (fun l => (l.maxTags, l.maxParameterTags, ()))
    (fun (maxTags, maxParameterTags, ()) => ⟨maxTags, maxParameterTags⟩)

/-- Reads named texts. -/
def TagEntries.read (p : Place) (closed : Bool) :
    List (Option String × Draft) → Except Fault TagEntries
  | [] => if closed then .ok [] else .error .syntaxError
  | (none, _) :: _ => .error .syntaxError
  | (some key, d) :: ms => do
    let value ← string.read p d
    let es ← TagEntries.read p closed ms
    return (key, value) :: es

/-- How sets of tags are written and read. -/
def TagSet.codec : Codec TagSet where
  write s := .object (s.entries.map fun (key, value) => (key, .string value))
  read p d :=
    match d with
    | .object ms closed =>
      (TagEntries.read p.inner closed ms).map (TagSet.ofEntries TagLimits.default)
    | d => .error d.mismatch

/-- A record of measurements is a record of JSON. -/
def Record.codec : Codec Record :=
  record
    (.cons (required "name" string) <|
      .cons (required "value" float) <|
      .cons (required "timestamp_ms" int64) <|
      .cons (required "source" string) <|
      .cons (required "tags" TagSet.codec) .nil)
    (fun r => (r.name, r.value, r.time, r.source, r.tags, ()))
    (fun (name, value, time, source, tags, ()) => ⟨name, value, time, source, tags⟩)

end BuildMetrics
