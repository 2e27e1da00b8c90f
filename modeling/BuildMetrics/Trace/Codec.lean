import BuildMetrics.Json.Codec
import BuildMetrics.Trace.Graph

/-!
# Trace nodes in JSON

A marker is an object of its type and, for all but the mark of a branch, a value; it is read
from a list of these two as well.
-/

namespace BuildMetrics.Trace

open Json Json.Codec

/-- The words of the kinds of nodes. -/
def NodeKind.name : NodeKind → String
  | scopeStart => "scope_start"
  | scopeEnd => "scope_end"
  | other => "other"

/-- A kind is a word. -/
def NodeKind.codec : Codec NodeKind := word NodeKind.name [.scopeStart, .scopeEnd, .other]

/-- A status is a word. -/
def ScopeStatus.codec : Codec ScopeStatus := word ScopeStatus.name [.success, .failure, .aborted]

/-- An error is a record of its cause. -/
def ErrorInfo.codec : Codec ErrorInfo :=
  record (.cons (defaulted "cause" string.option none) .nil)
    (fun e => (e.cause, ())) (fun (cause, ()) => ⟨cause⟩)

/-! ## Markers -/

/-- The types of markers. -/
inductive MarkerType where
  /-- a label -/
  | label
  /-- a thread name -/
  | threadName
  /-- a branch -/
  | parallelBranch

/-- The words of the types of markers. -/
def MarkerType.name : MarkerType → String
  | label => "label"
  | threadName => "thread_name"
  | parallelBranch => "parallel_branch"

/-- A type is the text of its word, and nothing else. -/
def MarkerType.read : Draft → Except Fault MarkerType
  | .string s =>
    match [label, threadName, parallelBranch].find? fun t => t.name = s with
    | some t => .ok t
    | none => .error .shapeError
  | d => .error d.mismatch

/-- The marker of a type and a value. -/
def Marker.ofValue (p : Place) (d : Draft) : MarkerType → Except Fault Marker
  | .label => (string.read p d).map .label
  | .threadName => (string.read p d).map .threadName
  | .parallelBranch =>
    match d with
    | .null => .ok .parallelBranch
    | d => .error d.mismatch

/-- The marker of a type without a value. -/
def Marker.ofType : MarkerType → Except Fault Marker
  | .parallelBranch => .ok .parallelBranch
  | _ => .error .shapeError

/-- The next member that is the type (`true`) or the value of a marker. -/
def nextMarkerPart (closed : Bool) : List (Option String × Draft) →
    Except Fault (Option (Bool × Draft × List (Option String × Draft)))
  | [] => if closed then .ok none else .error .syntaxError
  | (none, _) :: _ => .error .syntaxError
  | (some key, d) :: ms =>
    if key = "type" then .ok (some (true, d, ms))
    else if key = "value" then .ok (some (false, d, ms))
    else if d.isJson then nextMarkerPart closed ms
    else .error .syntaxError

/-- A marker all of whose parts have been read, if none of them comes again. -/
def Marker.ofEnd (closed : Bool) (ms : List (Option String × Draft)) (m : Marker) :
    Except Fault Marker := do
  match ← nextMarkerPart closed ms with
  | none => return m
  | some _ => throw .shapeError

/-- Reads a marker from the members of an object. A value that comes before the type is kept. -/
def Marker.ofMembers (p : Place) (closed : Bool) (ms : List (Option String × Draft)) :
    Except Fault Marker := do
  match ← nextMarkerPart closed ms with
  | none => throw .shapeError
  | some (true, d, ms) =>
    let t ← MarkerType.read d
    match ← nextMarkerPart closed ms with
    | none => Marker.ofType t
    | some (true, _, _) => throw .shapeError
    | some (false, d, ms) => Marker.ofEnd closed ms (← Marker.ofValue p d t)
  | some (false, v, ms) =>
    if v.isKept p.room then
      match ← nextMarkerPart closed ms with
      | some (true, d, ms) =>
        let t ← MarkerType.read d
        Marker.ofEnd closed ms (← Marker.ofValue p v t)
      | _ => throw .shapeError
    else throw .syntaxError

/-- Reads a marker from the items of a list. -/
def Marker.ofItems (p : Place) (closed : Bool) : List Draft → Except Fault Marker
  | [] => .error (if closed then .shapeError else .syntaxError)
  | d :: ds => do
    let t ← MarkerType.read d
    match ds with
    | [] => throw (if closed then .shapeError else .syntaxError)
    | v :: ds =>
      let m ← Marker.ofValue p v t
      if closed && ds.isEmpty then return m else throw .syntaxError

/-- How markers are written and read. -/
def Marker.codec : Codec Marker where
  write m :=
    match m with
    | .label text => .object [("type", .string MarkerType.label.name), ("value", .string text)]
    | .threadName name =>
      .object [("type", .string MarkerType.threadName.name), ("value", .string name)]
    | .parallelBranch => .object [("type", .string MarkerType.parallelBranch.name)]
  read p d :=
    match d with
    | .object ms closed => Marker.ofMembers p.inner closed ms
    | .array ds closed => Marker.ofItems p.inner closed ds
    | d => .error d.mismatch

/-! ## Nodes -/

/-- A number is an integer. -/
def NodeId.codec : Codec NodeId := uint32

/-- A node is a record; what it does not have is not written. -/
def Node.codec : Codec Node :=
  record
    (.cons (required "id" NodeId.codec) <|
      .cons (required "kind" NodeKind.codec) <|
      .cons (defaulted "display_name" string "") <|
      .cons (required "start_time_ms" int64) <|
      .cons (optional "error" ErrorInfo.codec) <|
      .cons (listed "markers" Marker.codec) <|
      .cons (listed "parents" NodeId.codec) .nil)
    (fun n =>
      (n.id, n.kind, n.displayName, n.startTime, n.error, n.markers, n.parents, ()))
    (fun (id, kind, displayName, startTime, error, markers, parents, ()) =>
      ⟨id, kind, displayName, startTime, error, markers, parents⟩)

end BuildMetrics.Trace
