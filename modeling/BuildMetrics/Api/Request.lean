import BuildMetrics.Api.MediaType
import BuildMetrics.Config.Codec
import BuildMetrics.Run.Codec
import BuildMetrics.Text.PercentEscape

/-!
# Requests

A request names a method and a path and may have a body. Before anything is done, it is read: it
becomes one of a few calls, or is rejected. What is wrong with the path comes before what is wrong
with the method, and that before what is wrong with the body: its type, its length, and what is
in it, in this order.
-/

namespace BuildMetrics.Api

open Run (Event StepEvent)

/-! ## Methods -/

/-- The methods of requests. -/
inductive Method where
  /-- show something -/
  | get
  /-- like `get`, without the body of the answer -/
  | head
  /-- report something -/
  | post
  /-- set something -/
  | put
  /-- take something away -/
  | delete
  /-- ask what is allowed -/
  | options
  /-- any other -/
  | other
  deriving DecidableEq, Repr

/-- The method that a word names. -/
def Method.ofText (s : String) : Method :=
  if s = "GET" then get
  else if s = "HEAD" then head
  else if s = "POST" then post
  else if s = "PUT" then put
  else if s = "DELETE" then delete
  else if s = "OPTIONS" then options
  else other

/-! ## Bodies -/

/-- What is sent along with a request. -/
structure Body where
  /-- the bytes -/
  bytes : List UInt8
  deriving DecidableEq, Repr

namespace Body

/-- A text as it is sent. -/
def ofText (s : String) : Body := ⟨Text.utf8Bytes s⟩

instance : Coe String Body := ⟨ofText⟩

/-- The greatest number of bytes that are taken in, two mebibytes. -/
def limit : Nat := 2097152

/-- There are more bytes than are taken in. -/
def isTooLong (b : Body) : Bool := limit < b.bytes.length

/-- What stands for bytes that are no UTF-8: half a pair of surrogates. Inside a text it spoils the
text for one who reads it and for nobody else, and anywhere else it is no JSON. So do bytes that are
no UTF-8. Marks on both sides keep it from being taken together with what stands there. -/
def spoiled : List Char := "?\\ud800?".toList

/-- The text of a body. -/
def text (b : Body) : String := Text.decodeUtf8With spoiled b.bytes

end Body

/-- A request. -/
structure Request where
  /-- the method -/
  method : Method
  /-- the path, with what may follow it -/
  target : String
  /-- the media type of the body, if it is given -/
  contentType : Option String
  /-- the body -/
  body : Body
  deriving DecidableEq, Repr

/-! ## Paths -/

/-- What there is to ask for. -/
inductive Route where
  /-- runs -/
  | runs
  /-- timed steps -/
  | steps
  /-- the configuration -/
  | config
  /-- what a job asks for; the name of the job is still escaped -/
  | property (segment : String)
  /-- the state of the service -/
  | health
  deriving DecidableEq, Repr

/-- The parts of a path between its slashes. -/
def segments : List Char → List (List Char)
  | [] => [[]]
  | c :: cs =>
    match c, segments cs with
    | '/', parts => [] :: parts
    | c, part :: parts => (c :: part) :: parts
    | c, [] => [[c]]

/-- The path of a target, without query and fragment. -/
def pathChars (target : String) : List Char :=
  target.toList.takeWhile fun c => c ≠ '?' && c ≠ '#'

/-- The route of a target. Paths have to match to the letter; the name of a job may be any segment,
the empty one too. -/
def Route.ofTarget? (target : String) : Option Route :=
  match (segments (pathChars target)).map String.ofList with
  | ["", "runs"] => some .runs
  | ["", "steps"] => some .steps
  | ["", "config"] => some .config
  | ["", "health"] => some .health
  | ["", "jobs", segment, "property"] => some (.property segment)
  | _ => none

/-! ## Calls -/

/-- Why a request is not even tried. -/
inductive Rejection where
  /-- there is no such path -/
  | noRoute
  /-- the path does not know the method -/
  | wrongMethod
  /-- the name in the path is no text -/
  | badSegment
  /-- the body does not claim to be JSON -/
  | notJsonType
  /-- the body is too long -/
  | tooLong
  /-- the body does not give what is asked for -/
  | badBody (fault : Json.Fault)
  deriving DecidableEq, Repr

/-- The status of the answer. -/
def Rejection.status : Rejection → Nat
  | noRoute => 404
  | wrongMethod => 405
  | badSegment => 400
  | notJsonType => 415
  | tooLong => 413
  | badBody .syntaxError => 400
  | badBody .shapeError => 422

/-- What a request asks to be done. -/
inductive Call where
  /-- report a run -/
  | reportRun (event : Event)
  /-- report a timed step -/
  | reportStep (event : StepEvent)
  /-- show the configuration -/
  | showConfig
  /-- put a configuration in force -/
  | setConfig (config : Config)
  /-- show what a job asks for -/
  | showProperty (job : String)
  /-- keep what a job asks for -/
  | setProperty (job : String) (property : JobProperty)
  /-- forget what a job asks for -/
  | dropProperty (job : String)
  /-- tell the state of the service -/
  | showHealth

namespace Request

/-- The body as a value of a type. -/
def read (r : Request) (c : Json.Codec α) : Except Rejection α :=
  if r.contentType.any isJsonType then
    if r.body.isTooLong then .error .tooLong else (c.decode r.body.text).mapError .badBody
  else .error .notJsonType

/-- The name of a job in a path. -/
def jobName (segment : String) : Except Rejection String :=
  match Text.decodeUtf8? (Text.unescape segment.toList) with
  | some name => .ok name
  | none => .error .badSegment

/-- The call of a request. -/
def call (r : Request) : Except Rejection Call := do
  let some route := Route.ofTarget? r.target | throw .noRoute
  match route, r.method with
  | .runs, .post => return .reportRun (← r.read Run.Event.codec)
  | .steps, .post => return .reportStep (← r.read Run.StepEvent.codec)
  | .config, .get | .config, .head => return .showConfig
  | .config, .put => return .setConfig (← r.read Config.codec)
  | .property segment, .get | .property segment, .head =>
    return .showProperty (← jobName segment)
  | .property segment, .put => do
    let job ← jobName segment
    return .setProperty job (← r.read JobProperty.codec)
  | .property segment, .delete => return .dropProperty (← jobName segment)
  | .health, .get | .health, .head => return .showHealth
  | _, _ => throw .wrongMethod

end Request

end BuildMetrics.Api
