/-!
# JSON values

The values that the library writes as JSON, and the outcome of reading a text that should
hold one. A text is read once, from front to back, against the type that is expected. Two
things can go wrong: the text stops being JSON, or it is JSON of another shape than the type
asks for. Whichever is met first is the fault of the text.
-/

namespace BuildMetrics

/-- A JSON value. The members of an object stand in the order in which they are written. -/
inductive Json where
  /-- nothing -/
  | null
  /-- a truth value -/
  | bool (b : Bool)
  /-- a number without fraction and exponent -/
  | integer (n : Int)
  /-- any other number -/
  | float (x : Float)
  /-- a text -/
  | string (s : String)
  /-- a list of values -/
  | array (items : List Json)
  /-- named values -/
  | object (members : List (String × Json))
  deriving Inhabited

namespace Json

/-- Why a text does not give a value of the expected type. -/
inductive Fault where
  /-- the text is not JSON, or holds a number or a text that nothing can stand for -/
  | syntaxError
  /-- the value is not of the expected type -/
  | shapeError
  deriving DecidableEq, Repr

/-- A JSON text as far as it can be read. Nothing follows a `broken` part: a list or an object
that holds one, and everything around it, is left open at its end. -/
inductive Draft where
  /-- from here on the text is not JSON -/
  | broken
  /-- a number too great for any type, or a text with half a pair of surrogates -/
  | unreadable
  /-- nothing -/
  | null
  /-- a truth value -/
  | bool (b : Bool)
  /-- a number that fits 64 bits and has neither fraction nor exponent -/
  | integer (n : Int)
  /-- any other number -/
  | float (x : Float)
  /-- a text -/
  | string (s : String)
  /-- a list of values; `closed` if its end was met -/
  | array (items : List Draft) (closed : Bool)
  /-- named values in the order of the text; the name is absent if it is unreadable -/
  | object (members : List (Option String × Draft)) (closed : Bool)
  deriving Inhabited

namespace Draft

/-- The fault of a text in which something else than this part was expected. What is inside a
list or an object is not looked at. -/
def mismatch : Draft → Fault
  | .broken | .unreadable => .syntaxError
  | _ => .shapeError

mutual

/-- The part is JSON. That is all that is asked of the value of a name that nobody reads. -/
def isJson : Draft → Bool
  | .broken => false
  | .array items closed => closed && areJson items
  | .object members closed => closed && areJsonMembers members
  | _ => true

/-- Every item is JSON. -/
def areJson : List Draft → Bool
  | [] => true
  | d :: ds => isJson d && areJson ds

/-- Every member's value is JSON. -/
def areJsonMembers : List (Option String × Draft) → Bool
  | [] => true
  | (_, d) :: ms => isJson d && areJsonMembers ms

end

mutual

/-- The part is JSON, all of it is readable, and it holds at most `room` lists and objects
inside one another. This is asked of a value that is kept until the text around it is read. -/
def isKept : Nat → Draft → Bool
  | _, .broken | _, .unreadable => false
  | room, .array items closed => 0 < room && closed && areKept (room - 1) items
  | room, .object members closed => 0 < room && closed && areKeptMembers (room - 1) members
  | _, _ => true

/-- Every item can be kept. -/
def areKept : Nat → List Draft → Bool
  | _, [] => true
  | room, d :: ds => isKept room d && areKept room ds

/-- Every member, its name included, can be kept. -/
def areKeptMembers : Nat → List (Option String × Draft) → Bool
  | _, [] => true
  | room, (k, d) :: ms => k.isSome && isKept room d && areKeptMembers room ms

end

mutual

/-- The draft of a text that holds just this value. -/
def ofJson : Json → Draft
  | .null => .null
  | .bool b => .bool b
  | .integer n => .integer n
  | .float x => .float x
  | .string s => .string s
  | .array items => .array (ofItems items) true
  | .object members => .object (ofMembers members) true

/-- The drafts of the items of a list. -/
def ofItems : List Json → List Draft
  | [] => []
  | j :: js => ofJson j :: ofItems js

/-- The drafts of the members of an object. -/
def ofMembers : List (String × Json) → List (Option String × Draft)
  | [] => []
  | (k, j) :: ms => (some k, ofJson j) :: ofMembers ms

end

end Draft

end Json

end BuildMetrics
