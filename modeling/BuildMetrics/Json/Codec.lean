import BuildMetrics.Json.Printer
import BuildMetrics.Json.Reader

/-!
# Types in JSON

A codec says how the values of a type are written as JSON and how they are read from a draft.
Codecs of larger types are built from those of their parts; what a record looks like is one
list of fields, from which both directions follow.

A record is written as an object. It is read from an object, whose other members do not
matter, or from a list of its fields in their order. Reading goes through a draft from front to
back and stops at the first fault.
-/

namespace BuildMetrics.Json

/-- Where in a text a value stands. -/
structure Place where
  /-- how many lists and objects there are around the value -/
  depth : Nat
  /-- the value was kept until the end of the object around it had been read -/
  kept : Bool

namespace Place

/-- A whole text. -/
def top : Place := ⟨0, false⟩

/-- A part of the list or object at a place. -/
def inner (p : Place) : Place := ⟨p.depth + 1, p.kept⟩

/-- How many lists and objects inside one another a value may hold if it has to be kept. -/
def room (p : Place) : Nat := 127 - p.depth

end Place

/-- How a type is written and read. -/
structure Codec (α : Type) where
  /-- the written form -/
  write : α → Json
  /-- the value of a draft at a place -/
  read : Place → Draft → Except Fault α

namespace Codec

/-! ## Whole texts -/

/-- The text of a value. -/
def encode (c : Codec α) (a : α) : String := (c.write a).print

/-- The value that a text holds. What follows a value matters only once it has been read. -/
def decode (c : Codec α) (text : String) : Except Fault α := do
  let (d, isWhole) := Draft.ofChars text.toList
  let a ← c.read .top d
  if isWhole then return a else throw .syntaxError

/-! ## Simple types -/

/-- A text. -/
def string : Codec String where
  write s := .string s
  read _ d :=
    match d with
    | .string s => .ok s
    | d => .error d.mismatch

/-- A truth value. -/
def bool : Codec Bool where
  write b := .bool b
  read _ d :=
    match d with
    | .bool b => .ok b
    | d => .error d.mismatch

/-- An integer from `low` to `high`, as a value of another type. -/
def integer (low high : Int) (toInt : α → Int) (ofInt : Int → α) : Codec α where
  write a := .integer (toInt a)
  read _ d :=
    match d with
    | .integer n => if low ≤ n ∧ n ≤ high then .ok (ofInt n) else .error .shapeError
    | d => .error d.mismatch

/-- A count. -/
def nat : Codec Nat := integer 0 18446744073709551615 Int.ofNat Int.toNat

/-- An integer of 16 bits, without sign. -/
def uint16 : Codec UInt16 :=
  integer 0 65535 (fun n => Int.ofNat n.toNat) fun n => UInt16.ofNat n.toNat

/-- An integer of 32 bits, without sign. -/
def uint32 : Codec UInt32 :=
  integer 0 4294967295 (fun n => Int.ofNat n.toNat) fun n => UInt32.ofNat n.toNat

/-- An integer of 64 bits, without sign. -/
def uint64 : Codec UInt64 :=
  integer 0 18446744073709551615 (fun n => Int.ofNat n.toNat) fun n => UInt64.ofNat n.toNat

/-- An integer of 64 bits. -/
def int64 : Codec Int64 :=
  integer (-9223372036854775808) 9223372036854775807 Int64.toInt Int64.ofInt

/-- The double nearest to an integer of at most 64 bits. -/
def floatOfInt (n : Int) : Float :=
  if n < 0 then -(UInt64.ofNat (-n).toNat).toFloat else (UInt64.ofNat n.toNat).toFloat

/-- A double; any number will do. -/
def float : Codec Float where
  write x := .float x
  read _ d :=
    match d with
    | .float x => .ok x
    | .integer n => .ok (floatOfInt n)
    | d => .error d.mismatch

/-- A value that may be absent, which is written as `null`. -/
def option (c : Codec α) : Codec (Option α) where
  write a :=
    match a with
    | none => .null
    | some a => c.write a
  read p d :=
    match d with
    | .null => .ok none
    | d => (c.read p d).map some

/-- The items of a list, and its end. -/
def readItems (c : Codec α) (p : Place) (closed : Bool) : List Draft → Except Fault (List α)
  | [] => if closed then .ok [] else .error .syntaxError
  | d :: ds => do
    let a ← c.read p d
    let as ← readItems c p closed ds
    return a :: as

/-- A list. -/
def list (c : Codec α) : Codec (List α) where
  write as := .array (as.map c.write)
  read p d :=
    match d with
    | .array ds closed => readItems c p.inner closed ds
    | d => .error d.mismatch

/-! ## Words -/

/-- The value of an object that stands in the place of a word: the word is its only name, with
nothing behind it. -/
def readWordObject (word? : String → Option α) (p : Place) (closed : Bool) :
    List (Option String × Draft) → Except Fault α
  | (some k, d) :: rest => do
    let some a := word? k | throw .shapeError
    match d, rest with
    | .null, [] => if closed then return a else throw .syntaxError
    | .null, _ => throw (if p.kept then .shapeError else .syntaxError)
    | .object [] true, [] => if p.kept then return a else throw .shapeError
    | d, _ => throw d.mismatch
  | [] => .error (if p.kept then .shapeError else .syntaxError)
  | (none, _) :: _ => .error .syntaxError

/-- One of a few values, each of which has a word. Where a word is to come, a text that goes on
with neither a word nor an object is taken for no JSON. -/
def word (name : α → String) (values : List α) : Codec α where
  write a := .string (name a)
  read p d :=
    let word? (s : String) : Option α := values.find? fun a => name a = s
    match d with
    | .string s =>
      match word? s with
      | some a => .ok a
      | none => .error .shapeError
    | .object members closed => readWordObject word? p.inner closed members
    | _ => .error (if p.kept then .shapeError else .syntaxError)

/-! ## Records -/

/-- A field of a record. -/
structure Field (α : Type) where
  /-- the name of the field -/
  key : String
  /-- how its value is written and read -/
  codec : Codec α
  /-- its value where the name does not occur; without it the name has to occur -/
  absent : Option α
  /-- the values that are not written -/
  omits : α → Bool

/-- A field that has to be there. -/
def required (key : String) (c : Codec α) : Field α := ⟨key, c, none, fun _ => false⟩

/-- A field with a value where it is not there. -/
def defaulted (key : String) (c : Codec α) (a : α) : Field α := ⟨key, c, some a, fun _ => false⟩

/-- A field that may be absent, and is not written then. -/
def optional (key : String) (c : Codec α) : Field (Option α) :=
  ⟨key, c.option, some none, Option.isNone⟩

/-- A list that is empty where it is not there, and not written when it is empty. -/
def listed (key : String) (c : Codec α) : Field (List α) := ⟨key, c.list, some [], List.isEmpty⟩

/-- The fields of a record, in their order. -/
inductive Fields : List Type → Type 1 where
  /-- no fields -/
  | nil : Fields []
  /-- one more field in front -/
  | cons {α : Type} {ts : List Type} (f : Field α) (fs : Fields ts) : Fields (α :: ts)

/-- A value for each field. -/
def Row : List Type → Type
  | [] => Unit
  | t :: ts => t × Row ts

/-- What has been read for each field so far. -/
def Slots : List Type → Type
  | [] => Unit
  | t :: ts => Option t × Slots ts

/-- Nothing has been read yet. -/
def Slots.none : (ts : List Type) → Slots ts
  | [] => ()
  | _ :: ts => (Option.none, Slots.none ts)

namespace Fields

/-- The members that a record is written as. -/
def write : {ts : List Type} → Fields ts → Row ts → List (String × Json)
  | _, .nil, _ => []
  | _, .cons f fs, (a, row) =>
    if f.omits a then fs.write row else (f.key, f.codec.write a) :: fs.write row

/-- Reads a member into its slot; gives nothing if it is none of the fields. A name that occurs
once more is a fault before its value is looked at. -/
def put : {ts : List Type} → Fields ts → Place → String → Draft → Slots ts →
    Option (Except Fault (Slots ts))
  | _, .nil, _, _, _, _ => Option.none
  | _, .cons f fs, p, key, d, (slot, slots) =>
    if key = f.key then
      some (
        match slot with
        | some _ => .error .shapeError
        | Option.none => (f.codec.read p d).map fun a => (some a, slots))
    else (fs.put p key d slots).map fun r => r.map fun slots => (slot, slots)

/-- The values of all fields once everything has been read. -/
def finish : {ts : List Type} → Fields ts → Slots ts → Except Fault (Row ts)
  | _, .nil, _ => .ok ()
  | _, .cons f fs, (slot, slots) => do
    let some a := slot.or f.absent | throw .shapeError
    let row ← fs.finish slots
    return (a, row)

/-- Reads the members of an object into the slots. -/
def readMembers (fs : Fields ts) (p : Place) (closed : Bool) :
    List (Option String × Draft) → Slots ts → Except Fault (Slots ts)
  | [], slots => if closed then .ok slots else .error .syntaxError
  | (Option.none, _) :: _, _ => .error .syntaxError
  | (some key, d) :: ms, slots =>
    match fs.put p key d slots with
    | some r => do fs.readMembers p closed ms (← r)
    | Option.none => if d.isJson then fs.readMembers p closed ms slots else .error .syntaxError

/-- Reads the fields from a list. -/
def readRow : {ts : List Type} → Fields ts → Place → Bool → List Draft → Except Fault (Row ts)
  | _, .nil, p, closed, ds =>
    if closed && ds.isEmpty then .ok ()
    else .error (if p.kept then .shapeError else .syntaxError)
  | _, .cons f fs, p, closed, d :: ds => do
    let a ← f.codec.read p d
    let row ← fs.readRow p closed ds
    return (a, row)
  | _, .cons f fs, p, closed, [] =>
    if closed then do
      let some a := f.absent | throw .shapeError
      let row ← fs.readRow p closed []
      return (a, row)
    else .error .syntaxError

end Fields

/-- A record with the given fields. -/
def record (fs : Fields ts) (toRow : α → Row ts) (ofRow : Row ts → α) : Codec α where
  write a := .object (fs.write (toRow a))
  read p d :=
    match d with
    | .object members closed => do
      let slots ← fs.readMembers p.inner closed members (Slots.none ts)
      return ofRow (← fs.finish slots)
    | .array items closed => do
      return ofRow (← fs.readRow p.inner closed items)
    | d => .error d.mismatch

/-! ## Records inside records

The fields of a record may stand among the fields of the record that holds it. Such a record is
read from an object only. A member that is none of the outer fields is kept, and the inner record
is read from the kept members at the end. -/

/-- Reads the members of the outer record and keeps the others. -/
def readFlat (before : Fields ts) (after : Fields vs) (p : Place) (closed : Bool) :
    List (Option String × Draft) → Slots ts → Slots vs → List (Option String × Draft) →
    Except Fault (Slots ts × Slots vs × List (Option String × Draft))
  | [], s, t, kept => if closed then .ok (s, t, kept.reverse) else .error .syntaxError
  | (Option.none, _) :: _, _, _, _ => .error .syntaxError
  | (some key, d) :: ms, s, t, kept =>
    match before.put p key d s with
    | some r => do readFlat before after p closed ms (← r) t kept
    | Option.none =>
      match after.put p key d t with
      | some r => do readFlat before after p closed ms s (← r) kept
      | Option.none =>
        if d.isKept p.room then readFlat before after p closed ms s t ((some key, d) :: kept)
        else .error .syntaxError

/-- A record that has the fields of another record among its own. -/
def flat (before : Fields ts) (inside : Fields us) (after : Fields vs)
    (toRows : α → Row ts × Row us × Row vs) (ofRows : Row ts × Row us × Row vs → α) :
    Codec α where
  write a :=
    let (s, m, t) := toRows a
    .object (before.write s ++ inside.write m ++ after.write t)
  read p d :=
    match d with
    | .object members closed => do
      let (s, t, kept) ←
        readFlat before after p.inner closed members (Slots.none ts) (Slots.none vs) []
      let s ← before.finish s
      let t ← after.finish t
      let m ← inside.readMembers ⟨p.depth + 1, true⟩ true kept (Slots.none us)
      return ofRows (s, ← inside.finish m, t)
    | d => .error d.mismatch

end Codec

end BuildMetrics.Json
