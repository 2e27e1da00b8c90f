import BuildMetrics.Proofs.Json.Yields

/-!
# Reading undoes writing

A codec that reads what it wrote from a draft reads it from a text as well, if every finite
double of the value is read back from its own digits.

* `Codec.RoundTrips`: what it means that reading undoes writing;
* `Codec.roundTrips`: it does if the codec reads what it wrote and if what it reads fits its text.
-/

namespace BuildMetrics.Json

variable {α : Type}

/-- `x` is one of the doubles in a value. -/
inductive Holds (x : Float) : Json → Prop where
  /-- it is the value itself -/
  | float : Holds x (.float x)
  /-- it stands in a list -/
  | item {j : Json} {items : List Json} (hj : j ∈ items) (h : Holds x j) : Holds x (.array items)
  /-- it stands in an object -/
  | member {m : String × Json} {members : List (String × Json)} (hm : m ∈ members)
      (h : Holds x m.2) : Holds x (.object members)

/-- A value fits with any property that all its doubles have. -/
theorem Fits.mono {P Q : Float → Prop} {j : Json} (h : Fits P j)
    (hPQ : ∀ x, Holds x j → P x → Q x) : Fits Q j := by
  induction h with
  | null => exact .null
  | bool b => exact .bool b
  | integer low high => exact .integer low high
  | float h => exact .float (hPQ _ .float h)
  | string s => exact .string s
  | array h ih => exact .array fun j hj => ih j hj fun x hx => hPQ x (.item hj hx)
  | object h ih => exact .object fun m hm => ih m hm fun x hx => hPQ x (.member hm hx)

/-- Each double in a value that fits has the property. -/
theorem Fits.of_holds {P : Float → Prop} {j : Json} {x : Float} (hfits : Fits P j)
    (h : Holds x j) : P x := by
  induction h with
  | float =>
    cases hfits with
    | float hx => exact hx
  | item hj _ ih =>
    cases hfits with
    | array hall => exact ih (hall _ hj)
  | member hm _ ih =>
    cases hfits with
    | object hall => exact ih (hall _ hm)

/-- The draft of a value holds the doubles of the value. -/
theorem Draft.Holds.toJson {x : Float} {d : Draft} (h : d.Holds x) {j : Json} (hd : d = .ofJson j) :
    Json.Holds x j := by
  induction h generalizing j with
  | float =>
    cases j with
    | float y =>
      cases hd
      exact .float
    | _ => cases hd
  | item hmem _ ih =>
    cases j with
    | array js =>
      cases hd
      rw [Draft.ofItems_eq_map] at hmem
      obtain ⟨k, hk, rfl⟩ := List.mem_map.mp hmem
      exact .item hk (ih rfl)
    | _ => cases hd
  | member hmem _ ih =>
    cases j with
    | object ms =>
      cases hd
      rw [Draft.ofMembers_eq_map] at hmem
      obtain ⟨n, hn, rfl⟩ := List.mem_map.mp hmem
      exact .member hn (ih rfl)
    | _ => cases hd

namespace Codec

/-- The doubles of a value are finite. -/
def FloatsFinite (c : Codec α) (a : α) : Prop := ∀ x, Holds x (c.write a) → x.isFinite = true

/-- The finite doubles of a value are read back where they stand alone. -/
def FloatsReadBack (c : Codec α) (a : α) : Prop :=
  ∀ x, Holds x (c.write a) → x.isFinite = true → float.ReadsBack x

/-- Reading undoes writing, for all values in a range and for all values that are read. -/
def RoundTrips (c : Codec α) (inRange : α → Prop) : Prop :=
  (∀ a, inRange a → c.FloatsFinite a → c.FloatsReadBack a → c.ReadsBack a) ∧
    ∀ text a, c.decode text = .ok a → c.FloatsReadBack a → c.ReadsBack a

/-- A value is read back if it comes out where errors are left aside. -/
theorem readsBack_of_toOption {c : Codec α} {a : α}
    (h : (c.decode (c.encode a)).toOption = some a) : c.ReadsBack a := by
  rw [ReadsBack]
  cases hdecode : c.decode (c.encode a) with
  | error e =>
    rw [hdecode] at h
    cases h
  | ok b =>
    rw [hdecode] at h
    cases h
    rfl

/-- A value is read back from its text if it is read back from its draft and its doubles are read
back from their texts. -/
theorem readsBack_of_rereads {c : Codec α} {a : α} (hread : c.Rereads .top a)
    (hfinite : Finite (c.write a)) (hfloats : c.FloatsReadBack a) : c.ReadsBack a := by
  have hreadable : Readable (c.write a) := hfinite.mono hfloats
  refine decode_eq_ok_iff.mpr ⟨.ofJson (c.write a), ?_, hread⟩
  rw [encode, print, String.toList_ofList]
  exact hreadable.ofChars

/-- A value without doubles is read back. -/
theorem readsBack_of_no_floats {c : Codec α} {a : α} (hread : c.Rereads .top a)
    (hfits : Fits (fun _ => False) (c.write a)) : c.ReadsBack a :=
  readsBack_of_rereads hread (hfits.mono fun _ _ h => h.elim) fun _ hx _ => (hfits.of_holds hx).elim

/-- A codec that reads what it wrote round-trips, if what it reads fits its text. -/
theorem roundTrips {c : Codec α} {inRange : α → Prop} (hread : ∀ a, inRange a → c.Rereads .top a)
    (hyields : c.Yields) (hrange : ∀ a, Finite (c.write a) → inRange a) :
    c.RoundTrips inRange := by
  constructor
  · intro a ha hfinite hfloats
    refine readsBack_of_rereads (hread a ha) (hyields _ _ a ?_ (hread a ha)) hfloats
    exact fun x hx => hfinite x (hx.toJson rfl)
  · intro text a hdecode hfloats
    obtain ⟨d, hchars, ha⟩ := decode_eq_ok_iff.mp hdecode
    have hd : d.Finite := by
      intro x hx
      have hholds : (Draft.ofChars text.toList).1.Holds x := by rwa [hchars]
      exact isFinite_of_holds_ofChars hholds
    have hfinite := hyields _ d a hd ha
    exact readsBack_of_rereads (hread a (hrange a hfinite)) hfinite hfloats

end Codec

end BuildMetrics.Json
