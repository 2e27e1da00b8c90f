import BuildMetrics.Proofs.Json.Finite
import BuildMetrics.Proofs.Json.Printed
import BuildMetrics.Proofs.Json.Rereads

/-!
# Values that are read fit their texts

Whatever a codec reads from a draft whose doubles are finite, it writes with integers of 64 bits
and finite doubles. So a value that was read can be written and read again.

* `Codec.Yields`: what a codec reads, it writes that way;
* `Codec.yields_record`, `Codec.yields_flat`: a record does if its fields do.
-/

namespace BuildMetrics.Json

variable {α β : Type} {ts us vs : List Type} {p : Place}

theorem bind_eq_ok_iff {x : Except Fault α} {f : α → Except Fault β} {b : β} :
    x >>= f = .ok b ↔ ∃ a, x = .ok a ∧ f a = .ok b := by
  cases x with
  | error e =>
    constructor
    · rintro ⟨⟩
    · rintro ⟨a, ⟨⟩, -⟩
  | ok a =>
    constructor
    · exact fun h => ⟨a, rfl, h⟩
    · rintro ⟨_, ⟨⟩, h⟩
      exact h

theorem map_eq_ok_iff {x : Except Fault α} {f : α → β} {b : β} :
    x.map f = .ok b ↔ ∃ a, x = .ok a ∧ f a = b := by
  cases x with
  | error e =>
    constructor
    · rintro ⟨⟩
    · rintro ⟨a, ⟨⟩, -⟩
  | ok a =>
    constructor
    · rintro ⟨⟩
      exact ⟨a, rfl, rfl⟩
    · rintro ⟨_, ⟨⟩, rfl⟩
      rfl

/-- The integers of a value fit 64 bits and its doubles are finite. -/
abbrev Finite : Json → Prop := Fits fun x => x.isFinite = true

/-- The doubles of a draft are finite. -/
def Draft.Finite (d : Draft) : Prop := ∀ x, d.Holds x → x.isFinite = true

theorem Draft.Finite.item {d : Draft} {ds : List Draft} {closed : Bool}
    (h : (Draft.array ds closed).Finite) (hd : d ∈ ds) : d.Finite :=
  fun x hx => h x (.item hd hx)

theorem Draft.Finite.member {m : Option String × Draft} {ms : List (Option String × Draft)}
    {closed : Bool} (h : (Draft.object ms closed).Finite) (hm : m ∈ ms) : m.2.Finite :=
  fun x hx => h x (.member hm hx)

namespace Codec

/-- Everything that is read from a draft of finite doubles is written with integers of 64 bits
and finite doubles. -/
def Yields (c : Codec α) : Prop :=
  ∀ p d a, d.Finite → c.read p d = .ok a → Finite (c.write a)

/-! ## Simple types -/

/-- It does not matter what was read where everything fits when it is written. -/
theorem yields_of_forall {c : Codec α} (h : ∀ a, Finite (c.write a)) : c.Yields :=
  fun _ _ a _ _ => h a

theorem yields_string : string.Yields := yields_of_forall fun s => .string s

theorem yields_bool : bool.Yields := yields_of_forall fun b => .bool b

theorem yields_word (name : α → String) (values : List α) : (word name values).Yields :=
  yields_of_forall fun a => .string (name a)

theorem fits_write_uint32 {P : Float → Prop} (n : UInt32) : Fits P (uint32.write n) :=
  .integer (Int.le_trans (by decide) (Int.natCast_nonneg _))
    (Int.lt_trans (Int.ofNat_lt.mpr n.toNat_lt) (by decide))

theorem fits_write_uint64 {P : Float → Prop} (n : UInt64) : Fits P (uint64.write n) :=
  .integer (Int.le_trans (by decide) (Int.natCast_nonneg _)) (Int.ofNat_lt.mpr n.toNat_lt)

theorem fits_write_int64 {P : Float → Prop} (n : Int64) : Fits P (int64.write n) :=
  .integer n.le_toInt (Int.lt_trans n.toInt_lt (by decide))

theorem yields_uint32 : uint32.Yields := yields_of_forall fits_write_uint32

theorem yields_uint64 : uint64.Yields := yields_of_forall fits_write_uint64

theorem yields_int64 : int64.Yields := yields_of_forall fits_write_int64

/-- A count that was read has 64 bits. -/
theorem yields_nat : nat.Yields := by
  intro p d a _ hread
  cases d with
  | integer n =>
    have hread : (if 0 ≤ n ∧ n ≤ 18446744073709551615 then Except.ok n.toNat
        else .error Fault.shapeError) = Except.ok a := hread
    split at hread
    · next hn =>
      cases hread
      have hwrite : nat.write n.toNat = .integer n :=
        congrArg Json.integer (Int.toNat_of_nonneg hn.1)
      rw [hwrite]
      exact .integer (by omega) (by omega)
    · cases hread
  | _ => cases hread

/-- A double that was read is finite if those in the draft are. -/
theorem yields_float : float.Yields := by
  intro p d x hd h
  cases d with
  | float y =>
    cases h
    exact .float (hd _ .float)
  | integer n =>
    cases h
    exact .float (isFinite_floatOfInt n)
  | _ => cases h

/-- What may be absent fits if it fits when it is there. -/
theorem yields_option {c : Codec α} (h : c.Yields) : c.option.Yields := by
  intro p d o hd ho
  cases o with
  | none => exact .null
  | some a =>
    have hread : (c.read p d).map some = .ok (some a) := by
      cases d with
      | null => cases ho
      | _ => exact ho
    obtain ⟨b, hb, heq⟩ := map_eq_ok_iff.mp hread
    cases heq
    exact h p d a hd hb

/-- A list that was read fits if its items do. -/
theorem yields_list {c : Codec α} (h : c.Yields) : c.list.Yields := by
  intro p d as hd has
  cases d with
  | array ds closed =>
    have hall : ∀ ds : List Draft, (∀ d ∈ ds, d.Finite) → ∀ as,
        readItems c p.inner closed ds = .ok as → ∀ a ∈ as, Finite (c.write a) := by
      intro ds hds
      induction ds with
      | nil =>
        intro as has
        cases closed <;> cases has
        exact List.forall_mem_nil _
      | cons d ds ih =>
        intro as has
        obtain ⟨a, ha, has⟩ := bind_eq_ok_iff.mp has
        obtain ⟨as', has', heq⟩ := bind_eq_ok_iff.mp has
        cases heq
        obtain ⟨hd, hds⟩ := List.forall_mem_cons.mp hds
        exact List.forall_mem_cons.mpr ⟨h _ d a hd ha, ih hds as' has'⟩
    refine .array fun j hj => ?_
    obtain ⟨a, ha, rfl⟩ := List.mem_map.mp hj
    exact hall ds (fun d hmem => hd.item hmem) as has a ha
  | _ => cases has

/-! ## Fields -/

/-- What is read for a field, or taken if it is not there, fits its text. -/
def Field.Yields (f : Field α) : Prop :=
  f.codec.Yields ∧ ∀ a, f.absent = some a → Finite (f.codec.write a)

theorem yields_required {key : String} {c : Codec α} (h : c.Yields) : (required key c).Yields :=
  ⟨h, nofun⟩

theorem yields_defaulted {key : String} {c : Codec α} {b : α} (h : c.Yields)
    (hb : Finite (c.write b)) : (defaulted key c b).Yields := by
  refine ⟨h, ?_⟩
  rintro _ ⟨⟩
  exact hb

theorem yields_optional {key : String} {c : Codec α} (h : c.Yields) :
    (optional key c).Yields := by
  refine ⟨yields_option h, ?_⟩
  rintro _ ⟨⟩
  exact .null

theorem finite_write_nil (c : Codec α) : Finite (c.list.write []) := .array (List.forall_mem_nil _)

theorem yields_listed {key : String} {c : Codec α} (h : c.Yields) : (listed key c).Yields := by
  refine ⟨yields_list h, ?_⟩
  rintro _ ⟨⟩
  exact finite_write_nil c

namespace Fields

/-- All fields fit their texts. -/
def Yields : {ts : List Type} → Fields ts → Prop
  | _, .nil => True
  | _, .cons f fs => f.Yields ∧ fs.Yields

/-- What has been read so far fits its text. -/
def FiniteSlots : {ts : List Type} → Fields ts → Slots ts → Prop
  | _, .nil, _ => True
  | _, .cons f fs, (slot, slots) =>
    (∀ a ∈ slot, Finite (f.codec.write a)) ∧ fs.FiniteSlots slots

variable {fs : Fields ts} {closed : Bool}

/-- Before anything has been read, all that has been read fits. -/
theorem finiteSlots_none (fs : Fields ts) : fs.FiniteSlots (Slots.none ts) := by
  induction fs with
  | nil => trivial
  | cons f fs ih => exact ⟨nofun, ih⟩

/-- What has been read still fits when one more member has been read. -/
theorem finiteSlots_put (hfs : fs.Yields) {key : String} {d : Draft} {s s' : Slots ts}
    (hd : d.Finite) (hs : fs.FiniteSlots s) (hput : fs.put p key d s = some (.ok s')) :
    fs.FiniteSlots s' := by
  induction fs with
  | nil => cases hput
  | cons f fs ih =>
    obtain ⟨slot, s⟩ := s
    obtain ⟨hslot, hs⟩ := hs
    obtain ⟨hf, hfs⟩ := hfs
    by_cases hkey : key = f.key
    · subst hkey
      cases slot with
      | some b => cases (put_again f fs b d s).symm.trans hput
      | none =>
        have hread := Option.some.inj ((put_self f fs d s).symm.trans hput)
        obtain ⟨a, ha, rfl⟩ := map_eq_ok_iff.mp hread
        refine ⟨?_, hs⟩
        rintro _ ⟨⟩
        exact hf.1 p d a hd ha
    · obtain ⟨r, hr, hmap⟩ := Option.map_eq_some_iff.mp ((put_of_ne hkey d slot s).symm.trans hput)
      obtain ⟨s', rfl, rfl⟩ := map_eq_ok_iff.mp hmap
      exact ⟨hslot, ih hfs hs hr⟩

/-- What has been read fits when all members have been read. -/
theorem finiteSlots_readMembers (hfs : fs.Yields) {ms : List (Option String × Draft)}
    {s s' : Slots ts} (hms : ∀ m ∈ ms, m.2.Finite) (hs : fs.FiniteSlots s)
    (hread : fs.readMembers p closed ms s = .ok s') : fs.FiniteSlots s' := by
  induction ms generalizing s with
  | nil =>
    cases closed <;> cases hread
    exact hs
  | cons m ms ih =>
    obtain ⟨key, d⟩ := m
    obtain ⟨hd, hrest⟩ := List.forall_mem_cons.mp hms
    cases key with
    | none => cases hread
    | some key =>
      cases hput : fs.put p key d s with
      | none =>
        rw [readMembers_of_not_put hput] at hread
        split at hread
        · exact ih hrest hs hread
        · cases hread
      | some r =>
        rw [readMembers_of_put hput] at hread
        obtain ⟨s₁, rfl, hread⟩ := bind_eq_ok_iff.mp hread
        exact ih hrest (finiteSlots_put hfs hd hs hput) hread

/-- Fields fit when they are written if the first one and the others do. -/
theorem finite_write_cons {f : Field α} {a : α} {row : Row ts} (ha : Finite (f.codec.write a))
    (h : ∀ m ∈ fs.write row, Finite m.2) :
    ∀ m ∈ (Fields.cons f fs).write (a, row), Finite m.2 := by
  rw [write_cons]
  split
  · exact h
  · exact List.forall_mem_cons.mpr ⟨ha, h⟩

/-- What stands at the end for the fields fits when it is written. -/
theorem finite_finish (hfs : fs.Yields) {s : Slots ts} {row : Row ts} (hs : fs.FiniteSlots s)
    (h : fs.finish s = .ok row) : ∀ m ∈ fs.write row, Finite m.2 := by
  induction fs with
  | nil => exact List.forall_mem_nil _
  | cons f fs ih =>
    obtain ⟨slot, s⟩ := s
    obtain ⟨hslot, hs⟩ := hs
    obtain ⟨hf, hfs⟩ := hfs
    have h := (finish_cons f fs slot s).symm.trans h
    cases hor : slot.or f.absent with
    | none =>
      rw [hor] at h
      cases h
    | some a =>
      rw [hor] at h
      obtain ⟨row, hrow, heq⟩ := bind_eq_ok_iff.mp h
      cases heq
      refine finite_write_cons ?_ (ih hfs hs hrow)
      rcases Option.or_eq_some_iff.mp hor with hsome | ⟨-, habsent⟩
      · exact hslot a hsome
      · exact hf.2 a habsent

/-- Where the items of a list have ended, fields have what stands for absent ones. -/
theorem readRow_nil (f : Field α) (fs : Fields ts) :
    (Fields.cons f fs).readRow p closed [] =
      if closed then f.absent.elim (.error .shapeError)
        fun a => (fs.readRow p closed []).bind fun row => .ok (a, row)
      else .error .syntaxError := by
  simp only [readRow]
  cases f.absent <;> rfl

/-- Fields that were read from the items of a list fit when they are written. -/
theorem finite_readRow (hfs : fs.Yields) {ds : List Draft} {row : Row ts}
    (hds : ∀ d ∈ ds, d.Finite) (h : fs.readRow p closed ds = .ok row) :
    ∀ m ∈ fs.write row, Finite m.2 := by
  induction fs generalizing ds with
  | nil => exact List.forall_mem_nil _
  | cons f fs ih =>
    obtain ⟨hf, hfs⟩ := hfs
    cases ds with
    | nil =>
      rw [readRow_nil] at h
      split at h
      · cases habsent : f.absent with
        | none =>
          rw [habsent] at h
          cases h
        | some a =>
          rw [habsent] at h
          obtain ⟨row, hrow, heq⟩ := bind_eq_ok_iff.mp h
          cases heq
          exact finite_write_cons (hf.2 a habsent) (ih hfs hds hrow)
      · cases h
    | cons d ds =>
      obtain ⟨hd, hrest⟩ := List.forall_mem_cons.mp hds
      obtain ⟨a, ha, h⟩ := bind_eq_ok_iff.mp h
      obtain ⟨row, hrow, heq⟩ := bind_eq_ok_iff.mp h
      cases heq
      exact finite_write_cons (hf.1 p d a hd ha) (ih hfs hrest hrow)

end Fields

/-- **A record fits its text if its fields do.** -/
theorem yields_record {fs : Fields ts} {toRow : α → Row ts} {ofRow : Row ts → α} (hfs : fs.Yields)
    (hinverse : ∀ row, toRow (ofRow row) = row) : (record fs toRow ofRow).Yields := by
  intro p d a hd hread
  refine .object ?_
  cases d with
  | object ms closed =>
    obtain ⟨s, hs, hread⟩ := bind_eq_ok_iff.mp hread
    obtain ⟨row, hrow, heq⟩ := bind_eq_ok_iff.mp hread
    cases heq
    rw [hinverse]
    exact Fields.finite_finish hfs (Fields.finiteSlots_readMembers hfs
      (fun m hm => hd.member hm) (Fields.finiteSlots_none fs) hs) hrow
  | array ds closed =>
    obtain ⟨row, hrow, heq⟩ := bind_eq_ok_iff.mp hread
    cases heq
    rw [hinverse]
    exact Fields.finite_readRow hfs (fun d hmem => hd.item hmem) hrow
  | _ => cases hread

/-! ## Records inside records -/

/-- What was read before and after the inner fields fits, and so do the members that were kept for
these. -/
theorem finite_readFlat {before : Fields ts} {after : Fields vs} {closed : Bool}
    (hbefore : before.Yields) (hafter : after.Yields)
    {ms kept kept' : List (Option String × Draft)} {s s' : Slots ts} {t t' : Slots vs}
    (hms : ∀ m ∈ ms, m.2.Finite) (hs : before.FiniteSlots s) (ht : after.FiniteSlots t)
    (hkept : ∀ m ∈ kept, m.2.Finite)
    (h : readFlat before after p closed ms s t kept = .ok (s', t', kept')) :
    before.FiniteSlots s' ∧ after.FiniteSlots t' ∧ ∀ m ∈ kept', m.2.Finite := by
  induction ms generalizing s t kept with
  | nil =>
    cases closed <;> cases h
    exact ⟨hs, ht, fun m hm => hkept m (List.mem_reverse.mp hm)⟩
  | cons m ms ih =>
    obtain ⟨key, d⟩ := m
    obtain ⟨hd, hrest⟩ := List.forall_mem_cons.mp hms
    cases key with
    | none => cases h
    | some key =>
      cases hput : before.put p key d s with
      | some r =>
        rw [readFlat_of_put hput] at h
        obtain ⟨s₁, rfl, h⟩ := bind_eq_ok_iff.mp h
        exact ih hrest (Fields.finiteSlots_put hbefore hd hs hput) ht hkept h
      | none =>
        cases hputAfter : after.put p key d t with
        | some r =>
          rw [readFlat_of_put_after hput hputAfter] at h
          obtain ⟨t₁, rfl, h⟩ := bind_eq_ok_iff.mp h
          exact ih hrest hs (Fields.finiteSlots_put hafter hd ht hputAfter) hkept h
        | none =>
          rw [readFlat_of_not_put hput hputAfter] at h
          split at h
          · exact ih hrest hs ht (List.forall_mem_cons.mpr ⟨hd, hkept⟩) h
          · cases h

/-- **A record inside a record fits its text if all fields do.** -/
theorem yields_flat {before : Fields ts} {inside : Fields us} {after : Fields vs}
    {toRows : α → Row ts × Row us × Row vs} {ofRows : Row ts × Row us × Row vs → α}
    (hbefore : before.Yields) (hinside : inside.Yields) (hafter : after.Yields)
    (hinverse : ∀ rows, toRows (ofRows rows) = rows) :
    (flat before inside after toRows ofRows).Yields := by
  intro p d a hd hread
  cases d with
  | object ms closed =>
    obtain ⟨⟨s, t, kept⟩, hflat, hread⟩ := bind_eq_ok_iff.mp hread
    obtain ⟨row, hrow, hread⟩ := bind_eq_ok_iff.mp hread
    obtain ⟨tail, htail, hread⟩ := bind_eq_ok_iff.mp hread
    obtain ⟨m, hm, hread⟩ := bind_eq_ok_iff.mp hread
    obtain ⟨inner, hinner, heq⟩ := bind_eq_ok_iff.mp hread
    cases heq
    obtain ⟨hs, ht, hkept⟩ := finite_readFlat hbefore hafter (fun m hm => hd.member hm)
      (Fields.finiteSlots_none before) (Fields.finiteSlots_none after) (List.forall_mem_nil _) hflat
    have hslots := Fields.finiteSlots_readMembers hinside hkept (Fields.finiteSlots_none inside) hm
    have hwrite : (flat before inside after toRows ofRows).write (ofRows (row, inner, tail)) =
        .object (before.write row ++ inside.write inner ++ after.write tail) := by
      simp only [flat, hinverse]
    rw [hwrite]
    refine .object fun m hm => ?_
    rcases List.mem_append.mp hm with hm | hm
    · rcases List.mem_append.mp hm with hm | hm
      · exact Fields.finite_finish hbefore hs hrow m hm
      · exact Fields.finite_finish hinside hslots hinner m hm
    · exact Fields.finite_finish hafter ht htail m hm
  | _ => cases hread

end Codec

end BuildMetrics.Json
