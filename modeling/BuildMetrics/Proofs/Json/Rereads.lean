import BuildMetrics.Json.Codec

/-!
# Reading what was written

How the codecs read the draft of what they wrote, from the codecs of simple types up to records
inside records.

* `Codec.Rereads`: a value is read from what it is written as;
* `Fields.readMembers_write`: the fields of a record are read from the members that were written
  for them, in whatever order they stand;
* `Codec.rereads_record`, `Codec.rereads_flat`: so are a record and a record inside a record.
-/

namespace BuildMetrics.Json

variable {α : Type} {ts us vs : List Type} {p : Place}

theorem Draft.ofItems_eq_map (js : List Json) : Draft.ofItems js = js.map Draft.ofJson := by
  induction js with
  | nil => rfl
  | cons j js ih => rw [Draft.ofItems, ih, List.map_cons]

theorem Draft.ofMembers_eq_map (ms : List (String × Json)) :
    Draft.ofMembers ms = ms.map fun m => (some m.1, Draft.ofJson m.2) := by
  induction ms with
  | nil => rfl
  | cons m ms ih => rw [Draft.ofMembers, ih, List.map_cons]

/-- What holds only kept values can be kept one level further up. -/
theorem isKept_array {js : List Json} {room : Nat}
    (h : ∀ j ∈ js, (Draft.ofJson j).isKept room = true) :
    (Draft.ofJson (.array js)).isKept (room + 1) = true := by
  show Draft.areKept room (Draft.ofItems js) = true
  induction js with
  | nil => rfl
  | cons j js ih =>
    obtain ⟨hj, hjs⟩ := List.forall_mem_cons.mp h
    exact Bool.and_eq_true_iff.mpr ⟨hj, ih hjs⟩

/-- An object is kept if there is room for the values of its members inside of it. -/
theorem isKept_object {ms : List (String × Json)} {room : Nat}
    (h : ∀ m ∈ ms, (Draft.ofJson m.2).isKept room = true) :
    (Draft.ofJson (.object ms)).isKept (room + 1) = true := by
  show Draft.areKeptMembers room (Draft.ofMembers ms) = true
  induction ms with
  | nil => rfl
  | cons m ms ih =>
    obtain ⟨hm, hms⟩ := List.forall_mem_cons.mp h
    exact Bool.and_eq_true_iff.mpr ⟨hm, ih hms⟩

namespace Codec

/-- At a place, a value is read from what it is written as. -/
def Rereads (c : Codec α) (p : Place) (a : α) : Prop := c.read p (.ofJson (c.write a)) = .ok a

/-! ## Simple types -/

theorem rereads_string (p : Place) (s : String) : string.Rereads p s := rfl

theorem rereads_bool (p : Place) (b : Bool) : bool.Rereads p b := rfl

theorem rereads_float (p : Place) (x : Float) : float.Rereads p x := rfl

/-- An integer in its range is read back if nothing of it is lost on the way. -/
theorem rereads_integer {low high : Int} {toInt : α → Int} {ofInt : Int → α} {a : α}
    (hrange : low ≤ toInt a ∧ toInt a ≤ high) (hinverse : ofInt (toInt a) = a) :
    (integer low high toInt ofInt).Rereads p a := by
  show (if low ≤ toInt a ∧ toInt a ≤ high then Except.ok (ofInt (toInt a)) else _) = _
  rw [if_pos hrange, hinverse]

theorem rereads_nat {n : Nat} (h : n ≤ 18446744073709551615) : nat.Rereads p n :=
  rereads_integer ⟨Int.natCast_nonneg n, Int.ofNat_le.mpr h⟩ rfl

theorem rereads_uint32 (p : Place) (n : UInt32) : uint32.Rereads p n := by
  have hn : n.toNat ≤ 4294967295 := Nat.le_of_lt_succ n.toNat_lt
  exact rereads_integer ⟨Int.natCast_nonneg _, Int.ofNat_le.mpr hn⟩ UInt32.ofNat_toNat

theorem rereads_uint64 (p : Place) (n : UInt64) : uint64.Rereads p n := by
  have hn : n.toNat ≤ 18446744073709551615 := Nat.le_of_lt_succ n.toNat_lt
  exact rereads_integer ⟨Int.natCast_nonneg _, Int.ofNat_le.mpr hn⟩ UInt64.ofNat_toNat

theorem rereads_int64 (p : Place) (n : Int64) : int64.Rereads p n := by
  have hlow := n.le_toInt
  have hhigh := n.toInt_lt
  exact rereads_integer ⟨by omega, by omega⟩ (Int64.ofInt_toInt n)

/-- Only nothing is written as nothing. -/
theorem ofJson_eq_null {j : Json} (h : Draft.ofJson j = .null) : j = .null := by
  cases j with
  | null => rfl
  | _ => cases h

/-- A value that may be absent is read like any other if something stands there. -/
theorem read_option_of_ne {c : Codec α} {d : Draft} (h : d ≠ .null) :
    c.option.read p d = (c.read p d).map some := by
  cases d with
  | null => exact absurd rfl h
  | _ => rfl

/-- A value that may be absent is read back, unless it is written like an absent one. -/
theorem rereads_option {c : Codec α} {o : Option α} (h : ∀ a ∈ o, c.Rereads p a)
    (hnull : ∀ a, c.write a ≠ .null) : c.option.Rereads p o := by
  cases o with
  | none => rfl
  | some a =>
    show c.option.read p (.ofJson (c.write a)) = _
    rw [read_option_of_ne fun hd => hnull a (ofJson_eq_null hd), h a rfl]
    rfl

/-- A list is read back if its items are. -/
theorem rereads_list {c : Codec α} {as : List α} (h : ∀ a ∈ as, c.Rereads p.inner a) :
    c.list.Rereads p as := by
  show readItems c p.inner true (Draft.ofItems (as.map c.write)) = _
  rw [Draft.ofItems_eq_map]
  induction as with
  | nil => rfl
  | cons a as ih =>
    have ha : c.read p.inner (.ofJson (c.write a)) = .ok a := h a List.mem_cons_self
    rw [List.map_cons, List.map_cons, readItems, ha,
      ih fun b hb => h b (List.mem_cons_of_mem _ hb)]
    rfl

/-- A word is read back if no value before it has the same word. -/
theorem rereads_word {name : α → String} {values : List α} {a : α}
    (h : values.find? (fun b => name b = name a) = some a) : (word name values).Rereads p a := by
  simp only [Rereads, word, Draft.ofJson, h]

/-! ## Fields -/

/-- A field is read from what it is written as, and from nothing if it is not written. -/
def Field.Rereads (f : Field α) (p : Place) (a : α) : Prop :=
  f.codec.Rereads p a ∧ (f.omits a = true → f.absent = some a)

/-- A field that has to be there is read back if its value is. -/
theorem rereads_required {key : String} {c : Codec α} {a : α} (h : c.Rereads p a) :
    (required key c).Rereads p a := ⟨h, nofun⟩

/-- A field with a default is always written, so it is read back if its value is. -/
theorem rereads_defaulted {key : String} {c : Codec α} {b a : α} (h : c.Rereads p a) :
    (defaulted key c b).Rereads p a := ⟨h, nofun⟩

/-- A field that is left out when it is absent is read back as absent. -/
theorem rereads_optional {key : String} {c : Codec α} {o : Option α} (h : ∀ a ∈ o, c.Rereads p a)
    (hnull : ∀ a, c.write a ≠ .null) : (optional key c).Rereads p o := by
  refine ⟨rereads_option h hnull, fun homits => ?_⟩
  obtain rfl := Option.isNone_iff_eq_none.mp homits
  rfl

/-- A field that is left out when its list is empty is read back as an empty list. -/
theorem rereads_listed {key : String} {c : Codec α} {as : List α}
    (h : ∀ a ∈ as, c.Rereads p.inner a) : (listed key c).Rereads p as := by
  refine ⟨rereads_list h, fun homits => ?_⟩
  obtain rfl := List.isEmpty_iff.mp homits
  rfl

namespace Fields

/-- The names of the fields. -/
def keys : {ts : List Type} → Fields ts → List String
  | _, .nil => []
  | _, .cons f fs => f.key :: fs.keys

/-- All fields are read from what they are written as. -/
def Rereads : {ts : List Type} → Fields ts → Place → Row ts → Prop
  | _, .nil, _, _ => True
  | _, .cons f fs, p, (a, row) => f.Rereads p a ∧ fs.Rereads p row

/-- What is read from the members of a record: the fields that were written. -/
def slots : {ts : List Type} → Fields ts → Row ts → Slots ts
  | _, .nil, _ => ()
  | _, .cons f fs, (a, row) => (if f.omits a then Option.none else some a, fs.slots row)

theorem write_cons (f : Field α) (fs : Fields ts) (a : α) (row : Row ts) :
    (Fields.cons f fs).write (a, row) =
      if f.omits a then fs.write row else (f.key, f.codec.write a) :: fs.write row := rfl

/-- Only members with names of fields are written. -/
theorem key_mem_of_mem_write {fs : Fields ts} {row : Row ts} {m : String × Json}
    (h : m ∈ fs.write row) : m.1 ∈ fs.keys := by
  induction fs with
  | nil => cases h
  | cons f fs ih =>
    obtain ⟨a, row⟩ := row
    have hm : m = (f.key, f.codec.write a) ∨ m ∈ fs.write row := by
      rw [write_cons] at h
      split at h
      · exact .inr h
      · exact List.mem_cons.mp h
    rcases hm with rfl | hm
    · exact List.mem_cons_self
    · exact List.mem_cons_of_mem _ (ih hm)

/-! ## Members -/

/-- A member under the name of a field that was not read yet is read as that field. -/
theorem put_self (f : Field α) (fs : Fields ts) (d : Draft) (s : Slots ts) :
    (Fields.cons f fs).put p f.key d (Option.none, s) =
      some ((f.codec.read p d).map fun a => (some a, s)) :=
  if_pos rfl

/-- A member under the name of a field that was read before is an error. -/
theorem put_again (f : Field α) (fs : Fields ts) (a : α) (d : Draft) (s : Slots ts) :
    (Fields.cons f fs).put p f.key d (some a, s) = some (.error .shapeError) :=
  if_pos rfl

/-- A member under another name is left to the other fields. -/
theorem put_of_ne {f : Field α} {fs : Fields ts} {key : String} (h : key ≠ f.key) (d : Draft)
    (slot : Option α) (s : Slots ts) :
    (Fields.cons f fs).put p key d (slot, s) =
      (fs.put p key d s).map fun r => r.map fun s => (slot, s) :=
  if_neg h

/-- A member under a name of no field is left alone. -/
theorem put_of_not_mem {fs : Fields ts} {key : String} (h : key ∉ fs.keys) (d : Draft)
    (s : Slots ts) : fs.put p key d s = Option.none := by
  induction fs with
  | nil => rfl
  | cons f fs ih =>
    obtain ⟨slot, s⟩ := s
    have hne : key ≠ f.key := fun heq => h (heq ▸ List.mem_cons_self)
    have hnone : fs.put p key d s = Option.none :=
      ih (fun hmem => h (List.mem_cons_of_mem _ hmem)) s
    exact (put_of_ne hne d slot s).trans (by rw [hnone]; rfl)

variable {fs : Fields ts} {closed : Bool} {key : String} {d : Draft}
  {ms : List (Option String × Draft)} {s : Slots ts}

/-- A member of a field is read, then those after it. -/
theorem readMembers_of_put {r : Except Fault (Slots ts)} (h : fs.put p key d s = some r) :
    fs.readMembers p closed ((some key, d) :: ms) s = r.bind (fs.readMembers p closed ms) := by
  simp only [readMembers, h]
  rfl

/-- A member of no field is passed over if it is JSON at all. -/
theorem readMembers_of_not_put (h : fs.put p key d s = Option.none) :
    fs.readMembers p closed ((some key, d) :: ms) s =
      if d.isJson then fs.readMembers p closed ms s else .error .syntaxError := by
  simp only [readMembers, h]

/-- Members that are none of a field leave its slot as it is. -/
theorem readMembers_cons {f : Field α} (h : ∀ m ∈ ms, m.1 ≠ some f.key) (slot : Option α)
    (s : Slots ts) :
    (Fields.cons f fs).readMembers p closed ms (slot, s) =
      (fs.readMembers p closed ms s).map fun s => (slot, s) := by
  induction ms generalizing s with
  | nil => cases closed <;> rfl
  | cons m ms ih =>
    obtain ⟨key, d⟩ := m
    have hms : ∀ m ∈ ms, m.1 ≠ some f.key := fun m hm => h m (List.mem_cons_of_mem _ hm)
    cases key with
    | none => rfl
    | some key =>
      have hkey : key ≠ f.key := fun heq => h (some key, d) List.mem_cons_self (congrArg some heq)
      have hput : (Fields.cons f fs).put p key d (slot, s) =
          (fs.put p key d s).map fun r => r.map fun s => (slot, s) := put_of_ne hkey d slot s
      cases hr : fs.put p key d s with
      | none =>
        rw [hr] at hput
        rw [readMembers_of_not_put hput, readMembers_of_not_put hr, ih hms s]
        cases d.isJson <;> rfl
      | some r =>
        rw [hr] at hput
        rw [readMembers_of_put hput, readMembers_of_put hr]
        cases r with
        | error e => rfl
        | ok s => exact ih hms s

/-- **The fields are read from the members that were written.** -/
theorem readMembers_write {fs : Fields ts} (hkeys : fs.keys.Nodup) {row : Row ts}
    (h : fs.Rereads p row) :
    fs.readMembers p true (Draft.ofMembers (fs.write row)) (Slots.none ts) =
      .ok (fs.slots row) := by
  induction fs with
  | nil => rfl
  | cons f fs ih =>
    obtain ⟨a, row⟩ := row
    obtain ⟨⟨hread, -⟩, hrow⟩ := h
    obtain ⟨hkey, hkeys⟩ := List.nodup_cons.mp hkeys
    have hother : ∀ m ∈ Draft.ofMembers (fs.write row), m.1 ≠ some f.key := by
      rw [Draft.ofMembers_eq_map]
      intro m hm heq
      obtain ⟨n, hn, rfl⟩ := List.mem_map.mp hm
      rw [← Option.some.inj heq] at hkey
      exact hkey (key_mem_of_mem_write hn)
    have hrest (slot : Option _) : (Fields.cons f fs).readMembers p true
        (Draft.ofMembers (fs.write row)) (slot, Slots.none _) = .ok (slot, fs.slots row) :=
      (readMembers_cons hother slot _).trans (by rw [ih hkeys hrow]; rfl)
    have hread : f.codec.read p (.ofJson (f.codec.write a)) = .ok a := hread
    by_cases homits : f.omits a = true
    · have hwrite : (Fields.cons f fs).write (a, row) = fs.write row := if_pos homits
      have hslots : (Fields.cons f fs).slots (a, row) = (Option.none, fs.slots row) :=
        congrArg (fun slot => (slot, fs.slots row)) (if_pos homits)
      rw [hwrite, hslots]
      exact hrest Option.none
    · have hwrite : (Fields.cons f fs).write (a, row) =
          (f.key, f.codec.write a) :: fs.write row := if_neg homits
      have hslots : (Fields.cons f fs).slots (a, row) = (some a, fs.slots row) :=
        congrArg (fun slot => (slot, fs.slots row)) (if_neg homits)
      rw [hwrite, hslots]
      exact (readMembers_of_put (put_self f fs _ _)).trans (by rw [hread]; exact hrest (some a))

/-- At the end a field has what was read for it, or what stands for an absent one. -/
theorem finish_cons (f : Field α) (fs : Fields ts) (slot : Option α) (s : Slots ts) :
    (Fields.cons f fs).finish (slot, s) =
      (slot.or f.absent).elim (.error .shapeError)
        fun a => (fs.finish s).bind fun row => .ok (a, row) := by
  simp only [finish]
  cases slot.or f.absent <;> rfl

/-- What was read and what need not be written make up the record. -/
theorem finish_slots {fs : Fields ts} {row : Row ts} (h : fs.Rereads p row) :
    fs.finish (fs.slots row) = .ok row := by
  induction fs with
  | nil => rfl
  | cons f fs ih =>
    obtain ⟨a, row⟩ := row
    obtain ⟨⟨-, habsent⟩, hrow⟩ := h
    have hslot : (if f.omits a then Option.none else some a).or f.absent = some a := by
      split
      · next homits => rw [habsent homits, Option.none_or]
      · rfl
    exact (finish_cons f fs _ _).trans (by rw [hslot, ih hrow]; rfl)

end Fields

/-- **A record is read from what it is written as.** -/
theorem rereads_record {fs : Fields ts} {toRow : α → Row ts} {ofRow : Row ts → α} {a : α}
    (hkeys : fs.keys.Nodup) (h : fs.Rereads p.inner (toRow a)) (hinverse : ofRow (toRow a) = a) :
    (record fs toRow ofRow).Rereads p a := by
  have hread : (record fs toRow ofRow).read p (.ofJson (.object (fs.write (toRow a)))) =
      (fs.readMembers p.inner true (Draft.ofMembers (fs.write (toRow a))) (Slots.none ts)).bind
        fun slots => (fs.finish slots).bind fun row => .ok (ofRow row) := rfl
  refine hread.trans ?_
  rw [Fields.readMembers_write hkeys h]
  show (fs.finish (fs.slots (toRow a))).bind _ = _
  rw [Fields.finish_slots h]
  exact congrArg Except.ok hinverse

/-! ## Records inside records -/

section Flat

variable {before : Fields ts} {inside : Fields us} {after : Fields vs} {closed : Bool}
  {key : String} {d : Draft} {ms rest kept : List (Option String × Draft)} {s s' : Slots ts}
  {t t' : Slots vs}

/-- A member under the name of a field is not left alone. -/
theorem Fields.put_of_mem {fs : Fields ts} (h : key ∈ fs.keys) (d : Draft) (s : Slots ts) :
    ∃ r, fs.put p key d s = some r := by
  induction fs with
  | nil => cases h
  | cons f fs ih =>
    obtain ⟨slot, s⟩ := s
    by_cases hkey : key = f.key
    · exact ⟨_, if_pos hkey⟩
    · obtain ⟨r, hr⟩ := ih ((List.mem_cons.mp h).resolve_left hkey) s
      exact ⟨_, (Fields.put_of_ne hkey d slot s).trans (by rw [hr]; rfl)⟩

/-- In an object within an object, a member of the first fields is read as such. -/
theorem readFlat_of_put {r : Except Fault (Slots ts)} (h : before.put p key d s = some r) :
    readFlat before after p closed ((some key, d) :: ms) s t kept =
      r.bind fun s => readFlat before after p closed ms s t kept := by
  simp only [readFlat, h]
  rfl

/-- A member of the fields behind the inner ones is read as such. -/
theorem readFlat_of_put_after {r : Except Fault (Slots vs)}
    (hbefore : before.put p key d s = none) (h : after.put p key d t = some r) :
    readFlat before after p closed ((some key, d) :: ms) s t kept =
      r.bind fun t => readFlat before after p closed ms s t kept := by
  simp only [readFlat, hbefore, h]
  rfl

/-- A member of neither is kept for the inner fields, if that is possible. -/
theorem readFlat_of_not_put (hbefore : before.put p key d s = none)
    (hafter : after.put p key d t = none) :
    readFlat before after p closed ((some key, d) :: ms) s t kept =
      if d.isKept p.room then readFlat before after p closed ms s t ((some key, d) :: kept)
      else .error .syntaxError := by
  simp only [readFlat, hbefore, hafter]

/-- Members of the fields in front go to their slots. -/
theorem readFlat_before (h : ∀ m ∈ ms, ∃ key ∈ before.keys, m.1 = some key)
    (hread : before.readMembers p true ms s = .ok s') :
    readFlat before after p closed (ms ++ rest) s t kept =
      readFlat before after p closed rest s' t kept := by
  induction ms generalizing s with
  | nil =>
    cases hread
    rfl
  | cons m ms ih =>
    obtain ⟨k, d⟩ := m
    obtain ⟨key, hkey, rfl⟩ := h _ List.mem_cons_self
    obtain ⟨r, hr⟩ := before.put_of_mem (p := p) hkey d s
    rw [Fields.readMembers_of_put hr] at hread
    rw [List.cons_append, readFlat_of_put hr]
    cases r with
    | error e => cases hread
    | ok s => exact ih (fun m hm => h m (List.mem_cons_of_mem _ hm)) hread

/-- Members of the fields behind go to their slots. -/
theorem readFlat_after (h : ∀ m ∈ ms, ∃ key ∈ after.keys, key ∉ before.keys ∧ m.1 = some key)
    (hread : after.readMembers p true ms t = .ok t') :
    readFlat before after p closed (ms ++ rest) s t kept =
      readFlat before after p closed rest s t' kept := by
  induction ms generalizing t with
  | nil =>
    cases hread
    rfl
  | cons m ms ih =>
    obtain ⟨k, d⟩ := m
    obtain ⟨key, hkey, hbefore, rfl⟩ := h _ List.mem_cons_self
    obtain ⟨r, hr⟩ := after.put_of_mem (p := p) hkey d t
    rw [Fields.readMembers_of_put hr] at hread
    rw [List.cons_append, readFlat_of_put_after (Fields.put_of_not_mem hbefore d s) hr]
    cases r with
    | error e => cases hread
    | ok t => exact ih (fun m hm => h m (List.mem_cons_of_mem _ hm)) hread

/-- Members of no outer field are kept in their order. -/
theorem readFlat_kept
    (h : ∀ m ∈ ms, ∃ key, key ∉ before.keys ∧ key ∉ after.keys ∧ m.1 = some key)
    (hkept : ∀ m ∈ ms, m.2.isKept p.room = true) :
    readFlat before after p closed (ms ++ rest) s t kept =
      readFlat before after p closed rest s t (ms.reverse ++ kept) := by
  induction ms generalizing kept with
  | nil => rfl
  | cons m ms ih =>
    obtain ⟨k, d⟩ := m
    obtain ⟨key, hbefore, hafter, rfl⟩ := h _ List.mem_cons_self
    rw [List.cons_append, readFlat_of_not_put (Fields.put_of_not_mem hbefore d s)
      (Fields.put_of_not_mem hafter d t), if_pos (hkept _ List.mem_cons_self),
      ih (fun m hm => h m (List.mem_cons_of_mem _ hm))
        (fun m hm => hkept m (List.mem_cons_of_mem _ hm)),
      List.reverse_cons, List.append_assoc, List.singleton_append]

/-- The members that were written have the names of fields. -/
theorem exists_key_of_mem_ofMembers {fs : Fields ts} {row : Row ts} {m : Option String × Draft}
    (h : m ∈ Draft.ofMembers (fs.write row)) : ∃ key ∈ fs.keys, m.1 = some key := by
  rw [Draft.ofMembers_eq_map] at h
  obtain ⟨n, hn, rfl⟩ := List.mem_map.mp h
  exact ⟨n.1, Fields.key_mem_of_mem_write hn, rfl⟩

/-- Of the members that were written, those of the inner record are kept. -/
theorem readFlat_write {row : Row ts} {inner : Row us} {tail : Row vs}
    (hkeys : (before.keys ++ (inside.keys ++ after.keys)).Nodup)
    (hbefore : before.Rereads p row) (hafter : after.Rereads p tail)
    (hkept : ∀ m ∈ inside.write inner, (Draft.ofJson m.2).isKept p.room = true) :
    readFlat before after p true
        (Draft.ofMembers (before.write row ++ inside.write inner ++ after.write tail))
        (Slots.none ts) (Slots.none vs) [] =
      .ok (before.slots row, after.slots tail, Draft.ofMembers (inside.write inner)) := by
  obtain ⟨hbeforeKeys, hrestKeys, hdisjoint⟩ := List.nodup_append.mp hkeys
  obtain ⟨-, hafterKeys, hdisjoint'⟩ := List.nodup_append.mp hrestKeys
  have hinsideMembers : ∀ m ∈ Draft.ofMembers (inside.write inner),
      ∃ key, key ∉ before.keys ∧ key ∉ after.keys ∧ m.1 = some key := by
    intro m hm
    obtain ⟨key, hkey, heq⟩ := exists_key_of_mem_ofMembers hm
    exact ⟨key, fun hmem => hdisjoint key hmem key (List.mem_append_left _ hkey) rfl,
      fun hmem => hdisjoint' key hkey key hmem rfl, heq⟩
  have hafterMembers : ∀ m ∈ Draft.ofMembers (after.write tail),
      ∃ key ∈ after.keys, key ∉ before.keys ∧ m.1 = some key := by
    intro m hm
    obtain ⟨key, hkey, heq⟩ := exists_key_of_mem_ofMembers hm
    exact ⟨key, hkey, fun hmem => hdisjoint key hmem key (List.mem_append_right _ hkey) rfl, heq⟩
  have hinsideValues : ∀ m ∈ Draft.ofMembers (inside.write inner), m.2.isKept p.room = true := by
    rw [Draft.ofMembers_eq_map]
    intro m hm
    obtain ⟨n, hn, rfl⟩ := List.mem_map.mp hm
    exact hkept n hn
  have happend : Draft.ofMembers (before.write row ++ inside.write inner ++ after.write tail) =
      Draft.ofMembers (before.write row) ++ (Draft.ofMembers (inside.write inner) ++
        (Draft.ofMembers (after.write tail) ++ [])) := by
    simp only [Draft.ofMembers_eq_map, List.map_append, List.append_assoc, List.append_nil]
  rw [happend, readFlat_before (fun m hm => exists_key_of_mem_ofMembers hm)
    (Fields.readMembers_write hbeforeKeys hbefore), readFlat_kept hinsideMembers hinsideValues,
    readFlat_after hafterMembers (Fields.readMembers_write hafterKeys hafter), readFlat,
    List.append_nil, List.reverse_reverse]
  rfl

/-- **A record inside a record is read from what it is written as**, wherever its values may be
kept until the outer record has been read. -/
theorem rereads_flat {toRows : α → Row ts × Row us × Row vs}
    {ofRows : Row ts × Row us × Row vs → α} {a : α} {row : Row ts} {inner : Row us} {tail : Row vs}
    (hrows : toRows a = (row, inner, tail))
    (hkeys : (before.keys ++ (inside.keys ++ after.keys)).Nodup)
    (hbefore : before.Rereads p.inner row) (hinside : inside.Rereads ⟨p.depth + 1, true⟩ inner)
    (hafter : after.Rereads p.inner tail)
    (hkept : ∀ m ∈ inside.write inner, (Draft.ofJson m.2).isKept p.inner.room = true)
    (hinverse : ofRows (toRows a) = a) :
    (flat before inside after toRows ofRows).Rereads p a := by
  have hread (ms : List (Option String × Draft)) :
      (flat before inside after toRows ofRows).read p (.object ms true) =
        (readFlat before after p.inner true ms (Slots.none ts) (Slots.none vs) []).bind fun r =>
          (before.finish r.1).bind fun s => (after.finish r.2.1).bind fun t =>
            (inside.readMembers ⟨p.depth + 1, true⟩ true r.2.2 (Slots.none us)).bind fun m =>
              (inside.finish m).bind fun m => .ok (ofRows (s, m, t)) := rfl
  have hwrite : (flat before inside after toRows ofRows).write a =
      .object (before.write row ++ inside.write inner ++ after.write tail) := by
    simp only [flat, hrows]
  have hinsideKeys : inside.keys.Nodup := (List.nodup_append.mp (List.nodup_append.mp hkeys).2.1).1
  rw [Rereads, hwrite, Draft.ofJson, hread, readFlat_write hkeys hbefore hafter hkept]
  show (before.finish (before.slots row)).bind _ = _
  rw [Fields.finish_slots hbefore]
  show (after.finish (after.slots tail)).bind _ = _
  rw [Fields.finish_slots hafter]
  show (inside.readMembers _ true (Draft.ofMembers (inside.write inner)) _).bind _ = _
  rw [Fields.readMembers_write hinsideKeys hinside]
  show (inside.finish (inside.slots inner)).bind _ = _
  rw [Fields.finish_slots hinside]
  show Except.ok (ofRows (row, inner, tail)) = _
  rw [← hrows, hinverse]

end Flat

end Codec

end BuildMetrics.Json
