import BuildMetrics.Proofs.Json.Number
import BuildMetrics.Proofs.Json.Text

/-!
# Written values in a text

A value whose integers fit 64 bits is read back from its own text, if each of its doubles is read
back where it stands alone.

* `exists_read?_floatChars`: a double that is read back alone is read back from any text, and as
  a double;
* `Readable.readsIn`: a value is read back from any text in which nothing that could belong to a
  number follows it;
* `Readable.ofChars`: so a whole text gives the value that was written.
-/

namespace BuildMetrics.Json

open Decimal

variable {cs rest : List Char} {c : Char}

/-- A value is read back from its own text. -/
def Codec.ReadsBack {α : Type} (c : Codec α) (a : α) : Prop := c.decode (c.encode a) = .ok a

theorem Codec.decode_eq_ok_iff {α : Type} {c : Codec α} {text : String} {a : α} :
    c.decode text = .ok a ↔
      ∃ d, Draft.ofChars text.toList = (d, true) ∧ c.read .top d = .ok a := by
  rcases hchars : Draft.ofChars text.toList with ⟨d, isWhole⟩
  simp only [Codec.decode, hchars, Prod.mk.injEq]
  cases hread : c.read .top d with
  | error e =>
    constructor
    · rintro ⟨⟩
    · rintro ⟨_, ⟨rfl, -⟩, hok⟩
      rw [hread] at hok
      cases hok
  | ok b =>
    cases isWhole with
    | false =>
      constructor
      · rintro ⟨⟩
      · rintro ⟨_, ⟨-, hfalse⟩, -⟩
        cases hfalse
    | true =>
      constructor
      · rintro ⟨⟩
        exact ⟨d, ⟨rfl, rfl⟩, hread⟩
      · rintro ⟨_, ⟨rfl, -⟩, hok⟩
        rw [hread] at hok
        cases hok
        rfl

/-- Nothing is skipped where no blank comes. -/
theorem skipSpace_of_head (h : ∀ c ∈ cs.head?, isSpace c = false) : skipSpace cs = cs := by
  cases cs with
  | nil => rfl
  | cons c cs =>
    have hc : ¬ isSpace c = true := by simp [h c rfl]
    exact List.dropWhile_cons_of_neg hc

/-! ## Numbers -/

/-- A number does not begin with a blank. -/
theorem isSpace_of_startsNumber (h : StartsNumber cs) : ∀ c ∈ cs.head?, isSpace c = false := by
  obtain ⟨d, hd, hnumber⟩ := h
  intro c hc
  cases Option.mem_unique hc hd
  rcases hnumber with rfl | hdigit
  · decide
  · by_contra hspace
    simp only [isSpace, Bool.or_eq_true, beq_iff_eq, Bool.not_eq_false] at hspace
    rcases hspace with ((rfl | rfl) | rfl) | rfl
    all_goals exact absurd hdigit (by decide)

/-- Where a number may begin, a number is read. -/
theorem value_of_startsNumber (h : StartsNumber cs) (fuel : Nat) :
    value (fuel + 1) cs =
      (NumberText.read? cs).elim (.broken, none) fun p => (.ofNumber p.1.value?, some p.2) := by
  rw [value, skipSpace_of_head (isSpace_of_startsNumber h)]
  obtain ⟨c, hc, hnumber⟩ := h
  split
  case h_7 => cases NumberText.read? cs <;> rfl
  all_goals
    cases hc
    exact absurd hnumber (by decide)

/-! ## Doubles -/

/-- The characters of a number that is no integer: it holds more than a sign and digits. -/
structure IsFractional (cs : List Char) : Prop where
  starts : StartsNumber cs
  noSpace : ∀ c ∈ cs, isSpace c = false
  notInteger : ∃ c ∈ cs, ¬ (c = '-' ∨ c.isDigit = true)

/-- A sign does not matter to whether there is a point or an exponent. -/
theorem IsFractional.signed (negative : Bool) (h : IsFractional cs) :
    IsFractional (signed negative cs) := by
  cases negative with
  | false => exact h
  | true =>
    obtain ⟨c, hc, hnot⟩ := h.notInteger
    exact ⟨⟨'-', rfl, .inl rfl⟩, List.forall_mem_cons.mpr ⟨by decide, h.noSpace⟩,
      c, List.mem_cons_of_mem _ hc, hnot⟩

/-- The characters that numbers are written with. -/
def IsNumeric (c : Char) : Prop := c.isDigit = true ∨ c = '.' ∨ c = 'e' ∨ c = '-'

/-- No character of a number is a blank. -/
theorem IsNumeric.isSpace (h : IsNumeric c) : isSpace c = false := by
  rcases h with hdigit | rfl | rfl | rfl
  · have hstarts : StartsNumber [c] := ⟨c, rfl, .inr hdigit⟩
    exact isSpace_of_startsNumber hstarts c rfl
  all_goals decide

theorem isFractional_cons (hc : c.isDigit = true) (hcs : ∀ d ∈ cs, IsNumeric d)
    (h : '.' ∈ cs ∨ 'e' ∈ cs) : IsFractional (c :: cs) where
  starts := ⟨c, rfl, .inr hc⟩
  noSpace := fun d hd => (List.forall_mem_cons.mpr ⟨.inl hc, hcs⟩ d hd).isSpace
  notInteger := by
    rcases h with h | h
    · exact ⟨'.', List.mem_cons_of_mem _ h, by decide⟩
    · exact ⟨'e', List.mem_cons_of_mem _ h, by decide⟩

theorem isNumeric_of_mem_intChars {n : Int} (h : c ∈ intChars n) : IsNumeric c := by
  cases n with
  | ofNat m => exact .inl (isDigit_of_mem_digits h)
  | negSucc m =>
    rcases List.mem_cons.mp h with rfl | h
    · exact .inr (.inr (.inr rfl))
    · exact .inl (isDigit_of_mem_digits h)

theorem isNumeric_of_mem_replicate {n : Nat} (h : c ∈ List.replicate n '0') : IsNumeric c := by
  obtain rfl := List.eq_of_mem_replicate h
  exact .inl (by decide)

/-- Digits that are written with a point have a point or an exponent. -/
theorem isFractional_positional {d : Char} {ds : List Char}
    (h : ∀ c ∈ d :: ds, c.isDigit = true) (point : Int) :
    IsFractional (positional (d :: ds) point) := by
  obtain ⟨hd, hds⟩ := List.forall_mem_cons.mp h
  unfold positional
  split_ifs with hpoint hlength
  · refine isFractional_cons (by decide) (fun c hc => ?_) (.inl List.mem_cons_self)
    rcases List.mem_cons.mp hc with rfl | hc
    · exact .inr (.inl rfl)
    · rcases List.mem_append.mp hc with hc | hc
      · exact isNumeric_of_mem_replicate hc
      · exact .inl (h c hc)
  · obtain ⟨k, hk⟩ : ∃ k, point.toNat = k + 1 := ⟨point.toNat - 1, by omega⟩
    rw [hk, List.take_succ_cons, List.drop_succ_cons, List.cons_append]
    refine isFractional_cons hd (fun c hc => ?_)
      (.inl (List.mem_append_right _ List.mem_cons_self))
    rcases List.mem_append.mp hc with hc | hc
    · exact .inl (hds c (List.mem_of_mem_take hc))
    · rcases List.mem_cons.mp hc with rfl | hc
      · exact .inr (.inl rfl)
      · exact .inl (hds c (List.mem_of_mem_drop hc))
  · rw [List.cons_append, List.cons_append]
    refine isFractional_cons hd (fun c hc => ?_)
      (.inl (List.mem_append_right _ List.mem_cons_self))
    rcases List.mem_append.mp hc with hc | hc
    · rcases List.mem_append.mp hc with hc | hc
      · exact .inl (hds c hc)
      · exact isNumeric_of_mem_replicate hc
    · simp only [List.mem_cons, List.not_mem_nil, or_false] at hc
      rcases hc with rfl | rfl
      · exact .inr (.inl rfl)
      · exact .inl (by decide)

/-- Digits that are written with an exponent have a point or an exponent. -/
theorem isFractional_scientific {d : Char} {ds : List Char}
    (h : ∀ c ∈ d :: ds, c.isDigit = true) (point : Int) :
    IsFractional (scientific (d :: ds) point) := by
  obtain ⟨hd, hds⟩ := List.forall_mem_cons.mp h
  have hexponent : ∀ c ∈ 'e' :: intChars (point - 1), IsNumeric c :=
    List.forall_mem_cons.mpr ⟨.inr (.inr (.inl rfl)), fun c hc => isNumeric_of_mem_intChars hc⟩
  cases ds with
  | nil => exact isFractional_cons hd hexponent (.inr List.mem_cons_self)
  | cons d' ds =>
    refine isFractional_cons hd (fun c hc => ?_) (.inl List.mem_cons_self)
    rcases List.mem_cons.mp hc with rfl | hc
    · exact .inr (.inl rfl)
    · rcases List.mem_append.mp hc with hc | hc
      · exact .inl (hds c hc)
      · exact hexponent c hc

/-- A decimal is written with a point or an exponent. -/
theorem isFractional_decimalChars (f : Format) (d : Numeral) : IsFractional (f.decimalChars d) := by
  obtain ⟨c, cs, hcs⟩ := List.exists_cons_of_ne_nil (digits_ne_nil d.digits)
  have hdigits : ∀ b ∈ c :: cs, b.isDigit = true := hcs ▸ fun b hb => isDigit_of_mem_digits hb
  simp only [Format.decimalChars, hcs]
  split_ifs
  · exact isFractional_positional hdigits _
  · exact isFractional_scientific hdigits _

/-- A double is written as `null`, or as a number that is no integer. -/
theorem isFractional_floatChars (x : Float) :
    (∃ negative, floatChars x = signed negative "null".toList) ∨ IsFractional (floatChars x) := by
  unfold floatChars
  split_ifs
  · unfold Format.chars
    split
    · exact .inl ⟨false, rfl⟩
    · exact .inl ⟨_, rfl⟩
    · refine .inr (IsFractional.signed _ (isFractional_cons (by decide) ?_ (.inl ?_)))
      · simp [IsNumeric]
      · exact List.mem_cons_self
    · exact .inr (IsFractional.signed _ (isFractional_decimalChars _ _))
  · exact .inl ⟨false, rfl⟩

/-- The word for nothing is read as nothing. -/
theorem ofChars_null : Draft.ofChars "null".toList = (.null, true) := rfl

/-- The word for nothing is no JSON with a sign in front. -/
theorem ofChars_minus_null : Draft.ofChars ('-' :: "null".toList) = (.broken, false) := rfl

/-- A text that is such a number is read to its end. -/
theorem IsFractional.read?_of_ofChars {d : Draft} (hcs : IsFractional cs)
    (h : Draft.ofChars cs = (d, true)) :
    ∃ t, NumberText.read? cs = some (t, []) ∧ d = .ofNumber t.value? := by
  rw [Draft.ofChars, value_of_startsNumber hcs.starts] at h
  cases hnumber : NumberText.read? cs with
  | none =>
    rw [hnumber] at h
    cases h
  | some p =>
    obtain ⟨t, r⟩ := p
    rw [hnumber] at h
    obtain ⟨rfl, hr⟩ := Prod.mk.inj h
    -- nothing is left, since no blank stands in the text
    have hsuffix : r <:+ cs := (NumberText.extends_read? hnumber).1
    have hspace : ∀ c ∈ r.head?, isSpace c = false := fun c hc =>
      hcs.noSpace c (hsuffix.subset (List.mem_of_head? hc))
    obtain rfl : r = [] := by rwa [skipSpace_of_head hspace, List.isEmpty_iff] at hr
    exact ⟨t, rfl, rfl⟩

/-- What is written with a point or an exponent is not read as an integer. -/
theorem IsFractional.value?_ne_integer {t : NumberText} (hcs : IsFractional cs)
    (h : NumberText.read? cs = some (t, [])) (n : Int) : t.value? ≠ some (.integer n) := by
  obtain ⟨c, hc, hnot⟩ := hcs.notInteger
  refine NumberText.value?_ne_integer ?_ n
  by_contra hparts
  obtain ⟨hfraction, hexponent⟩ := not_or.mp hparts
  exact hnot (NumberText.isDigit_of_read? h (not_not.mp hfraction) (not_not.mp hexponent) c hc)

/-- **A double that is read back alone is read back from any text**, as a double. -/
theorem exists_read?_floatChars {x : Float} (h : Codec.float.ReadsBack x) :
    StartsNumber (floatChars x) ∧ ∃ t, NumberText.read? (floatChars x) = some (t, []) ∧
      t.value? = some (.float x) := by
  obtain ⟨d, hchars, hread⟩ := Codec.decode_eq_ok_iff.mp h
  rw [Codec.encode, print, String.toList_ofList] at hchars
  change Draft.ofChars (floatChars x) = (d, true) at hchars
  rcases isFractional_floatChars x with ⟨negative, hnull⟩ | hx
  · rw [hnull] at hchars
    cases negative with
    | false =>
      cases ofChars_null.symm.trans hchars
      cases hread
    | true => cases ofChars_minus_null.symm.trans hchars
  · obtain ⟨t, hnumber, rfl⟩ := hx.read?_of_ofChars hchars
    refine ⟨hx.starts, t, hnumber, ?_⟩
    cases hvalue : t.value? with
    | none =>
      rw [hvalue] at hread
      cases hread
    | some v =>
      rw [hvalue] at hread
      cases v with
      | integer n => exact absurd hvalue (hx.value?_ne_integer hnumber n)
      | float y =>
        cases hread
        rfl

/-! ## Lists and objects -/

/-- A value is read from any text in which nothing that could belong to a number follows it. -/
def ReadsIn (j : Json) : Prop :=
  ∀ fuel rest, EndsNumber rest → 2 * (chars j).length ≤ fuel →
    value fuel (chars j ++ rest) = (.ofJson j, some rest)

theorem skipSpace_cons (h : isSpace c = false) (cs : List Char) : skipSpace (c :: cs) = c :: cs :=
  skipSpace_of_head (by rintro _ ⟨⟩; exact h)

theorem endsNumber_comma (cs : List Char) : EndsNumber (',' :: cs) :=
  endsNumber_cons (by decide) cs

theorem endsNumber_bracket (cs : List Char) : EndsNumber (']' :: cs) :=
  endsNumber_cons (by decide) cs

theorem endsNumber_brace (cs : List Char) : EndsNumber ('\x7d' :: cs) :=
  endsNumber_cons (by decide) cs

/-- The items of a list are read up to its closing bracket if each of them is read. -/
theorem items_chars (j : Json) (js : List Json) (h : ∀ k ∈ j :: js, ReadsIn k) (fuel : Nat)
    (rest : List Char) (hfuel : 2 * (itemsChars (j :: js)).length + 1 ≤ fuel) :
    items fuel (itemsChars (j :: js) ++ ']' :: rest) = (Draft.ofItems (j :: js), some rest) := by
  induction js generalizing j fuel with
  | nil =>
    obtain ⟨fuel, rfl⟩ : ∃ f, fuel = f + 1 := ⟨fuel - 1, by omega⟩
    simp only [itemsChars] at hfuel ⊢
    have hj := h j List.mem_cons_self fuel (']' :: rest) (endsNumber_bracket rest) (by omega)
    simp only [items, hj, skipSpace_cons (c := ']') (by decide), Draft.ofItems]
  | cons k js ih =>
    obtain ⟨fuel, rfl⟩ : ∃ f, fuel = f + 1 := ⟨fuel - 1, by omega⟩
    simp only [itemsChars, List.length_append, List.length_cons] at hfuel
    have hj := h j List.mem_cons_self fuel (',' :: (itemsChars (k :: js) ++ ']' :: rest))
      (endsNumber_comma _) (by omega)
    have hjs := ih k (fun i hi => h i (List.mem_cons_of_mem _ hi)) fuel (by omega)
    simp only [itemsChars, List.append_assoc, List.cons_append, items, hj,
      skipSpace_cons (c := ',') (by decide), hjs, Draft.ofItems]

/-- A written text between its quotes, and what follows it. -/
theorem stringChars_append (s : String) (rest : List Char) :
    stringChars s ++ rest = '"' :: (s.toList.flatMap escapeChar ++ '"' :: rest) := by
  rw [stringChars, List.cons_append, List.append_assoc]
  rfl

/-- The members of an object are read up to its closing brace if the value of each is read. -/
theorem members_chars (m : String × Json) (ms : List (String × Json))
    (h : ∀ n ∈ m :: ms, ReadsIn n.2) (fuel : Nat) (rest : List Char)
    (hfuel : 2 * (membersChars (m :: ms)).length + 1 ≤ fuel) :
    members fuel (membersChars (m :: ms) ++ '\x7d' :: rest) =
      (Draft.ofMembers (m :: ms), some rest) := by
  induction ms generalizing m fuel with
  | nil =>
    obtain ⟨k, j⟩ := m
    obtain ⟨fuel, rfl⟩ : ∃ f, fuel = f + 1 := ⟨fuel - 1, by omega⟩
    simp only [membersChars, List.length_append, List.length_cons] at hfuel
    have hj : value fuel (chars j ++ '\x7d' :: rest) = (.ofJson j, some ('\x7d' :: rest)) :=
      h (k, j) List.mem_cons_self fuel _ (endsNumber_brace rest) (by simp only; omega)
    simp only [membersChars, List.append_assoc, List.cons_append, stringChars_append, members,
      skipSpace_cons (c := '"') (by decide), text?_chars, skipSpace_cons (c := ':') (by decide),
      hj, skipSpace_cons (c := '\x7d') (by decide), Option.map_some, String.ofList_toList,
      Draft.ofMembers]
  | cons n ms ih =>
    obtain ⟨k, j⟩ := m
    obtain ⟨fuel, rfl⟩ : ∃ f, fuel = f + 1 := ⟨fuel - 1, by omega⟩
    simp only [membersChars, List.length_append, List.length_cons] at hfuel
    have hj (cs : List Char) : value fuel (chars j ++ ',' :: cs) = (.ofJson j, some (',' :: cs)) :=
      h (k, j) List.mem_cons_self fuel _ (endsNumber_comma cs) (by simp only; omega)
    have hms := ih n (fun i hi => h i (List.mem_cons_of_mem _ hi)) fuel (by omega)
    simp only [membersChars, List.append_assoc, List.cons_append, stringChars_append, members,
      skipSpace_cons (c := '"') (by decide), text?_chars, skipSpace_cons (c := ':') (by decide),
      hj, skipSpace_cons (c := ',') (by decide), Option.map_some, String.ofList_toList,
      hms, Draft.ofMembers]

/-! ## Values -/

/-- The integers of a value fit 64 bits, and its doubles have a property. -/
inductive Fits (P : Float → Prop) : Json → Prop where
  /-- nothing -/
  | null : Fits P .null
  /-- a truth value -/
  | bool (b : Bool) : Fits P (.bool b)
  /-- an integer of 64 bits -/
  | integer {n : Int} (low : -9223372036854775808 ≤ n) (high : n < 18446744073709551616) :
      Fits P (.integer n)
  /-- a double with the property -/
  | float {x : Float} (h : P x) : Fits P (.float x)
  /-- a text -/
  | string (s : String) : Fits P (.string s)
  /-- a list of such values -/
  | array {items : List Json} (h : ∀ j ∈ items, Fits P j) : Fits P (.array items)
  /-- named values of this kind -/
  | object {members : List (String × Json)} (h : ∀ m ∈ members, Fits P m.2) :
      Fits P (.object members)

/-- A list fits if its first item and the others do. -/
theorem Fits.item {P : Float → Prop} {j : Json} {items : List Json} (hj : Fits P j)
    (h : Fits P (.array items)) : Fits P (.array (j :: items)) := by
  cases h with
  | array h => exact .array (List.forall_mem_cons.mpr ⟨hj, h⟩)

/-- An object fits if its first member and the others do. -/
theorem Fits.member {P : Float → Prop} {m : String × Json} {members : List (String × Json)}
    (hm : Fits P m.2) (h : Fits P (.object members)) : Fits P (.object (m :: members)) := by
  cases h with
  | object h => exact .object (List.forall_mem_cons.mpr ⟨hm, h⟩)

/-- The values whose texts can be read: their doubles are read back where they stand alone. -/
abbrev Readable : Json → Prop := Fits Codec.float.ReadsBack

/-- The first character of a value is neither a blank nor the end of a list. -/
theorem Readable.head {j : Json} (h : Readable j) :
    ∃ c cs, chars j = c :: cs ∧ isSpace c = false ∧ c ≠ ']' := by
  have hnumber {cs : List Char} (hcs : StartsNumber cs) :
      ∃ c cs', cs = c :: cs' ∧ isSpace c = false ∧ c ≠ ']' := by
    have hspace := isSpace_of_startsNumber hcs
    obtain ⟨c, hc, hstart⟩ := hcs
    obtain ⟨cs', rfl⟩ := List.head?_eq_some_iff.mp hc
    refine ⟨c, cs', rfl, hspace c rfl, ?_⟩
    rintro rfl
    exact absurd hstart (by decide)
  cases h with
  | null => exact ⟨'n', _, rfl, by decide, by decide⟩
  | bool b =>
    cases b
    · exact ⟨'f', _, rfl, by decide, by decide⟩
    · exact ⟨'t', _, rfl, by decide, by decide⟩
  | integer low high => exact hnumber (startsNumber_intChars _)
  | float h => exact hnumber (exists_read?_floatChars h).1
  | string s => exact ⟨'"', _, rfl, by decide, by decide⟩
  | array h => exact ⟨'[', _, rfl, by decide, by decide⟩
  | object h => exact ⟨'\x7b', _, rfl, by decide, by decide⟩

/-- A number begins alike, whatever follows it. -/
theorem startsNumber_append (h : StartsNumber cs) (rest : List Char) :
    StartsNumber (cs ++ rest) := by
  obtain ⟨c, hc, hstart⟩ := h
  exact ⟨c, List.mem_head?_append_of_mem_head? hc, hstart⟩

/-- A value that is read with enough fuel is read with any that its length asks for. -/
theorem Readable.readsIn_of_succ {j : Json} (h : Readable j)
    (hread : ∀ fuel rest, EndsNumber rest → 2 * (chars j).length ≤ fuel + 1 →
      value (fuel + 1) (chars j ++ rest) = (.ofJson j, some rest)) : ReadsIn j := by
  intro fuel rest hrest hfuel
  cases fuel with
  | zero =>
    obtain ⟨c, cs, hcs, -⟩ := h.head
    rw [hcs, List.length_cons] at hfuel
    omega
  | succ fuel => exact hread fuel rest hrest hfuel

/-- A number that the scanner finds is read. -/
theorem Readable.readsIn_of_number {j : Json} (h : Readable j) (hstart : StartsNumber (chars j))
    (hread : ∀ rest, EndsNumber rest → ∃ t,
      NumberText.read? (chars j ++ rest) = some (t, rest) ∧ .ofNumber t.value? = Draft.ofJson j) :
    ReadsIn j := by
  refine h.readsIn_of_succ fun fuel rest hrest _ => ?_
  obtain ⟨t, hread, hvalue⟩ := hread rest hrest
  rw [value_of_startsNumber (startsNumber_append hstart rest), hread, ← hvalue]
  rfl

/-- A list is read if its items are. -/
theorem readsIn_array {js : List Json} (hreadable : ∀ j ∈ js, Readable j)
    (h : ∀ j ∈ js, ReadsIn j) : ReadsIn (.array js) := by
  refine Readable.readsIn_of_succ (.array hreadable) fun fuel rest _ hfuel => ?_
  cases js with
  | nil =>
    simp only [chars, itemsChars, List.nil_append, List.cons_append, value,
      skipSpace_cons (c := '[') (by decide), skipSpace_cons (c := ']') (by decide), Draft.ofJson,
      Draft.ofItems]
  | cons j js =>
    rw [chars, List.length_cons, List.length_append, List.length_singleton] at hfuel
    have hitems := items_chars j js h fuel rest (by omega)
    obtain ⟨c, cs, hhead, hspace, hbracket⟩ :
        ∃ c cs, itemsChars (j :: js) = c :: cs ∧ isSpace c = false ∧ c ≠ ']' := by
      obtain ⟨c, cs, hc, hnot⟩ := (hreadable j List.mem_cons_self).head
      cases js with
      | nil => exact ⟨c, cs, hc, hnot⟩
      | cons k js =>
        refine ⟨c, cs ++ ',' :: itemsChars (k :: js), ?_, hnot⟩
        simp only [itemsChars, hc, List.cons_append]
    rw [hhead] at hitems
    simp only [chars, hhead, List.append_assoc, List.cons_append, List.nil_append, value,
      skipSpace_cons (c := '[') (by decide), skipSpace_cons hspace] at hitems ⊢
    split
    · next heq => exact absurd (List.cons.inj heq).1 hbracket
    · rw [hitems]
      rfl

/-- An object is read if the values of its members are. -/
theorem readsIn_object {ms : List (String × Json)} (hreadable : ∀ m ∈ ms, Readable m.2)
    (h : ∀ m ∈ ms, ReadsIn m.2) : ReadsIn (.object ms) := by
  refine Readable.readsIn_of_succ (.object hreadable) fun fuel rest _ hfuel => ?_
  cases ms with
  | nil =>
    simp only [chars, membersChars, List.nil_append, List.cons_append, value,
      skipSpace_cons (c := '\x7b') (by decide), skipSpace_cons (c := '\x7d') (by decide),
      Draft.ofJson, Draft.ofMembers]
  | cons m ms =>
    rw [chars, List.length_cons, List.length_append, List.length_singleton] at hfuel
    have hmembers := members_chars m ms h fuel rest (by omega)
    obtain ⟨cs, hhead⟩ : ∃ cs, membersChars (m :: ms) = '"' :: cs := by
      obtain ⟨k, j⟩ := m
      cases ms with
      | nil => exact ⟨_, rfl⟩
      | cons n ms => exact ⟨_, rfl⟩
    rw [hhead] at hmembers
    simp only [chars, hhead, List.append_assoc, List.cons_append, List.nil_append, value,
      skipSpace_cons (c := '\x7b') (by decide), skipSpace_cons (c := '"') (by decide)]
      at hmembers ⊢
    split
    · next heq => cases heq
    · rw [hmembers]
      rfl

/-- **A readable value is read back** from any text in which nothing that could belong to a
number follows it. -/
theorem Readable.readsIn {j : Json} (h : Readable j) : ReadsIn j := by
  induction h with
  | null =>
    exact Readable.readsIn_of_succ .null fun fuel rest _ _ => rfl
  | bool b =>
    cases b
    · exact Readable.readsIn_of_succ (.bool false) fun fuel rest _ _ => rfl
    · exact Readable.readsIn_of_succ (.bool true) fun fuel rest _ _ => rfl
  | @integer n low high =>
    refine Readable.readsIn_of_number (.integer low high) (startsNumber_intChars n) ?_
    intro rest hrest
    obtain ⟨t, hread, hvalue⟩ := NumberText.read?_intChars low high hrest
    exact ⟨t, hread, by rw [hvalue]; rfl⟩
  | @float x h =>
    obtain ⟨hstart, t, hread, hvalue⟩ := exists_read?_floatChars h
    refine Readable.readsIn_of_number (.float h) hstart fun rest hrest => ?_
    exact ⟨t, (NumberText.extends_read? hread).2 rest hrest, by rw [hvalue]; rfl⟩
  | string s =>
    refine Readable.readsIn_of_succ (.string s) fun fuel rest _ _ => ?_
    simp only [chars, stringChars_append, value, skipSpace_cons (c := '"') (by decide),
      text?_chars, String.ofList_toList, Draft.ofJson]
  | array h ih => exact readsIn_array h ih
  | object h ih => exact readsIn_object h ih

/-- A whole text gives the value that was written. -/
theorem Readable.ofChars {j : Json} (h : Readable j) :
    Draft.ofChars (chars j) = (.ofJson j, true) := by
  have hvalue := h.readsIn (2 * (chars j).length + 2) [] endsNumber_nil (by omega)
  rw [List.append_nil] at hvalue
  rw [Draft.ofChars, hvalue]
  rfl

end BuildMetrics.Json
