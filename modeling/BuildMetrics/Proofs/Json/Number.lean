import BuildMetrics.Json.Codec
import Mathlib.Data.List.Basic
import Mathlib.Data.List.TakeDrop
import Mathlib.Data.List.TakeWhile

/-!
# Numbers in a text

A number that was written is read back from whatever text it stands in, if nothing that could
belong to a number follows it.

* `NumberText.extends_read?`: the parts of a number are the same whatever follows;
* `NumberText.read?_intChars`: an integer of 64 bits is read back;
* `NumberText.isDigit_of_read?`: a number without fraction and exponent is a sign and digits.
-/

namespace BuildMetrics.Json

/-- No number goes on with these characters. -/
def EndsNumber (cs : List Char) : Prop :=
  ∀ c ∈ cs.head?, c.isDigit = false ∧ c ≠ '.' ∧ c ≠ 'e' ∧ c ≠ 'E'

/-- A number may end where the text ends. -/
theorem endsNumber_nil : EndsNumber [] := by rintro c ⟨⟩

/-- A number ends before a character that cannot stand in it. -/
theorem endsNumber_cons {c : Char} (h : c.isDigit = false ∧ c ≠ '.' ∧ c ≠ 'e' ∧ c ≠ 'E')
    (cs : List Char) : EndsNumber (c :: cs) := by
  rintro _ ⟨⟩
  exact h

namespace NumberText

variable {cs ds r rest : List Char}

/-! ## Digits -/

theorem takeWhile_isDigit_of_head (h : ∀ c ∈ r.head?, c.isDigit = false) :
    r.takeWhile Char.isDigit = [] ∧ r.dropWhile Char.isDigit = r := by
  cases r with
  | nil => exact ⟨rfl, rfl⟩
  | cons c r =>
    have hc : ¬ c.isDigit = true := by simp [h c rfl]
    exact ⟨List.takeWhile_cons_of_neg hc, List.dropWhile_cons_of_neg hc⟩

/-- The digits that are read are all that come next. -/
theorem digits?_eq_some_iff :
    digits? cs = some (ds, r) ↔
      cs = ds ++ r ∧ ds ≠ [] ∧ (∀ c ∈ ds, c.isDigit = true) ∧ ∀ c ∈ r.head?, c.isDigit = false := by
  rw [digits?, List.span_eq_takeWhile_dropWhile]
  constructor
  · intro h
    have hsplit : cs.takeWhile Char.isDigit ++ cs.dropWhile Char.isDigit = cs :=
      List.takeWhile_append_dropWhile
    have hdigits : ∀ c ∈ cs.takeWhile Char.isDigit, c.isDigit = true :=
      fun c hc => List.mem_takeWhile_imp hc
    have hhead : ∀ c ∈ (cs.dropWhile Char.isDigit).head?, c.isDigit = false := by
      intro c hc
      have hnot := List.head?_dropWhile_not Char.isDigit cs
      rw [hc] at hnot
      simpa using hnot
    cases htake : cs.takeWhile Char.isDigit with
    | nil =>
      rw [htake] at h
      cases h
    | cons d ds' =>
      rw [htake] at h hsplit hdigits
      cases h
      exact ⟨hsplit.symm, List.cons_ne_nil _ _, hdigits, hhead⟩
  · rintro ⟨rfl, hne, hdigits, hr⟩
    obtain ⟨htake, hdrop⟩ := takeWhile_isDigit_of_head hr
    rw [List.takeWhile_append_of_pos hdigits, List.dropWhile_append_of_pos hdigits, htake, hdrop,
      List.append_nil]
    cases ds with
    | nil => exact absurd rfl hne
    | cons d ds => rfl

/-- Digits that have ended have ended, whatever follows the number. -/
theorem head?_append_isDigit (hr : ∀ c ∈ r.head?, c.isDigit = false) (hrest : EndsNumber rest) :
    ∀ c ∈ (r ++ rest).head?, c.isDigit = false := by
  cases r with
  | nil => exact fun c hc => (hrest c hc).1
  | cons d r => exact hr

/-! ## What follows does not matter -/

/-- A reader takes characters from the front, and takes the same whatever follows a number. -/
def Extends {α : Type} (f : List Char → Option (α × List Char)) : Prop :=
  ∀ ⦃cs a r⦄, f cs = some (a, r) → r <:+ cs ∧
    ∀ rest, EndsNumber rest → f (cs ++ rest) = some (a, r ++ rest)

theorem extends_digits? : Extends digits? := by
  intro cs ds r h
  obtain ⟨rfl, hne, hdigits, hr⟩ := digits?_eq_some_iff.mp h
  refine ⟨List.suffix_append _ _, fun rest hrest => digits?_eq_some_iff.mpr ?_⟩
  exact ⟨List.append_assoc _ _ _, hne, hdigits, head?_append_isDigit hr hrest⟩

/-- A zero before anything but a digit is a whole number. -/
theorem whole?_zero_of_head (h : ∀ c ∈ cs.head?, c.isDigit = false) :
    whole? ('0' :: cs) = some (['0'], cs) := by
  cases cs with
  | nil => rfl
  | cons c cs =>
    show (if c.isDigit then none else some (['0'], c :: cs)) = _
    rw [h c rfl]
    rfl

/-- A whole number that begins with a zero is the zero. -/
theorem whole?_zero_eq_some_iff :
    whole? ('0' :: cs) = some (ds, r) ↔
      ds = ['0'] ∧ cs = r ∧ ∀ c ∈ cs.head?, c.isDigit = false := by
  constructor
  · intro h
    have hhead : ∀ c ∈ cs.head?, c.isDigit = false := by
      intro c hc
      obtain ⟨cs, rfl⟩ := List.head?_eq_some_iff.mp hc
      by_contra hdigit
      have hnone : whole? ('0' :: c :: cs) = none := if_pos (by simpa using hdigit)
      rw [hnone] at h
      cases h
    rw [whole?_zero_of_head hhead] at h
    cases h
    exact ⟨rfl, rfl, hhead⟩
  · rintro ⟨rfl, rfl, hhead⟩
    exact whole?_zero_of_head hhead

/-- Other whole numbers are just digits. -/
theorem whole?_of_ne {c : Char} (h : c ≠ '0') : whole? (c :: cs) = digits? (c :: cs) := by
  unfold whole?
  split
  · next heq => exact absurd (List.cons.inj heq).1 h
  · rfl

theorem extends_whole? : Extends whole? := by
  intro cs ds r h
  cases cs with
  | nil => cases h
  | cons c cs =>
    by_cases hc : c = '0'
    · subst hc
      obtain ⟨rfl, rfl, hcs⟩ := whole?_zero_eq_some_iff.mp h
      refine ⟨List.suffix_cons _ _, fun rest hrest => whole?_zero_eq_some_iff.mpr ?_⟩
      exact ⟨rfl, rfl, head?_append_isDigit hcs hrest⟩
    · rw [whole?_of_ne hc] at h
      obtain ⟨hsuffix, happend⟩ := extends_digits? h
      refine ⟨hsuffix, fun rest hrest => ?_⟩
      rw [List.cons_append, whole?_of_ne hc]
      exact happend rest hrest

/-- Where no point comes, there is no fraction. -/
theorem fraction?_of_head (h : ∀ c ∈ cs.head?, c ≠ '.') : fraction? cs = some (none, cs) := by
  unfold fraction?
  split
  · exact absurd rfl (h '.' rfl)
  · rfl

theorem extends_fraction? : Extends fraction? := by
  intro cs f r h
  by_cases hpoint : cs.head? = some '.'
  · obtain ⟨cs, rfl⟩ := List.head?_eq_some_iff.mp hpoint
    obtain ⟨⟨ds, r⟩, hdigits, heq⟩ := Option.map_eq_some_iff.mp h
    cases heq
    obtain ⟨hsuffix, happend⟩ := extends_digits? hdigits
    refine ⟨hsuffix.trans (List.suffix_cons _ _), fun rest hrest => ?_⟩
    rw [List.cons_append, fraction?, happend rest hrest]
    rfl
  · have hhead : ∀ c ∈ cs.head?, c ≠ '.' := by
      rintro c hc rfl
      exact hpoint hc
    rw [fraction?_of_head hhead] at h
    cases h
    refine ⟨List.suffix_refl _, fun rest hrest => fraction?_of_head ?_⟩
    cases cs with
    | nil => exact fun c hc => (hrest c hc).2.1
    | cons d cs => exact hhead

theorem extends_exponentDigits? (negative : Bool) : Extends (exponentDigits? negative) := by
  intro cs x r h
  obtain ⟨⟨ds, r⟩, hdigits, heq⟩ := Option.map_eq_some_iff.mp h
  cases heq
  obtain ⟨hsuffix, happend⟩ := extends_digits? hdigits
  refine ⟨hsuffix, fun rest hrest => ?_⟩
  rw [exponentDigits?, happend rest hrest]
  rfl

/-- Where no letter for it comes, there is no exponent. -/
theorem exponent?_of_head (h : ∀ c ∈ cs.head?, c ≠ 'e' ∧ c ≠ 'E') :
    exponent? cs = some (none, cs) := by
  cases cs with
  | nil => rfl
  | cons c cs =>
    have hc : ¬ (c = 'e' ∨ c = 'E') := not_or.mpr (h c rfl)
    unfold exponent?
    exact if_neg hc

/-- An exponent may have a sign of either kind behind its letter, or none. -/
theorem exponent?_letter {c : Char} (h : c = 'e' ∨ c = 'E') :
    exponent? (c :: '+' :: cs) = exponentDigits? false cs ∧
    exponent? (c :: '-' :: cs) = exponentDigits? true cs ∧
    ((∀ d ∈ cs.head?, d ≠ '+' ∧ d ≠ '-') → exponent? (c :: cs) = exponentDigits? false cs) := by
  refine ⟨if_pos h, if_pos h, fun hsign => ?_⟩
  unfold exponent?
  simp only [if_pos h]
  split
  · exact absurd rfl (hsign '+' rfl).1
  · exact absurd rfl (hsign '-' rfl).2
  · rfl

theorem extends_exponent? : Extends exponent? := by
  intro cs x r h
  by_cases hletter : ∃ c ∈ cs.head?, c = 'e' ∨ c = 'E'
  · obtain ⟨c, hhead, hc⟩ := hletter
    obtain ⟨cs, rfl⟩ := List.head?_eq_some_iff.mp hhead
    -- the digits stand behind a sign, or behind the letter
    obtain ⟨negative, ds, hds, hdigits, heq⟩ : ∃ negative ds, ds <:+ cs ∧
        exponentDigits? negative ds = some (x, r) ∧
        ∀ rest, exponent? (c :: cs ++ rest) = exponentDigits? negative (ds ++ rest) := by
      cases cs with
      | nil =>
        rw [(exponent?_letter hc).2.2 (by rintro d ⟨⟩)] at h
        cases h
      | cons d cs =>
        by_cases hplus : d = '+'
        · subst hplus
          exact ⟨false, cs, List.suffix_cons _ _, (exponent?_letter hc).1 ▸ h,
            fun rest => (exponent?_letter hc).1⟩
        by_cases hminus : d = '-'
        · subst hminus
          exact ⟨true, cs, List.suffix_cons _ _, (exponent?_letter hc).2.1 ▸ h,
            fun rest => (exponent?_letter hc).2.1⟩
        have hsign : ∀ c ∈ (d :: cs).head?, c ≠ '+' ∧ c ≠ '-' := by
          rintro _ ⟨⟩
          exact ⟨hplus, hminus⟩
        exact ⟨false, d :: cs, List.suffix_refl _, (exponent?_letter hc).2.2 hsign ▸ h,
          fun rest => (exponent?_letter hc).2.2 hsign⟩
    obtain ⟨hsuffix, happend⟩ := extends_exponentDigits? negative hdigits
    refine ⟨(hsuffix.trans hds).trans (List.suffix_cons _ _), fun rest hrest => ?_⟩
    rw [heq, happend rest hrest]
  · have hhead : ∀ c ∈ cs.head?, c ≠ 'e' ∧ c ≠ 'E' := by
      intro c hc
      exact not_or.mp fun hletters => hletter ⟨c, hc, hletters⟩
    rw [exponent?_of_head hhead] at h
    cases h
    refine ⟨List.suffix_refl _, fun rest hrest => exponent?_of_head ?_⟩
    cases cs with
    | nil => exact fun c hc => (hrest c hc).2.2
    | cons d cs => exact hhead

/-- The parts in front of what is left. -/
theorem unsigned?_eq_some_iff {negative : Bool} {t : NumberText} :
    unsigned? negative cs = some (t, r) ↔
      ∃ cs' cs'', whole? cs = some (t.whole, cs') ∧ fraction? cs' = some (t.fraction, cs'') ∧
        exponent? cs'' = some (t.exponent, r) ∧ t.negative = negative := by
  obtain ⟨sign, whole, fraction, exponent⟩ := t
  simp only [unsigned?, Option.bind_eq_bind, Option.bind_eq_some_iff, Prod.exists, Option.pure_def,
    Option.some.injEq, Prod.mk.injEq, NumberText.mk.injEq]
  constructor
  · rintro ⟨w, cs', hwhole, f, cs'', hfraction, e, r', hexponent, ⟨rfl, rfl, rfl, rfl⟩, rfl⟩
    exact ⟨cs', cs'', hwhole, hfraction, hexponent, rfl⟩
  · rintro ⟨cs', cs'', hwhole, hfraction, hexponent, rfl⟩
    exact ⟨_, cs', hwhole, _, cs'', hfraction, _, r, hexponent, ⟨rfl, rfl, rfl, rfl⟩, rfl⟩

theorem extends_unsigned? (negative : Bool) : Extends (unsigned? negative) := by
  intro cs t r h
  obtain ⟨cs', cs'', hwhole, hfraction, hexponent, hsign⟩ := unsigned?_eq_some_iff.mp h
  obtain ⟨hsuffix, happend⟩ := extends_whole? hwhole
  obtain ⟨hsuffix', happend'⟩ := extends_fraction? hfraction
  obtain ⟨hsuffix'', happend''⟩ := extends_exponent? hexponent
  refine ⟨(hsuffix''.trans hsuffix').trans hsuffix, fun rest hrest => ?_⟩
  exact unsigned?_eq_some_iff.mpr
    ⟨_, _, happend rest hrest, happend' rest hrest, happend'' rest hrest, hsign⟩

theorem read?_of_head (h : ∀ c ∈ cs.head?, c ≠ '-') : read? cs = unsigned? false cs := by
  unfold read?
  split
  · exact absurd rfl (h '-' rfl)
  · rfl

/-- **What follows a number does not matter.** -/
theorem extends_read? : Extends read? := by
  intro cs t r h
  cases cs with
  | nil => cases h
  | cons c cs =>
    by_cases hc : c = '-'
    · subst hc
      obtain ⟨hsuffix, happend⟩ := extends_unsigned? true h
      exact ⟨hsuffix.trans (List.suffix_cons _ _), happend⟩
    · have hhead (cs : List Char) : ∀ d ∈ (c :: cs).head?, d ≠ '-' := by
        rintro _ ⟨⟩
        exact hc
      rw [read?_of_head (hhead _)] at h
      obtain ⟨hsuffix, happend⟩ := extends_unsigned? false h
      refine ⟨hsuffix, fun rest hrest => ?_⟩
      rw [List.cons_append, read?_of_head (hhead _)]
      exact happend rest hrest

/-! ## Integers -/

theorem digitChar_ne_zero {n : Nat} (h : 0 < n) (hn : n < 10) : Decimal.digitChar n ≠ '0' := by
  intro heq
  have hvalue := Decimal.digitValue_digitChar hn
  rw [heq] at hvalue
  exact absurd hvalue.symm (Nat.pos_iff_ne_zero.mp h)

/-- A number other than zero does not begin with a zero. -/
theorem digits_head {n : Nat} (h : 0 < n) : ∀ c ∈ (Decimal.digits n).head?, c ≠ '0' := by
  induction n using Decimal.digits.induct with
  | case1 n hn =>
    rw [Decimal.digits, if_pos hn]
    rintro _ ⟨⟩
    exact digitChar_ne_zero h hn
  | case2 n hn ih =>
    rw [Decimal.digits, if_neg hn, List.head?_append_of_ne_nil _ (Decimal.digits_ne_nil _)]
    exact ih (by omega)

/-- The digits of a number are read as a whole number. -/
theorem whole?_digits (n : Nat) (hrest : EndsNumber rest) :
    whole? (Decimal.digits n ++ rest) = some (Decimal.digits n, rest) := by
  have hend : ∀ c ∈ rest.head?, c.isDigit = false := fun c hc => (hrest c hc).1
  rcases Nat.eq_zero_or_pos n with rfl | hn
  · have hzero : Decimal.digits 0 = ['0'] := by decide +kernel
    rw [hzero]
    exact whole?_zero_of_head hend
  · cases hdigits : Decimal.digits n with
    | nil => exact absurd hdigits (Decimal.digits_ne_nil n)
    | cons d ds =>
      have hd : d ≠ '0' := digits_head hn d (by rw [hdigits]; rfl)
      rw [List.cons_append, whole?_of_ne hd, ← List.cons_append, ← hdigits]
      exact digits?_eq_some_iff.mpr ⟨rfl, Decimal.digits_ne_nil n,
        fun c hc => Decimal.isDigit_of_mem_digits hc, hend⟩

/-- The digits of a number are read as a number without fraction and exponent. -/
theorem unsigned?_digits (negative : Bool) (n : Nat) (hrest : EndsNumber rest) :
    unsigned? negative (Decimal.digits n ++ rest) =
      some (⟨negative, Decimal.digits n, none, none⟩, rest) :=
  unsigned?_eq_some_iff.mpr ⟨rest, rest, whole?_digits n hrest,
    fraction?_of_head fun c hc => (hrest c hc).2.1, exponent?_of_head fun c hc => (hrest c hc).2.2,
    rfl⟩

end NumberText

/-- The characters that a number may begin with. -/
def StartsNumber (cs : List Char) : Prop := ∃ c ∈ cs.head?, c = '-' ∨ c.isDigit = true

/-- The digits of a number begin like a number. -/
theorem startsNumber_digits (n : Nat) : StartsNumber (Decimal.digits n) := by
  obtain ⟨c, cs, h⟩ := List.exists_cons_of_ne_nil (Decimal.digits_ne_nil n)
  refine ⟨c, by rw [h]; rfl, .inr (Decimal.isDigit_of_mem_digits (n := n) ?_)⟩
  rw [h]
  exact List.mem_cons_self

/-- A written integer begins like a number. -/
theorem startsNumber_intChars (n : Int) : StartsNumber (Decimal.intChars n) := by
  cases n with
  | ofNat m => exact startsNumber_digits m
  | negSucc m => exact ⟨'-', rfl, .inl rfl⟩

namespace NumberText

variable {cs ds r rest : List Char}

theorem digits_append_head (n : Nat) : ∀ c ∈ (Decimal.digits n ++ rest).head?, c ≠ '-' := by
  rintro c hc rfl
  rw [List.head?_append_of_ne_nil _ (Decimal.digits_ne_nil n)] at hc
  have hdigit : '-'.isDigit = true := Decimal.isDigit_of_mem_digits (List.mem_of_head? hc)
  exact absurd hdigit (by decide)

/-- **An integer of 64 bits is read back** from whatever text it stands in. -/
theorem read?_intChars {n : Int} (hlow : -9223372036854775808 ≤ n)
    (hhigh : n < 18446744073709551616) (hrest : EndsNumber rest) :
    ∃ t, read? (Decimal.intChars n ++ rest) = some (t, rest) ∧ t.value? = some (.integer n) := by
  cases n with
  | ofNat m =>
    refine ⟨_, (read?_of_head (digits_append_head m)).trans (unsigned?_digits false m hrest), ?_⟩
    have hm : m < 18446744073709551616 := by
      rw [Int.ofNat_eq_natCast] at hhigh
      omega
    simp only [value?, Decimal.ofDigits_digits, hm, Option.isSome_none, Bool.or_self,
      Bool.false_eq_true, if_false, if_true]
    rfl
  | negSucc m =>
    refine ⟨_, unsigned?_digits true (m + 1) hrest, ?_⟩
    have hm : 0 < m + 1 ∧ m + 1 ≤ 9223372036854775808 := by omega
    simp only [value?, Decimal.ofDigits_digits, hm, Option.isSome_none, Bool.or_self,
      Bool.false_eq_true, if_false, if_true, and_self]
    rfl

/-! ## Doubles -/

/-- A fraction that is not there takes nothing from the text. -/
theorem fraction?_eq_some_none (h : fraction? cs = some (none, r)) : r = cs := by
  by_cases hpoint : cs.head? = some '.'
  · obtain ⟨cs, rfl⟩ := List.head?_eq_some_iff.mp hpoint
    obtain ⟨_, -, heq⟩ := Option.map_eq_some_iff.mp h
    cases heq
  · rw [fraction?_of_head (by rintro c hc rfl; exact hpoint hc)] at h
    cases h
    rfl

/-- Behind its letter an exponent is there or the text is wrong. -/
theorem exponentDigits?_ne_none {negative : Bool} :
    exponentDigits? negative cs ≠ some (none, r) := by
  intro h
  obtain ⟨_, -, heq⟩ := Option.map_eq_some_iff.mp h
  cases heq

/-- An exponent that is not there takes nothing from the text. -/
theorem exponent?_eq_some_none (h : exponent? cs = some (none, r)) : r = cs := by
  cases cs with
  | nil =>
    cases h
    rfl
  | cons c cs =>
    simp only [exponent?] at h
    split at h
    · split at h
      all_goals exact absurd h exponentDigits?_ne_none
    · cases h
      rfl

/-- A whole number is digits and nothing else. -/
theorem isDigit_of_whole? (h : whole? cs = some (ds, [])) : ∀ c ∈ cs, c.isDigit = true := by
  cases cs with
  | nil => cases h
  | cons c cs =>
    by_cases hc : c = '0'
    · subst hc
      obtain ⟨-, rfl, -⟩ := whole?_zero_eq_some_iff.mp h
      exact List.forall_mem_singleton.mpr (by decide)
    · rw [whole?_of_ne hc] at h
      obtain ⟨heq, -, hdigits, -⟩ := digits?_eq_some_iff.mp h
      rwa [heq, List.append_nil]

/-- A number without fraction and exponent is digits and nothing else. -/
theorem isDigit_of_unsigned? {negative : Bool} {t : NumberText}
    (h : unsigned? negative cs = some (t, [])) (hfraction : t.fraction = none)
    (hexponent : t.exponent = none) : ∀ c ∈ cs, c.isDigit = true := by
  obtain ⟨cs', cs'', hw, hf, he, -⟩ := unsigned?_eq_some_iff.mp h
  rw [hfraction] at hf
  rw [hexponent] at he
  obtain rfl := exponent?_eq_some_none he
  obtain rfl := fraction?_eq_some_none hf
  exact isDigit_of_whole? hw

/-- A number that has neither a fraction nor an exponent is a sign and digits. -/
theorem isDigit_of_read? {t : NumberText} (h : read? cs = some (t, []))
    (hfraction : t.fraction = none) (hexponent : t.exponent = none) :
    ∀ c ∈ cs, c = '-' ∨ c.isDigit = true := by
  cases cs with
  | nil => cases h
  | cons c cs =>
    by_cases hc : c = '-'
    · subst hc
      intro d hd
      exact (List.mem_cons.mp hd).imp_right (isDigit_of_unsigned? h hfraction hexponent d)
    · rw [read?_of_head (by rintro _ ⟨⟩; exact hc)] at h
      exact fun d hd => .inr (isDigit_of_unsigned? h hfraction hexponent d hd)

/-- A number with a fraction or an exponent is no integer. -/
theorem value?_ne_integer {t : NumberText} (h : t.fraction ≠ none ∨ t.exponent ≠ none) (n : Int) :
    t.value? ≠ some (.integer n) := by
  intro hvalue
  have hcond : (t.fraction.isSome || t.exponent.isSome) = true := by
    rw [Bool.or_eq_true, Option.isSome_iff_ne_none, Option.isSome_iff_ne_none]
    exact h
  rw [value?] at hvalue
  simp only [hcond, if_true] at hvalue
  obtain ⟨x, -, hx⟩ := Option.map_eq_some_iff.mp hvalue
  cases hx

end NumberText

end BuildMetrics.Json
