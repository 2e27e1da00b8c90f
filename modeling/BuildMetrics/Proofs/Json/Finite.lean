import BuildMetrics.Json.Codec
import BuildMetrics.Proofs.Json.Exponent

/-!
# Numbers that are read are finite

Every double that is read from a text is finite: a number beyond the doubles is refused, and
dividing by a power of ten, once or twice, does not lead beyond them.

* `isFinite_of_value?`: a double that the parts of a number stand for is finite;
* `isFinite_floatOfInt`: so is the double that is taken for an integer;
* `isFinite_of_holds_ofChars`: so is every double in the draft of a text.
-/

namespace BuildMetrics.Json

open Float.Model Float.Model.UnpackedFloat

/-! ## Doubles -/

/-- A double whose exponent is at most `E`. -/
def FloatBelow (E : Int) (x : Float) : Prop := Below E x.toModel.unpack

/-- A double with a bound on its exponent is finite. -/
theorem FloatBelow.isFinite {E : Int} {x : Float} (h : FloatBelow E x) : x.isFinite = true :=
  Below.isFinite h

/-- The finite doubles are those with an exponent of at most 971. -/
theorem isFinite_iff_floatBelow {x : Float} : x.isFinite = true ↔ FloatBelow 971 x :=
  ⟨below_of_isFinite, Below.isFinite⟩

/-- The sign of a double has nothing to do with whether it is finite. -/
theorem isFinite_neg {x : Float} (h : x.isFinite = true) : (-x).isFinite = true := by
  have hx : Below 971 x.toModel.unpack := isFinite_iff_floatBelow.mp h
  have hneg : Below 971 x.toModel.unpack.neg := by
    cases hu : x.toModel.unpack with
    | zero s => trivial
    | finite s m e hm =>
      rw [hu] at hx
      exact hx
    | infinity s =>
      rw [hu] at hx
      exact hx
    | notANumber =>
      rw [hu] at hx
      exact hx
  exact (below_pack hneg (by decide) (by decide)).isFinite

/-- A count of 64 bits is a finite double. -/
theorem floatBelow_toFloat (n : UInt64) : FloatBelow 12 n.toFloat := by
  have hn : n.toNat < 18446744073709551616 := n.toNat_lt
  exact below_pack (below_ofInt (n := (n.toNat : Int)) (by omega) (by omega))
    (by decide) (by decide)

/-- An integer is no infinite double. -/
theorem isFinite_floatOfInt (n : Int) : (Codec.floatOfInt n).isFinite = true := by
  unfold Codec.floatOfInt
  split
  · exact isFinite_neg (floatBelow_toFloat _).isFinite
  · exact (floatBelow_toFloat _).isFinite

/-! ## Powers of ten -/

theorem log2_shift_lt (p : Nat) {n q : Nat} (hn : 0 < n) (h : n < 2 ^ q) :
    (2 ^ p * n).log2 < p + q := by
  have htwo : 0 < 2 ^ p := Nat.pow_pos (by decide)
  rw [Nat.log2_lt (Nat.ne_of_gt (Nat.mul_pos htwo hn)), Nat.pow_add]
  exact Nat.mul_lt_mul_of_pos_left h htwo

/-- A power of ten that is rounded. -/
theorem above_ofScientific {k : Nat} (h : k ≤ 307) :
    Above (-52) (Float.Model.ofScientific 1 k).unpack := by
  have hbits : (2 : Int) ^ Format.exponentBits .binary64 = 2048 := by decide
  have hmul : UnpackedFloat.ofScientific .binary64 1 k =
      roundWithAccuracy .binary64 (.positive * .positive) (2 ^ 53 * 10 ^ k) (-53 + 0) .exact := by
    unfold UnpackedFloat.ofScientific
    rw [dif_neg (by decide), hbits, if_neg (by omega), if_neg (by omega), if_pos (by omega)]
    rfl
  have hten : 0 < 10 ^ k := Nat.pow_pos (by decide)
  have hne : 2 ^ 53 * 10 ^ k ≠ 0 := by omega
  have hlow : 53 ≤ (2 ^ 53 * 10 ^ k).log2 := (Nat.le_log2 hne).mpr (Nat.le_mul_of_pos_right _ hten)
  have hgreatest : 10 ^ k < 2 ^ 1020 :=
    Nat.lt_of_le_of_lt (Nat.pow_le_pow_right (by decide) h) (by decide +kernel)
  have hhigh : (2 ^ 53 * 10 ^ k).log2 < 53 + 1020 := log2_shift_lt 53 hten hgreatest
  obtain ⟨n, f, hn, heq, hlog, hf, hf'⟩ := roundWithAccuracy_of_long
    (.positive * .positive) (e := -53 + 0) .exact (Nat.le_of_succ_le hlow) (by omega)
  show Above (-52) (UnpackedFloat.unpack .binary64 (UnpackedFloat.pack .binary64
    (UnpackedFloat.ofScientific .binary64 1 k)))
  rw [hmul, heq]
  exact above_pack hlog (by omega) (by omega) (by omega)

/-- A power of ten is not too small to be divided by. -/
theorem above_powerOfTen {k : Nat} (h : k ≤ 308) :
    Above (-52) (NumberText.powerOfTen k).toModel.unpack := by
  -- the exact powers come from a table, and the greatest one has no room for a carry
  have hdirect : ∀ k ∈ 308 :: List.range 23,
      Above (-52) (NumberText.powerOfTen k).toModel.unpack := by
    decide +kernel
  by_cases hk : k ∈ 308 :: List.range 23
  · exact hdirect k hk
  · rw [List.mem_cons, List.mem_range] at hk
    have hslow : NumberText.powerOfTen k = .ofModel (Float.Model.ofScientific 1 k) :=
      dif_neg (by omega)
    rw [hslow]
    exact above_ofScientific (by omega)

/-- Dividing by a power of ten does not make a double infinite. -/
theorem floatBelow_div {E : Int} {x : Float} (hx : FloatBelow E x) (hlow : -1074 ≤ E)
    (hhigh : E ≤ 918) {k : Nat} (hk : k ≤ 308) :
    FloatBelow (E + 53) (x / NumberText.powerOfTen k) :=
  below_pack (below_div hx hlow (fun _ _ _ _ => mantissa_lt_of_unpack) (above_powerOfTen hk))
    (by omega) (by omega)

/-- The powers of ten up to the 308th are finite. -/
theorem isFinite_powerOfTen {k : Nat} (h : k ≤ 308) :
    (NumberText.powerOfTen k).isFinite = true := by
  show (NumberText.powerOfTen k).toModel.unpack.isFinite = true
  have habove := above_powerOfTen h
  cases hu : (NumberText.powerOfTen k).toModel.unpack with
  | finite s m e hm => rfl
  | _ =>
    rw [hu] at habove
    exact habove.elim

/-! ## Reading -/

/-- A number that was scaled by a power of ten and did not grow too great is finite. -/
theorem isFinite_of_scale? {n : Nat} {k : Int} {x : Float}
    (h : NumberText.scale? n k = some x) : x.isFinite = true := by
  have hn : FloatBelow 12 (UInt64.ofNat n).toFloat := floatBelow_toFloat _
  simp only [NumberText.scale?] at h
  split_ifs at h with hpos hgreat hinf hzero hsmall htiny
  · cases h
    obtain ⟨E, hE⟩ := exists_below_mul hn
      (isFinite_iff_floatBelow.mp (isFinite_powerOfTen (k := k.toNat) (by omega)))
    exact isFinite_pack hE (Bool.eq_false_iff.mpr hinf)
  · cases h
    decide +kernel
  · cases h
    exact (floatBelow_div hn (by decide) (by decide) (by omega)).isFinite
  · cases h
    have hfirst := floatBelow_div (k := 308) hn (by decide) (by decide) (by decide)
    exact (floatBelow_div hfirst (by decide) (by decide) (by omega)).isFinite
  · cases h
    decide +kernel

/-- The double that a text of a number stands for is finite. -/
theorem isFinite_of_value? {t : NumberText} {x : Float} (h : t.value? = some (.float x)) :
    x.isFinite = true := by
  have hfloat {o : Option Float} (ho : o.map Number.float = some (.float x)) : o = some x := by
    obtain ⟨y, rfl, hy⟩ := Option.map_eq_some_iff.mp ho
    cases hy
    rfl
  have hread : t.float? = some x := by
    simp only [NumberText.value?] at h
    split_ifs at h
    all_goals first | exact hfloat h | cases h
  simp only [NumberText.float?] at hread
  obtain ⟨y, hy, hx⟩ := Option.map_eq_some_iff.mp hread
  have hfinite := isFinite_of_scale? hy
  split_ifs at hx
  · rw [← hx]
    exact isFinite_neg hfinite
  · rwa [← hx]

/-! ## Drafts -/

/-- `x` is one of the doubles in a draft. -/
inductive Draft.Holds (x : Float) : Draft → Prop where
  /-- it is the draft itself -/
  | float : Holds x (.float x)
  /-- it stands in a list -/
  | item {d : Draft} {ds : List Draft} {closed : Bool} (hd : d ∈ ds) (h : Holds x d) :
      Holds x (.array ds closed)
  /-- it stands in an object -/
  | member {m : Option String × Draft} {ms : List (Option String × Draft)} {closed : Bool}
      (hm : m ∈ ms) (h : Holds x m.2) : Holds x (.object ms closed)

/-- The draft of a number holds no double that is not finite. -/
theorem isFinite_of_holds_ofNumber {o : Option Number} {x : Float}
    (ho : ∀ y, o = some (.float y) → y.isFinite = true) (h : (Draft.ofNumber o).Holds x) :
    x.isFinite = true := by
  cases o with
  | none => cases h
  | some v =>
    cases v with
    | integer n => cases h
    | float y =>
      cases h
      exact ho _ rfl

/-- Each of the three readers reads finite doubles only. They call one another with less fuel, so
the three go by one induction. -/
theorem isFinite_of_holds_reader (x : Float) (fuel : Nat) :
    (∀ cs, (value fuel cs).1.Holds x → x.isFinite = true) ∧
    (∀ cs, ∀ d ∈ (items fuel cs).1, d.Holds x → x.isFinite = true) ∧
    (∀ cs, ∀ m ∈ (members fuel cs).1, m.2.Holds x → x.isFinite = true) := by
  induction fuel with
  | zero =>
    refine ⟨fun cs h => ?_, fun cs d hd => ?_, fun cs m hm => ?_⟩
    · cases h
    · cases hd
    · cases hm
  | succ fuel ih =>
    obtain ⟨hvalue, hitems, hmembers⟩ := ih
    have hhead {cs : List Char} {d : Draft} {r : Option (List Char)}
        (hv : value fuel cs = (d, r)) (hd : d.Holds x) : x.isFinite = true :=
      hvalue cs (by rwa [hv])
    refine ⟨fun cs h => ?_, fun cs d hd h => ?_, fun cs m hm h => ?_⟩
    · unfold value at h
      split at h
      · cases h
      · cases h
      · cases h
      · split at h
        all_goals cases h
      · split at h
        · cases h with
          | item hd h => cases hd
        · cases h with
          | item hd h => exact hitems _ _ hd h
      · split at h
        · cases h with
          | member hm h => cases hm
        · cases h with
          | member hm h => exact hmembers _ _ hm h
      · split at h
        · cases h
        · exact isFinite_of_holds_ofNumber (fun y hy => isFinite_of_value? hy) h
    · unfold items at hd
      split at hd
      · next hv =>
        obtain rfl := List.mem_singleton.mp hd
        exact hhead hv h
      · next hv =>
        split at hd
        · obtain rfl := List.mem_singleton.mp hd
          exact hhead hv h
        · rcases List.mem_cons.mp hd with rfl | hd
          · exact hhead hv h
          · exact hitems _ _ hd h
        · obtain rfl := List.mem_singleton.mp hd
          exact hhead hv h
    · unfold members at hm
      split at hm
      · split at hm
        · cases hm
        · split at hm
          · split at hm
            · next hv =>
              obtain rfl := List.mem_singleton.mp hm
              exact hhead hv h
            · next hv =>
              split at hm
              · obtain rfl := List.mem_singleton.mp hm
                exact hhead hv h
              · rcases List.mem_cons.mp hm with rfl | hm
                · exact hhead hv h
                · exact hmembers _ _ hm h
              · obtain rfl := List.mem_singleton.mp hm
                exact hhead hv h
          · obtain rfl := List.mem_singleton.mp hm
            cases h
      · cases hm

/-- **Every double that is read is finite.** -/
theorem isFinite_of_holds_ofChars {cs : List Char} {x : Float}
    (h : (Draft.ofChars cs).1.Holds x) : x.isFinite = true := by
  refine (isFinite_of_holds_reader x (2 * cs.length + 2)).1 cs ?_
  unfold Draft.ofChars at h
  split at h
  · next hv => rwa [hv]
  · next hv => rwa [hv]

end BuildMetrics.Json
