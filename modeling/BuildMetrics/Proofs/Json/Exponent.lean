import Mathlib

/-!
# Exponents of doubles

How far the exponent of a double may grow when numbers are rounded, stored in 64 bits, multiplied
and divided. A double is finite if and only if its exponent is at most 971.

* `roundWithAccuracy_binary64`: what rounding does to the digits and to the exponent;
* `below_pack`, `above_pack`: a number that is not too great keeps its exponent where it is stored;
* `below_div`: a quotient is not much greater than its dividend.
-/

namespace BuildMetrics.Json

open Float.Model Float.Model.UnpackedFloat

/-! ## Exponents -/

/-- A number whose exponent is at most `E`. -/
def Below (E : Int) : UnpackedFloat → Prop
  | .zero _ => True
  | .finite _ _ e _ => e ≤ E
  | .infinity _ | .notANumber => False

/-- A number other than zero whose exponent is at least `E`. -/
def Above (E : Int) : UnpackedFloat → Prop
  | .finite _ _ e _ => E ≤ e
  | .zero _ | .infinity _ | .notANumber => False

instance (E : Int) (u : UnpackedFloat) : Decidable (Above E u) :=
  match u with
  | .finite _ _ e _ => inferInstanceAs (Decidable (E ≤ e))
  | .zero _ | .infinity _ | .notANumber => isFalse id

/-- A bound on the exponent may be raised. -/
theorem Below.mono {E F : Int} {u : UnpackedFloat} (h : Below E u) (hle : E ≤ F) : Below F u := by
  cases u with
  | zero s => trivial
  | finite s m e hm => exact Int.le_trans h hle
  | infinity s => exact h
  | notANumber => exact h

/-- A number with a bound on its exponent is finite. -/
theorem Below.isFinite {E : Int} {u : UnpackedFloat} (h : Below E u) : u.isFinite = true := by
  cases u with
  | zero s => rfl
  | finite s m e hm => rfl
  | infinity s => exact h.elim
  | notANumber => exact h.elim

theorem exponentBias_binary64 : (Format.exponentBias .binary64 : Int) = 1023 := rfl

/-- A number whose stored exponent is not the greatest one. -/
theorem below_unpack {b : BitVec Format.binary64.numBits} {E : Int} (hlow : -1074 ≤ E)
    (hone : unpackExponent b ≠ -1#_) (hE : ((unpackExponent b).toNat : Int) ≤ E + 1075) :
    Below E (UnpackedFloat.unpack .binary64 b) := by
  unfold UnpackedFloat.unpack
  rw [if_neg hone]
  split
  · next hzero =>
    split
    · trivial
    · show _ ≤ E
      rw [hzero]
      exact hlow
  · show _ - ((Format.exponentBias .binary64 : Int) + (52 : Nat)) ≤ E
    rw [exponentBias_binary64]
    omega

/-- A finite number of 64 bits has the greatest exponent of these as a bound. -/
theorem below_of_isFinite {b : BitVec Format.binary64.numBits}
    (h : (UnpackedFloat.unpack .binary64 b).isFinite = true) :
    Below 971 (UnpackedFloat.unpack .binary64 b) := by
  have hone : unpackExponent b ≠ -1#_ := by
    intro hone
    unfold UnpackedFloat.unpack at h
    rw [if_pos hone] at h
    split at h
    all_goals cases h
  refine below_unpack (by omega) hone ?_
  have hlt : (unpackExponent b).toNat < 2048 := (unpackExponent b).isLt
  have hne : (unpackExponent b).toNat ≠ 2047 := by
    intro heq
    exact hone (BitVec.eq_of_toNat_eq heq)
  omega

/-- The bits in front of the exponent do not hold more than 53 digits. -/
theorem mantissa_lt_of_unpack {b : BitVec Format.binary64.numBits} {s : Sign} {m : Nat} {e : Int}
    {hm : 0 < m} (h : UnpackedFloat.unpack .binary64 b = .finite s m e hm) : m < 2 ^ 53 := by
  unfold UnpackedFloat.unpack at h
  dsimp only at h
  split at h
  · split at h
    all_goals cases h
  · split at h
    · split at h
      · cases h
      · cases h
        exact Nat.lt_trans (unpackMantissa b).isLt (by decide)
    · cases h
      exact (1#1 ++ unpackMantissa b).isLt

/-- How a number that is not too great is stored: with its exponent, or with the least one if it
does not have all its digits. -/
theorem pack_finite (s : Sign) {m : Nat} {e : Int} (hm : 0 < m) (he : e ≤ 971) :
    ∃ (exponent : BitVec 11) (mantissa : BitVec 52),
      UnpackedFloat.pack .binary64 (.finite s m e hm) =
        packComponents .binary64 s exponent mantissa ∧
      (exponent.toNat = (e + 1075).toNat ∨ exponent.toNat = 0 ∧ m.log2 ≠ 52) := by
  have hbiased : (e + Format.exponentBias .binary64 + (52 : Nat)).toNat = (e + 1075).toNat := by
    rw [exponentBias_binary64]
    omega
  unfold UnpackedFloat.pack
  simp only [hbiased]
  split
  · next hgreat =>
    have hgreat : 2048 ≤ (e + 1075).toNat + 1 := hgreat
    omega
  · split
    · refine ⟨_, _, rfl, .inl ?_⟩
      exact (BitVec.toNat_ofNat _ _).trans (Nat.mod_eq_of_lt (by omega))
    · next hdigits =>
      refine ⟨_, _, rfl, .inr ⟨rfl, fun hlog => hdigits ?_⟩⟩
      rw [hlog]
      rfl

/-- What is packed from an exponent within a bound is unpacked within this bound. -/
theorem below_packComponents {E : Int} {s : Sign} {exponent : BitVec 11} {mantissa : BitVec 52}
    (hlow : -1074 ≤ E) (hhigh : E ≤ 971) (hexponent : (exponent.toNat : Int) ≤ E + 1075) :
    Below E (UnpackedFloat.unpack .binary64 (packComponents .binary64 s exponent mantissa)) := by
  refine below_unpack hlow ?_ ?_
  · rw [unpackExponent_packComponents]
    rintro rfl
    have hones : ((-1#11).toNat : Int) = 2047 := rfl
    rw [hones] at hexponent
    omega
  · rw [unpackExponent_packComponents]
    exact hexponent

/-- A number that is not too great keeps its exponent. -/
theorem below_pack {E : Int} {u : UnpackedFloat} (h : Below E u) (hlow : -1074 ≤ E)
    (hhigh : E ≤ 971) :
    Below E (UnpackedFloat.unpack .binary64 (UnpackedFloat.pack .binary64 u)) := by
  cases u with
  | zero s =>
    have hzero : ((0#11).toNat : Int) = 0 := rfl
    exact below_packComponents hlow hhigh (hzero.symm ▸ (by omega))
  | infinity s => exact h.elim
  | notANumber => exact h.elim
  | finite s m e hm =>
    have he : e ≤ E := h
    obtain ⟨exponent, mantissa, hpack, hexponent⟩ := pack_finite s hm (Int.le_trans he hhigh)
    rw [hpack]
    exact below_packComponents hlow hhigh (by omega)

/-- A number with all its digits keeps its exponent. -/
theorem above_pack {E : Int} {s : Sign} {m : Nat} {e : Int} {hm : 0 < m} (hlog : m.log2 = 52)
    (hE : E ≤ e) (hlow : -1074 ≤ e) (hhigh : e ≤ 971) :
    Above E (UnpackedFloat.unpack .binary64 (UnpackedFloat.pack .binary64 (.finite s m e hm))) := by
  obtain ⟨exponent, mantissa, hpack, hexponent⟩ := pack_finite s hm hhigh
  have hstored : exponent.toNat = (e + 1075).toNat := by
    rcases hexponent with hstored | ⟨-, hdigits⟩
    · exact hstored
    · exact absurd hlog hdigits
  have hone : exponent ≠ -1#11 := by
    rintro rfl
    have hones : (-1#11).toNat = 2047 := rfl
    omega
  have hzero : exponent ≠ 0#11 := by
    rintro rfl
    have hzeros : (0#11).toNat = 0 := rfl
    omega
  rw [hpack]
  unfold UnpackedFloat.unpack
  dsimp only
  rw [unpackExponent_packComponents, if_neg hone, if_neg hzero]
  show E ≤ _ - ((Format.exponentBias .binary64 : Int) + (52 : Nat))
  rw [exponentBias_binary64]
  omega

/-! ## Rounding -/

theorem shiftRight_mantissa (em : ExtendedMantissa) (k : Nat) :
    (em >>> k).mantissa = em.mantissa / 2 ^ k := by
  show (Nat.repeat ExtendedMantissa.shiftRightOne k em).mantissa = _
  induction k with
  | zero => exact (Nat.div_one _).symm
  | succ k ih =>
    show (Nat.repeat ExtendedMantissa.shiftRightOne k em).mantissa / 2 = _
    rw [ih, Nat.div_div_eq_div_mul, ← Nat.pow_succ]

/-- Rounding takes a mantissa one up at most. -/
theorem roundedMantissa_bounds (em : ExtendedMantissa) :
    em.mantissa ≤ em.roundedMantissa ∧ em.roundedMantissa ≤ em.mantissa + 1 := by
  obtain ⟨m, roundBit, stickyBit⟩ := em
  cases roundBit <;> cases stickyBit
  · exact ⟨Nat.le_refl m, Nat.le_succ m⟩
  · exact ⟨Nat.le_refl m, Nat.le_succ m⟩
  · show m ≤ m + m % 2 ∧ m + m % 2 ≤ m + 1
    omega
  · exact ⟨Nat.le_succ m, Nat.le_refl _⟩

theorem ofMantissaAndAccuracy_mantissa (m : Nat) (a : Accuracy) :
    (ExtendedMantissa.ofMantissaAndAccuracy m a).mantissa = m := by
  cases a with
  | exact => rfl
  | inexact o => cases o <;> rfl

/-- A number below a power of two has a lower logarithm. -/
theorem log2_le_of_lt {m a : Nat} (h : m < 2 ^ (a + 1)) : m.log2 ≤ a := by
  rcases Nat.eq_zero_or_pos m with rfl | hm
  · exact Nat.zero_le _
  · exact Nat.le_of_lt_succ ((Nat.log2_lt (Nat.pos_iff_ne_zero.mp hm)).mpr h)

/-- Drops the digits that do not fit. -/
theorem shiftToTargetExponent_binary64 (m : Nat) (e : Int) (accuracy : Accuracy) :
    ∃ (k : Nat) (em : ExtendedMantissa),
      shiftToTargetExponent .binary64 m e accuracy = (em, e + k) ∧ em.mantissa = m / 2 ^ k ∧
        e + k = max e (max (m.log2 + e - 52) (-1074)) := by
  refine ⟨(max (totalExponent m e - 53) (-1074) - e).toNat, _, rfl, ?_, ?_⟩
  · refine (shiftRight_mantissa _ _).trans ?_
    rw [ofMantissaAndAccuracy_mantissa]
    rfl
  · simp only [totalExponent]
    omega

/-- **Rounding** drops `k` binary digits. It may carry into one more digit, so that `l` further
digits are dropped. -/
theorem roundWithAccuracy_binary64 (s : Sign) (m : Nat) (e : Int) (accuracy : Accuracy) :
    ∃ k r l : Nat, m / 2 ^ k ≤ r ∧ r ≤ m / 2 ^ k + 1 ∧
      e + k = max e (max (m.log2 + e - 52) (-1074)) ∧
      e + k + l = max (e + k) (max (r.log2 + (e + k) - 52) (-1074)) ∧
      roundWithAccuracy .binary64 s m e accuracy =
        if h : r / 2 ^ l = 0 then .zero s
        else .finite s (r / 2 ^ l) (e + k + l) (Nat.pos_of_ne_zero h) := by
  obtain ⟨k, em, hshift, hmantissa, hk⟩ := shiftToTargetExponent_binary64 m e accuracy
  obtain ⟨l, em', hshift', hmantissa', hl⟩ :=
    shiftToTargetExponent_binary64 em.roundedMantissa (e + k) .exact
  obtain ⟨hle, hge⟩ := roundedMantissa_bounds em
  rw [hmantissa] at hle hge
  refine ⟨k, em.roundedMantissa, l, hle, hge, hk, hl, ?_⟩
  unfold roundWithAccuracy
  simp only [hshift, hshift', hmantissa']

/-- Dropping `k` binary digits and rounding leaves as many digits as were there, or one more. -/
theorem log2_le_of_rounded {m a k r : Nat} (hm : m < 2 ^ a) (hr : r ≤ m / 2 ^ k + 1) :
    r.log2 ≤ a - k := by
  refine log2_le_of_lt (Nat.lt_of_le_of_lt hr ?_)
  have hquotient : m / 2 ^ k < 2 ^ (a - k) := by
    refine Nat.div_lt_of_lt_mul (Nat.lt_of_lt_of_le hm ?_)
    rw [← Nat.pow_add]
    exact Nat.pow_le_pow_right (by decide) (by omega)
  have hpos : 0 < 2 ^ (a - k) := Nat.two_pow_pos _
  rw [Nat.pow_succ]
  omega

/-- A rounded number is not much greater. -/
theorem below_roundWithAccuracy (s : Sign) {m a : Nat} (hm : m < 2 ^ a) (e : Int)
    (accuracy : Accuracy) :
    Below (max e (max (a + e - 52) (-1074))) (roundWithAccuracy .binary64 s m e accuracy) := by
  obtain ⟨k, r, l, -, hr, hk, hl, heq⟩ := roundWithAccuracy_binary64 s m e accuracy
  have hlog : m.log2 ≤ a - 0 := log2_le_of_rounded (k := 0) hm (by simp)
  have hcarry := log2_le_of_rounded hm hr
  rw [heq]
  split
  · trivial
  · have hshift : e + k ≤ max e (max (a + e - 52) (-1074)) := by
      clear hcarry hl
      omega
    have hdigits : r.log2 + k ≤ a ∨ r.log2 = 0 := by
      clear hk hl hshift
      omega
    have hrounded : r.log2 + (e + k) - 52 ≤ max e (max (a + e - 52) (-1074)) := by
      rcases hdigits with hdigits | hdigits
      · have hle : r.log2 + (e + k) - 52 ≤ a + e - 52 := by omega
        exact Int.le_trans hle (Int.le_trans (Int.le_max_left _ _) (Int.le_max_right _ _))
      · exact Int.le_trans (by omega) hshift
    have hleast : -1074 ≤ max e (max (a + e - 52) (-1074)) :=
      Int.le_trans (Int.le_max_right _ _) (Int.le_max_right _ _)
    show e + k + l ≤ _
    rw [hl]
    exact Int.max_le.mpr ⟨hshift, Int.max_le.mpr ⟨hrounded, hleast⟩⟩

/-- A number with at least 53 binary digits keeps 53 of them. -/
theorem roundWithAccuracy_of_long (s : Sign) {m : Nat} {e : Int} (accuracy : Accuracy)
    (hm : 52 ≤ m.log2) (he : -1022 ≤ m.log2 + e) :
    ∃ n f hn, roundWithAccuracy .binary64 s m e accuracy = .finite s n f hn ∧ n.log2 = 52 ∧
      m.log2 + e - 52 ≤ f ∧ f ≤ m.log2 + e - 51 := by
  obtain ⟨k, r, l, hle, hge, hk, hl, heq⟩ := roundWithAccuracy_binary64 s m e accuracy
  have hlog : m.log2 = 52 + k := by omega
  have hne : m ≠ 0 := by
    rintro rfl
    rw [Nat.log2_zero] at hm
    omega
  have hlow : 2 ^ 52 ≤ m / 2 ^ k := by
    rw [Nat.le_div_iff_mul_le (Nat.two_pow_pos k), ← Nat.pow_add, ← hlog]
    exact Nat.log2_self_le hne
  have hhigh : m / 2 ^ k < 2 ^ 53 := by
    rw [Nat.div_lt_iff_lt_mul (Nat.two_pow_pos k), ← Nat.pow_add]
    exact Nat.lt_of_lt_of_le Nat.lt_log2_self (Nat.pow_le_pow_right (by decide) (by omega))
  have hdigits : (r / 2 ^ l).log2 = 52 ∧ l ≤ 1 := by
    have hcarry : r < 2 ^ 53 ∨ r = 2 ^ 53 := by omega
    rcases hcarry with hr | rfl
    · have hlogr : r.log2 = 52 := (Nat.log2_eq_iff (by omega)).mpr ⟨by omega, hr⟩
      obtain rfl : l = 0 := by omega
      rw [Nat.pow_zero, Nat.div_one]
      exact ⟨hlogr, by decide⟩
    · rw [Nat.log2_two_pow] at hl
      obtain rfl : l = 1 := by omega
      exact ⟨by decide, by decide⟩
  have hpos : r / 2 ^ l ≠ 0 := by
    intro hzero
    rw [hzero, Nat.log2_zero] at hdigits
    omega
  rw [heq, dif_neg hpos]
  exact ⟨_, _, _, rfl, hdigits.1, by omega, by omega⟩

/-! ## Arithmetic -/

/-- A number of 64 bits has the exponent 12 as a bound when it is rounded. -/
theorem below_round (s : Sign) {m : Nat} (hm : m < 2 ^ 64) :
    Below 12 (UnpackedFloat.round .binary64 s m 0) := by
  have hlog : m.log2 ≤ 63 := log2_le_of_lt hm
  unfold UnpackedFloat.round decreaseExponent
  dsimp only
  obtain ⟨k, hk⟩ : ∃ k : Nat,
      (0 - Format.targetExponent .binary64 (totalExponent m 0)).toNat = k := ⟨_, rfl⟩
  have htarget : (0 - max (((m.log2 : Int) + 1 + 0) - 53) (-1074)).toNat = k := hk
  have hshift : m <<< k < 2 ^ (m.log2 + 1 + k) := by
    rw [Nat.shiftLeft_eq, Nat.pow_add]
    exact Nat.mul_lt_mul_of_pos_right Nat.lt_log2_self (Nat.two_pow_pos k)
  rw [hk]
  exact (below_roundWithAccuracy s hshift (0 - k) .exact).mono (by omega)

/-- An integer of 64 bits, with or without a sign, is rounded to a finite number. -/
theorem below_ofInt {n : Int} (hlow : -18446744073709551616 < n)
    (hhigh : n < 18446744073709551616) :
    Below 12 (UnpackedFloat.ofInt .binary64 n) := by
  unfold UnpackedFloat.ofInt UnpackedFloat.normalize
  split
  · exact below_round _ (by omega)
  · trivial
  · exact below_round _ (by omega)

/-- A number of 53 binary digits over one whose last digit is worth at least `2 ^ (-52)`. -/
theorem below_div {E : Int} {u v : UnpackedFloat} (hu : Below E u) (hE : -1074 ≤ E)
    (hmantissa : ∀ s m e hm, u = .finite s m e hm → m < 2 ^ 53) (hv : Above (-52) v) :
    Below (E + 53) (UnpackedFloat.div .binary64 u v) := by
  cases v with
  | zero t => exact hv.elim
  | infinity t => exact hv.elim
  | notANumber => exact hv.elim
  | finite s m e hm =>
    have he : -52 ≤ e := hv
    cases u with
    | zero t => trivial
    | infinity t => exact hu.elim
    | notANumber => exact hu.elim
    | finite t n f hn =>
      have hf : f ≤ E := hu
      have hn53 : n < 2 ^ 53 := hmantissa t n f hn rfl
      unfold UnpackedFloat.div divCore
      dsimp only
      obtain ⟨g, hg⟩ : ∃ g, min (f - e)
        (Format.targetExponent .binary64 (totalExponent n f - totalExponent m e)) = g := ⟨_, rfl⟩
      obtain ⟨k, hk⟩ : ∃ k, (f - e - g).toNat = k := ⟨_, rfl⟩
      have hquotient : n <<< k / m < 2 ^ (53 + k) := by
        refine Nat.lt_of_le_of_lt (Nat.div_le_self _ _) ?_
        rw [Nat.shiftLeft_eq, Nat.pow_add]
        exact Nat.mul_lt_mul_of_pos_right hn53 (Nat.two_pow_pos k)
      rw [hg, hk]
      exact (below_roundWithAccuracy _ hquotient g _).mono (by omega)

/-- The product of two numbers with bounds on their exponents is rounded within some bound. -/
theorem exists_below_mul {E F : Int} {u v : UnpackedFloat} (hu : Below E u) (hv : Below F v) :
    ∃ G, Below G (UnpackedFloat.mul .binary64 u v) := by
  cases u with
  | infinity s => exact hu.elim
  | notANumber => exact hu.elim
  | zero s =>
    cases v with
    | infinity t => exact hv.elim
    | notANumber => exact hv.elim
    | zero t => exact ⟨0, trivial⟩
    | finite t n f hn => exact ⟨0, trivial⟩
  | finite s m e hm =>
    cases v with
    | infinity t => exact hv.elim
    | notANumber => exact hv.elim
    | zero t => exact ⟨0, trivial⟩
    | finite t n f hn => exact ⟨_, below_roundWithAccuracy _ Nat.lt_log2_self _ _⟩

/-- A number whose exponent does not fit becomes infinite. -/
theorem isFinite_pack {E : Int} {u : UnpackedFloat} (h : Below E u)
    (hinf : (UnpackedFloat.unpack .binary64 (UnpackedFloat.pack .binary64 u)).isInf = false) :
    (UnpackedFloat.unpack .binary64 (UnpackedFloat.pack .binary64 u)).isFinite = true := by
  by_cases hfits : Below 971 u
  · exact (below_pack hfits (by decide) (by decide)).isFinite
  · cases u with
    | zero s => exact absurd trivial hfits
    | infinity s => exact h.elim
    | notANumber => exact h.elim
    | finite s m e hm =>
      have he : ¬ e ≤ 971 := hfits
      have hgreat : 2 ^ 11 ≤ (e + Format.exponentBias .binary64 + (52 : Nat)).toNat + 1 := by
        rw [exponentBias_binary64]
        omega
      have hpacked : UnpackedFloat.pack .binary64 (.finite s m e hm) = packedInfinity .binary64 s :=
        if_pos hgreat
      rw [hpacked] at hinf
      cases s
      all_goals exact absurd hinf (by decide)

end BuildMetrics.Json
