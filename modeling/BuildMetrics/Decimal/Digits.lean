/-!
# Decimal digits of a natural number

Writing a natural number in decimal digits and reading it back. Main statement: the digits
of a number read back as that number (`ofDigits_digits`).
-/

namespace BuildMetrics.Decimal

/-- The digit of a number below ten. -/
def digitChar (n : Nat) : Char := Char.ofNat ('0'.toNat + n)

/-- The value of a digit. -/
def digitValue (c : Char) : Nat := c.toNat - '0'.toNat

/-- The decimal digits of a number, without leading zeros. -/
def digits (n : Nat) : List Char :=
  if n < 10 then [digitChar n] else digits (n / 10) ++ [digitChar (n % 10)]
termination_by n

/-- The number that the digits stand for when they follow the digits of `n`. -/
def ofDigitsFrom (n : Nat) (cs : List Char) : Nat :=
  cs.foldl (fun acc c => 10 * acc + digitValue c) n

/-- The number that the digits stand for. -/
def ofDigits (cs : List Char) : Nat := ofDigitsFrom 0 cs

/-- The decimal form of an integer, with a minus sign in front of a negative one. -/
def intChars (n : Int) : List Char :=
  match n with
  | .ofNat m => digits m
  | .negSucc m => '-' :: digits (m + 1)

/-! ## Reading what was written -/

theorem digitValue_digitChar {n : Nat} (h : n < 10) : digitValue (digitChar n) = n := by
  have : n = 0 ∨ n = 1 ∨ n = 2 ∨ n = 3 ∨ n = 4 ∨ n = 5 ∨ n = 6 ∨ n = 7 ∨ n = 8 ∨ n = 9 := by
    omega
  rcases this with rfl | rfl | rfl | rfl | rfl | rfl | rfl | rfl | rfl | rfl <;> decide

theorem isDigit_digitChar {n : Nat} (h : n < 10) : (digitChar n).isDigit = true := by
  have : n = 0 ∨ n = 1 ∨ n = 2 ∨ n = 3 ∨ n = 4 ∨ n = 5 ∨ n = 6 ∨ n = 7 ∨ n = 8 ∨ n = 9 := by
    omega
  rcases this with rfl | rfl | rfl | rfl | rfl | rfl | rfl | rfl | rfl | rfl <;> decide

/-- Digits can be read in two parts. -/
theorem ofDigitsFrom_append (n : Nat) (cs ds : List Char) :
    ofDigitsFrom n (cs ++ ds) = ofDigitsFrom (ofDigitsFrom n cs) ds := by
  simp only [ofDigitsFrom, List.foldl_append]

/-- The digits of a number give the number. -/
theorem ofDigits_digits (n : Nat) : ofDigits (digits n) = n := by
  induction n using digits.induct with
  | case1 n h =>
    rw [digits, if_pos h]
    simp only [ofDigits, ofDigitsFrom, List.foldl_cons, List.foldl_nil, digitValue_digitChar h]
    omega
  | case2 n h ih =>
    rw [digits, if_neg h, ofDigits, ofDigitsFrom_append]
    rw [ofDigits] at ih
    rw [ih]
    simp only [ofDigitsFrom, List.foldl_cons, List.foldl_nil,
      digitValue_digitChar (Nat.mod_lt n (by decide))]
    omega

/-- A number is written with digits and nothing else. -/
theorem isDigit_of_mem_digits {n : Nat} {c : Char} (h : c ∈ digits n) : c.isDigit = true := by
  induction n using digits.induct with
  | case1 n hn =>
    rw [digits, if_pos hn] at h
    obtain rfl := List.mem_singleton.mp h
    exact isDigit_digitChar hn
  | case2 n hn ih =>
    rw [digits, if_neg hn] at h
    rcases List.mem_append.mp h with h | h
    · exact ih h
    · obtain rfl := List.mem_singleton.mp h
      exact isDigit_digitChar (Nat.mod_lt n (by decide))

/-- Every number has a digit, zero too. -/
theorem digits_ne_nil (n : Nat) : digits n ≠ [] := by
  rw [digits]
  split
  · exact List.cons_ne_nil _ _
  · exact List.append_ne_nil_of_right_ne_nil _ (List.cons_ne_nil _ _)

end BuildMetrics.Decimal
