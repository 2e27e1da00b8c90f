import BuildMetrics.Json.Printer
import BuildMetrics.Json.Reader
import Mathlib.Tactic.SplitIfs

/-!
# Texts in a text

A text that was written between quotes is read back, whatever characters it has and whatever
follows its closing quote.

* `text?_escapeChar`: one character is read back, in whichever of the three ways it was written;
* `text?_chars`: so are all characters of a text.
-/

namespace BuildMetrics.Json

variable {cs tail rest : List Char}

/-- A letter behind a backslash. -/
theorem text?_short {e x : Char} (he : shortEscape? e = some x)
    (h : text? tail = some (some cs, rest)) :
    text? ('\\' :: e :: tail) = some (some (x :: cs), rest) := by
  have hu : e ≠ 'u' := by
    rintro rfl
    have hnone : shortEscape? 'u' = none := by decide
    rw [hnone] at he
    cases he
  unfold text?
  split
  · next heq => cases heq
  · next heq => cases heq
  · next heq => exact absurd (List.cons.inj (List.cons.inj heq).2).1 hu
  · next heq => exact absurd (List.cons.inj (List.cons.inj heq).2).1 hu
  · next heq =>
    cases heq
    simp only [he, h, Option.bind_eq_bind, Option.bind_some, Option.map_some, Option.pure_def]
  · next hnot heq =>
    cases heq
    exact (hnot _ _ rfl rfl).elim

/-- A number behind a backslash. Another one may follow, but they are no pair of surrogates. -/
theorem text?_quad {a b c d : Char} {n : Nat} (hquad : hexQuad? a b c d = some n)
    (hn : n < 0xd800) (h : text? tail = some (some cs, rest)) :
    text? ('\\' :: 'u' :: a :: b :: c :: d :: tail) =
      some (some (Char.ofNat n :: cs), rest) := by
  have hhigh : isHighSurrogate n = false := by
    simp only [isHighSurrogate, Bool.and_eq_false_imp, decide_eq_true_eq]
    omega
  have hlow : isLowSurrogate n = false := by
    simp only [isLowSurrogate, Bool.and_eq_false_imp, decide_eq_true_eq]
    omega
  unfold text?
  split
  · next heq => cases heq
  · next heq => cases heq
  · next heq =>
    cases heq
    simp only [hquad, hhigh, hlow, h, Option.bind_eq_bind, Option.bind_some, Option.map_some,
      Option.pure_def, Bool.false_eq_true, if_false]
  · next heq =>
    cases heq
    simp only [hquad, hhigh, hlow, h, Option.bind_eq_bind, Option.bind_some, Option.map_some,
      Option.pure_def, Bool.or_self, Bool.false_eq_true, if_false]
  · next hnot heq =>
    cases heq
    exact (hnot _ _ _ _ _ rfl rfl).elim
  · next hnot heq =>
    cases heq
    exact (hnot _ _ rfl rfl).elim

/-- A character that stands for itself. -/
theorem text?_self {c : Char} (hquote : c ≠ '"') (hslash : c ≠ '\\') (hspace : ¬ c < ' ')
    (h : text? tail = some (some cs, rest)) :
    text? (c :: tail) = some (some (c :: cs), rest) := by
  unfold text?
  split
  · next heq => cases heq
  · next heq => exact absurd (List.cons.inj heq).1 hquote
  · next heq => exact absurd (List.cons.inj heq).1 hslash
  · next heq => exact absurd (List.cons.inj heq).1 hslash
  · next heq => exact absurd (List.cons.inj heq).1 hslash
  · next heq =>
    cases heq
    simp only [hspace, hslash, or_self, h, Option.bind_eq_bind, Option.bind_some, Option.map_some,
      Option.pure_def, if_false]

/-- A control character is read back from its two hexadecimal digits. -/
theorem hexQuad?_hexDigit {n : Nat} (h : n < 32) :
    hexQuad? '0' '0' (Text.hexDigit (n / 16)) (Text.hexDigit (n % 16)) = some n := by
  have hall : ∀ n < 32,
      hexQuad? '0' '0' (Text.hexDigit (n / 16)) (Text.hexDigit (n % 16)) = some n := by
    decide
  exact hall n h

/-- One written character is read back. -/
theorem text?_escapeChar (c : Char) (h : text? tail = some (some cs, rest)) :
    text? (escapeChar c ++ tail) = some (some (c :: cs), rest) := by
  unfold escapeChar
  split_ifs with hquote hslash hback htab hline hform hreturn hspace
  · subst hquote
    exact text?_short (by decide) h
  · subst hslash
    exact text?_short (by decide) h
  · subst hback
    exact text?_short (by decide) h
  · subst htab
    exact text?_short (by decide) h
  · subst hline
    exact text?_short (by decide) h
  · subst hform
    exact text?_short (by decide) h
  · subst hreturn
    exact text?_short (by decide) h
  · have hc : c.toNat < 32 := hspace
    have hquad := text?_quad (hexQuad?_hexDigit hc) (by omega) h
    rwa [Char.ofNat_toNat] at hquad
  · exact text?_self hquote hslash hspace h

/-- **A written text is read back.** -/
theorem text?_chars (cs rest : List Char) :
    text? (cs.flatMap escapeChar ++ '"' :: rest) = some (some cs, rest) := by
  induction cs with
  | nil => rw [List.flatMap_nil, List.nil_append, text?]
  | cons c cs ih =>
    rw [List.flatMap_cons, List.append_assoc]
    exact text?_escapeChar c ih

end BuildMetrics.Json
