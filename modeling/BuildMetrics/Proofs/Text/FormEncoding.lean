import BuildMetrics.Name

/-!
# Names in form encoding

In form encoding a character stands for itself, a plus sign stands for a blank, and any character
may be written as the escapes of its UTF-8 bytes. A name that is the form of a text and has an
escape is decoded to that text. Every other name is left as it is, and there are three kinds of
them: those without a percent sign, those with a percent sign that starts no escape, and those with
bytes that are no text.

* `IsForm.bytes_eq`: the bytes of a form are those of the text;
* `isForm_of_bytes_eq`: a name with the bytes of a text is a form of it. An escape never ends in the
  middle of a character that is written plainly, since no character starts with a later byte of
  another;
* `decodeForm_exact`: what decoding does with every name.
-/

namespace BuildMetrics.Text

/-! ## Bytes of a text -/

/-- Bytes are the text whose UTF-8 form they are. -/
theorem decodeUtf8?_eq_some_iff {bytes : List UInt8} {s : String} :
    decodeUtf8? bytes = some s ↔ bytes = utf8Bytes s := by
  have hbytes : s.toByteArray = (utf8Bytes s).toByteArray := String.utf8Encode_toList.symm
  rw [decodeUtf8?, String.fromUTF8?]
  constructor
  · intro h
    split at h
    · obtain rfl := Option.some.inj h
      exact List.toByteArray_inj.mp hbytes
    · cases h
  · rintro rfl
    have hvalid : (utf8Bytes s).toByteArray.IsValidUTF8 := hbytes ▸ s.isValidUTF8
    rw [dif_pos hvalid]
    exact congrArg some (String.toByteArray_inj.mp hbytes.symm)

/-- Bytes are no text if no text has them as its UTF-8 form. -/
theorem decodeUtf8?_eq_none_iff {bytes : List UInt8} :
    decodeUtf8? bytes = none ↔ ¬ ∃ s, utf8Bytes s = bytes := by
  rw [Option.eq_none_iff_forall_not_mem, not_exists]
  refine forall_congr' fun s => not_congr ?_
  rw [Option.mem_def, decodeUtf8?_eq_some_iff, eq_comm]

/-- No character starts like another and goes on in a different way. -/
theorem utf8EncodeChar_append_inj {c d : Char} {bytes bytes' : List UInt8}
    (h : String.utf8EncodeChar c ++ bytes = String.utf8EncodeChar d ++ bytes') :
    c = d ∧ bytes = bytes' := by
  have hchar : some c = some d := by
    rw [← ByteArray.utf8DecodeChar?_utf8EncodeChar_append (b := bytes.toByteArray),
      ← ByteArray.utf8DecodeChar?_utf8EncodeChar_append (b := bytes'.toByteArray),
      ← List.toByteArray_append, ← List.toByteArray_append, h]
  obtain rfl := Option.some.inj hchar
  exact ⟨rfl, List.append_cancel_left h⟩

/-- Only the first byte of a character is one that a character can start with. -/
theorem exists_utf8EncodeChar_eq (c : Char) :
    ∃ first later, String.utf8EncodeChar c = first :: later ∧ first.IsUTF8FirstByte ∧
      ∀ byte ∈ later, ¬ byte.IsUTF8FirstByte := by
  cases hbytes : String.utf8EncodeChar c with
  | nil => exact absurd hbytes String.utf8EncodeChar_ne_nil
  | cons first later =>
    have hstart (i : Nat) (hi : i < (first :: later).length) :
        ((first :: later)[i]).IsUTF8FirstByte ↔ i = 0 := by
      have hi' : i < (String.utf8EncodeChar c).length := hbytes ▸ hi
      have hchar := @UInt8.isUTF8FirstByte_getElem_utf8EncodeChar c i hi'
      simpa only [hbytes] using hchar
    refine ⟨first, later, rfl, (hstart 0 (Nat.succ_pos _)).mpr rfl, ?_⟩
    intro byte hbyte
    obtain ⟨i, hi, rfl⟩ := List.getElem_of_mem hbyte
    have hlater := hstart (i + 1) (Nat.succ_lt_succ hi)
    exact fun h => Nat.succ_ne_zero i (hlater.mp h)

/-! ## Escapes -/

/-- The character is the hexadecimal digit of the number, in either case. -/
def IsDigitOf (c : Char) (n : Nat) : Prop := c = hexDigit n ∨ c = (hexDigit n).toUpper

instance (c : Char) (n : Nat) : Decidable (IsDigitOf c n) := inferInstanceAs (Decidable (_ ∨ _))

theorem bounds_of_hexValue? {c : Char} {n : Nat} (h : hexValue? c = some n) :
    c.toNat < 103 ∧ n < 16 := by
  simp only [hexValue?, Char.isDigit, Char.le_def, UInt32.le_iff_toNat_le] at h
  split at h
  · next hc =>
    simp at hc h
    omega
  · split at h
    · next hc =>
      simp at hc h
      omega
    · split at h
      · next hc =>
        simp at hc h
        omega
      · cases h

theorem hexValue?_eq_some_iff {c : Char} {n : Nat} :
    hexValue? c = some n ↔ n < 16 ∧ IsDigitOf c n := by
  have hdigits : ∀ n < 16, hexValue? (hexDigit n) = some n ∧
      hexValue? (hexDigit n).toUpper = some n := by
    decide
  have hvalues : ∀ k < 103, ∀ n < 16, hexValue? (Char.ofNat k) = some n →
      IsDigitOf (Char.ofNat k) n := by
    decide
  constructor
  · intro h
    obtain ⟨hc, hn⟩ := bounds_of_hexValue? h
    have hdigit := hvalues c.toNat hc n hn
    rw [Char.ofNat_toNat] at hdigit
    exact ⟨hn, hdigit h⟩
  · rintro ⟨hn, rfl | rfl⟩
    · exact (hdigits n hn).1
    · exact (hdigits n hn).2

theorem hexPair?_eq_some_iff {a b : Char} {cs : List Char} {byte : UInt8} :
    hexPair? (a :: b :: cs) = some byte ↔
      IsDigitOf a (byte.toNat / 16) ∧ IsDigitOf b (byte.toNat % 16) := by
  have hbyte : byte.toNat < 256 := byte.toNat_lt
  rw [hexPair?]
  constructor
  · intro h
    split at h
    · next m n hm hn =>
      obtain ⟨hm16, hm⟩ := hexValue?_eq_some_iff.mp hm
      obtain ⟨hn16, hn⟩ := hexValue?_eq_some_iff.mp hn
      have hsmall : 16 * m + n < 256 := by omega
      have hvalue : byte.toNat = 16 * m + n := by
        rw [← Option.some.inj h, UInt8.toNat_ofNat_of_lt' hsmall]
      have hdiv : byte.toNat / 16 = m := by omega
      have hmod : byte.toNat % 16 = n := by omega
      rw [hdiv, hmod]
      exact ⟨hm, hn⟩
    · cases h
  · rintro ⟨ha, hb⟩
    rw [hexValue?_eq_some_iff.mpr ⟨by omega, ha⟩, hexValue?_eq_some_iff.mpr ⟨by omega, hb⟩]
    have hvalue : 16 * (byte.toNat / 16) + byte.toNat % 16 = byte.toNat := by omega
    simp only [hvalue, UInt8.ofNat_toNat]

/-- The text starts with two hexadecimal digits. -/
def StartsWithDigits (cs : List Char) : Prop :=
  ∃ a b rest, cs = a :: b :: rest ∧ (∃ m < 16, IsDigitOf a m) ∧ ∃ n < 16, IsDigitOf b n

/-- A percent sign in the text is not followed by two hexadecimal digits. -/
def HasBareSign (cs : List Char) : Prop :=
  ∃ front rest, cs = front ++ '%' :: rest ∧ ¬ StartsWithDigits rest

theorem isSome_hexPair? {cs : List Char} : (hexPair? cs).isSome = true ↔ StartsWithDigits cs := by
  rw [Option.isSome_iff_exists]
  constructor
  · rintro ⟨byte, h⟩
    match cs, h with
    | a :: b :: rest, h =>
      have hbyte : byte.toNat < 256 := byte.toNat_lt
      obtain ⟨ha, hb⟩ := hexPair?_eq_some_iff.mp h
      exact ⟨a, b, rest, rfl, ⟨_, by omega, ha⟩, ⟨_, by omega, hb⟩⟩
  · rintro ⟨a, b, rest, rfl, ⟨m, hm, ha⟩, ⟨n, hn, hb⟩⟩
    rw [hexPair?, hexValue?_eq_some_iff.mpr ⟨hm, ha⟩, hexValue?_eq_some_iff.mpr ⟨hn, hb⟩]
    exact ⟨_, rfl⟩

theorem isEscaped_eq_false_iff {cs : List Char} : isEscaped cs = false ↔ HasBareSign cs := by
  induction cs with
  | nil => simp [isEscaped, HasBareSign]
  | cons c cs ih =>
    have hhead : (c != '%' || (hexPair? cs).isSome) = false ↔ c = '%' ∧ ¬ StartsWithDigits cs := by
      rw [Bool.or_eq_false_iff, bne_eq_false_iff_eq, ← isSome_hexPair?, Bool.not_eq_true]
    rw [isEscaped, Bool.and_eq_false_iff, hhead, ih]
    constructor
    · rintro (⟨rfl, hrest⟩ | ⟨front, rest, rfl, hrest⟩)
      · exact ⟨[], cs, rfl, hrest⟩
      · exact ⟨c :: front, rest, rfl, hrest⟩
    · rintro ⟨front, rest, heq, hrest⟩
      cases front with
      | nil =>
        obtain ⟨rfl, rfl⟩ := List.cons.inj heq
        exact .inl ⟨rfl, hrest⟩
      | cons d front =>
        obtain ⟨-, rfl⟩ := List.cons.inj heq
        exact .inr ⟨front, rest, rfl, hrest⟩

/-! ## Forms -/

/-- The characters are the escapes of the bytes. -/
inductive Escapes : List Char → List UInt8 → Prop
  /-- no bytes -/
  | nil : Escapes [] []
  /-- the escape of one byte in front -/
  | cons {a b : Char} {cs : List Char} {byte : UInt8} {bytes : List UInt8}
      (high : IsDigitOf a (byte.toNat / 16)) (low : IsDigitOf b (byte.toNat % 16))
      (rest : Escapes cs bytes) : Escapes ('%' :: a :: b :: cs) (byte :: bytes)

/-- A character may be written as another without an escape: a blank as a plus sign, and any
character but the plus sign and the percent sign as itself. -/
def IsPlain (c d : Char) : Prop := (c = '+' ∧ d = ' ') ∨ (c ≠ '+' ∧ c ≠ '%' ∧ c = d)

/-- The first text is the second in form encoding: each character is written plainly, or as the
escapes of its UTF-8 bytes. -/
inductive IsForm : List Char → List Char → Prop
  /-- no characters -/
  | nil : IsForm [] []
  /-- a character that is written plainly in front -/
  | plain {c d : Char} {es cs : List Char} (head : IsPlain c d) (rest : IsForm es cs) :
      IsForm (c :: es) (d :: cs)
  /-- a character that is escaped in front -/
  | escaped {d : Char} {escape es cs : List Char}
      (head : Escapes escape (String.utf8EncodeChar d)) (rest : IsForm es cs) :
      IsForm (escape ++ es) (d :: cs)

/-- The bytes of a text in form encoding. -/
def formBytes (cs : List Char) : List UInt8 := unescape (cs.map fun c => if c = '+' then ' ' else c)

theorem decodeForm_eq (name : String) :
    decodeForm name = if '%' ∈ name.toList ∧ isEscaped name.toList = true then
      (decodeUtf8? (formBytes name.toList)).getD name else name := by
  simp only [decodeForm, formBytes, Bool.and_eq_true, List.contains_iff_mem]

/-- A character other than a percent sign stands for its own bytes. -/
theorem unescape_of_ne {c : Char} (h : c ≠ '%') (cs : List Char) :
    unescape (c :: cs) = String.utf8EncodeChar c ++ unescape cs := by
  rw [unescape.eq_def]
  split
  · rename_i heq
    cases heq
  · rename_i heq
    exact absurd (List.cons.inj heq).1 h
  · rename_i heq
    obtain ⟨rfl, rfl⟩ := List.cons.inj heq
    rfl

theorem IsPlain.formBytes_cons {c d : Char} (h : IsPlain c d) (es : List Char) :
    formBytes (c :: es) = String.utf8EncodeChar d ++ formBytes es := by
  rw [formBytes, List.map_cons]
  rcases h with ⟨rfl, rfl⟩ | ⟨hplus, hpercent, rfl⟩
  · exact unescape_of_ne (by decide) _
  · rw [if_neg hplus]
    exact unescape_of_ne hpercent _

theorem IsDigitOf.ne {c : Char} {n : Nat} (h : IsDigitOf c n) (hn : n < 16) :
    c ≠ '%' ∧ c ≠ '+' := by
  have hvalue : hexValue? c = some n := hexValue?_eq_some_iff.mpr ⟨hn, h⟩
  constructor
  · rintro rfl
    cases hvalue
  · rintro rfl
    cases hvalue

/-- Whether every percent sign starts an escape does not depend on other characters. -/
theorem isEscaped_of_ne {c : Char} (h : c ≠ '%') (cs : List Char) :
    isEscaped (c :: cs) = isEscaped cs := by
  rw [isEscaped, bne_iff_ne.mpr h, Bool.true_or, Bool.true_and]

section Digits

variable {a b : Char} {byte : UInt8} (high : IsDigitOf a (byte.toNat / 16))
  (low : IsDigitOf b (byte.toNat % 16)) (es : List Char)

include high low

theorem isEscaped_escape : isEscaped ('%' :: a :: b :: es) = isEscaped es := by
  have hbyte : byte.toNat < 256 := byte.toNat_lt
  rw [isEscaped, hexPair?_eq_some_iff.mpr ⟨high, low⟩, Option.isSome_some, Bool.or_true,
    Bool.true_and, isEscaped_of_ne (high.ne (by omega)).1, isEscaped_of_ne (low.ne (by omega)).1]

theorem formBytes_escape : formBytes ('%' :: a :: b :: es) = byte :: formBytes es := by
  have hbyte : byte.toNat < 256 := byte.toNat_lt
  rw [formBytes, List.map_cons, List.map_cons, List.map_cons, if_neg (by decide),
    if_neg (high.ne (by omega)).2, if_neg (low.ne (by omega)).2, unescape,
    hexPair?_eq_some_iff.mpr ⟨high, low⟩]
  rfl

end Digits

/-- The bytes of a text whose percent signs all start escapes, piece by piece. -/
inductive Decodes : List Char → List UInt8 → Prop
  /-- no characters -/
  | nil : Decodes [] []
  /-- a character that is written plainly in front -/
  | plain {c d : Char} {es : List Char} {bytes : List UInt8} (head : IsPlain c d)
      (rest : Decodes es bytes) : Decodes (c :: es) (String.utf8EncodeChar d ++ bytes)
  /-- an escape in front -/
  | escape {a b : Char} {es : List Char} {byte : UInt8} {bytes : List UInt8}
      (high : IsDigitOf a (byte.toNat / 16)) (low : IsDigitOf b (byte.toNat % 16))
      (rest : Decodes es bytes) : Decodes ('%' :: a :: b :: es) (byte :: bytes)

theorem exists_isPlain {c : Char} (h : c ≠ '%') : ∃ d, IsPlain c d := by
  by_cases hplus : c = '+'
  · exact ⟨' ', .inl ⟨hplus, rfl⟩⟩
  · exact ⟨c, .inr ⟨hplus, h, rfl⟩⟩

theorem IsPlain.ne_percent {c d : Char} (h : IsPlain c d) : c ≠ '%' := by
  rcases h with ⟨rfl, -⟩ | ⟨-, hpercent, -⟩
  · decide
  · exact hpercent

/-- What bytes a form has is told by decoding it. -/
theorem Decodes.eq {es : List Char} {bytes : List UInt8} (h : Decodes es bytes) :
    isEscaped es = true ∧ formBytes es = bytes := by
  induction h with
  | nil => exact ⟨rfl, rfl⟩
  | plain head rest ih =>
    rw [isEscaped_of_ne head.ne_percent, head.formBytes_cons, ih.2]
    exact ⟨ih.1, rfl⟩
  | escape high low rest ih =>
    rw [isEscaped_escape high low, formBytes_escape high low, ih.2]
    exact ⟨ih.1, rfl⟩

/-- A name in which every percent sign starts an escape is decoded to its bytes. -/
theorem decodes_formBytes (es : List Char) (h : isEscaped es = true) :
    Decodes es (formBytes es) := by
  match es, h with
  | [], _ => exact .nil
  | c :: es, h =>
    by_cases hc : c = '%'
    · subst hc
      have hdigits : (hexPair? es).isSome = true := by
        rw [isEscaped, Bool.and_eq_true] at h
        exact h.1
      obtain ⟨byte, hbyte⟩ := Option.isSome_iff_exists.mp hdigits
      obtain ⟨a, b, rest, hes, -, -⟩ := isSome_hexPair?.mp hdigits
      rw [hes] at h hbyte ⊢
      obtain ⟨high, low⟩ := hexPair?_eq_some_iff.mp hbyte
      rw [isEscaped_escape high low] at h
      rw [formBytes_escape high low]
      have hshorter : rest.length < es.length := by
        rw [hes]
        exact Nat.lt_succ_of_lt (Nat.lt_succ_self _)
      exact .escape high low (decodes_formBytes rest h)
    · obtain ⟨d, hplain⟩ := exists_isPlain hc
      rw [isEscaped_of_ne hc] at h
      rw [hplain.formBytes_cons]
      exact .plain hplain (decodes_formBytes es h)
termination_by es.length

/-- The escapes of some bytes are decoded to them, whatever follows. -/
theorem Escapes.decodes_append {escape es : List Char} {bytes rest : List UInt8}
    (h : Escapes escape bytes) (hrest : Decodes es rest) :
    Decodes (escape ++ es) (bytes ++ rest) := by
  induction h with
  | nil => exact hrest
  | cons high low _ ih => exact .escape high low ih

/-- The bytes of a form are those of the text. -/
theorem IsForm.decodes {es cs : List Char} (h : IsForm es cs) :
    Decodes es (cs.flatMap String.utf8EncodeChar) := by
  induction h with
  | nil => exact .nil
  | plain head _ ih =>
    rw [List.flatMap_cons]
    exact .plain head ih
  | escaped head _ ih =>
    rw [List.flatMap_cons]
    exact head.decodes_append ih

/-- What starts with bytes that no character starts with, starts with the escapes of these. -/
theorem Decodes.exists_escapes {es : List Char} {later rest : List UInt8}
    (h : Decodes es (later ++ rest)) (hlater : ∀ byte ∈ later, ¬ byte.IsUTF8FirstByte) :
    ∃ escape es', es = escape ++ es' ∧ Escapes escape later ∧ Decodes es' rest := by
  induction later generalizing es with
  | nil => exact ⟨[], es, rfl, .nil, h⟩
  | cons byte later ih =>
    rw [List.cons_append] at h
    generalize hbytes : byte :: (later ++ rest) = bytes at h
    cases h with
    | nil => cases hbytes
    | plain head tail =>
      rename_i d _ _
      obtain ⟨first, later', hchar, hfirst, -⟩ := exists_utf8EncodeChar_eq d
      rw [hchar] at hbytes
      obtain ⟨rfl, -⟩ := List.cons.inj hbytes
      exact absurd hfirst (hlater _ List.mem_cons_self)
    | escape high low tail =>
      obtain ⟨rfl, rfl⟩ := List.cons.inj hbytes
      obtain ⟨escape, es', rfl, hescape, hrest⟩ :=
        ih tail fun byte hbyte => hlater byte (List.mem_cons_of_mem _ hbyte)
      exact ⟨_, es', rfl, .cons high low hescape, hrest⟩

/-- A name with the bytes of a text is a form of it. -/
theorem Decodes.isForm {es cs : List Char} (h : Decodes es (cs.flatMap String.utf8EncodeChar)) :
    IsForm es cs := by
  induction cs generalizing es with
  | nil =>
    generalize hbytes : [].flatMap String.utf8EncodeChar = bytes at h
    cases h with
    | nil => exact .nil
    | plain head _ =>
      exact absurd (List.append_eq_nil_iff.mp hbytes.symm).1 String.utf8EncodeChar_ne_nil
    | escape => cases hbytes
  | cons c cs ih =>
    rw [List.flatMap_cons] at h
    obtain ⟨first, later, hchar, hfirst, hlater⟩ := exists_utf8EncodeChar_eq c
    generalize hbytes : String.utf8EncodeChar c ++ cs.flatMap String.utf8EncodeChar = bytes at h
    cases h with
    | nil =>
      rw [hchar] at hbytes
      cases hbytes
    | plain head rest =>
      obtain ⟨rfl, rfl⟩ := utf8EncodeChar_append_inj hbytes
      exact .plain head (ih rest)
    | escape high low rest =>
      rw [hchar] at hbytes
      obtain ⟨rfl, rfl⟩ := List.cons.inj hbytes
      obtain ⟨escape, es', rfl, hescape, hrest⟩ := rest.exists_escapes hlater
      refine (IsForm.escaped ?_ (ih hrest) : IsForm (('%' :: _ :: _ :: escape) ++ es') (c :: cs))
      rw [hchar]
      exact .cons high low hescape

/-! ## Decoding -/

/-- A name is a form of a text if every percent sign starts an escape and the bytes are those of the
text. -/
theorem isForm_iff {es cs : List Char} :
    IsForm es cs ↔ isEscaped es = true ∧ formBytes es = cs.flatMap String.utf8EncodeChar := by
  constructor
  · exact fun h => h.decodes.eq
  · rintro ⟨hescaped, hbytes⟩
    have hdecodes := decodes_formBytes es hescaped
    rw [hbytes] at hdecodes
    exact hdecodes.isForm

/-- A name is a form of some text unless a percent sign starts no escape or the bytes are no text.
-/
theorem exists_isForm_iff {es : List Char} :
    (∃ s : String, IsForm es s.toList) ↔
      ¬ HasBareSign es ∧ ∃ s : String, utf8Bytes s = formBytes es := by
  simp only [isForm_iff, exists_and_left, ← isEscaped_eq_false_iff, Bool.not_eq_false]
  refine and_congr_right fun _ => exists_congr fun s => ?_
  rw [eq_comm, utf8Bytes]

variable {name : String}

/-- A name without a percent sign is its own name. -/
theorem decodeForm_of_not_mem (h : '%' ∉ name.toList) : decodeForm name = name := by
  rw [decodeForm_eq, if_neg fun hboth => h hboth.1]

/-- A name with an escape that is a form of a text is decoded to that text. -/
theorem decodeForm_of_isForm {s : String} (hpercent : '%' ∈ name.toList)
    (h : IsForm name.toList s.toList) : decodeForm name = s := by
  obtain ⟨hescaped, hbytes⟩ := isForm_iff.mp h
  rw [decodeForm_eq, if_pos ⟨hpercent, hescaped⟩, decodeUtf8?_eq_some_iff.mpr hbytes,
    Option.getD_some]

/-- A name that is a form of no text is left as it is. -/
theorem decodeForm_of_not_isForm (h : ¬ ∃ s : String, IsForm name.toList s.toList) :
    decodeForm name = name := by
  rw [decodeForm_eq]
  split
  · next hboth =>
    have hnone : decodeUtf8? (formBytes name.toList) = none := by
      refine decodeUtf8?_eq_none_iff.mpr fun htext => h (exists_isForm_iff.mpr ⟨?_, htext⟩)
      rw [← isEscaped_eq_false_iff, hboth.2]
      decide
    rw [hnone, Option.getD_none]
  · rfl

/-- **Decoding is exact or leaves the name alone.** A name with a percent sign that is the form of a
text is decoded to that text, and its segment is that of the text. Every other name is its own name.
These are the names without a percent sign, those with one that starts no escape, and those with
bytes that are no text. -/
theorem decodeForm_exact (name : String) :
    (∀ s : String, '%' ∈ name.toList → IsForm name.toList s.toList →
      decodeForm name = s ∧ Name.job name = Name.category s) ∧
    ((¬ ∃ s : String, '%' ∈ name.toList ∧ IsForm name.toList s.toList) →
      decodeForm name = name) ∧
    ((¬ ∃ s : String, '%' ∈ name.toList ∧ IsForm name.toList s.toList) ↔
      '%' ∉ name.toList ∨ HasBareSign name.toList ∨
        ¬ ∃ s : String, utf8Bytes s = formBytes name.toList) := by
  refine ⟨?_, ?_, ?_⟩
  · intro s hpercent h
    have hdecode : decodeForm name = s := decodeForm_of_isForm hpercent h
    exact ⟨hdecode, by rw [Name.job, hdecode]⟩
  · intro h
    by_cases hpercent : '%' ∈ name.toList
    · exact decodeForm_of_not_isForm fun ⟨s, hs⟩ => h ⟨s, hpercent, hs⟩
    · exact decodeForm_of_not_mem hpercent
  · rw [exists_and_left, exists_isForm_iff, Classical.not_and_iff_not_or_not,
      Classical.not_and_iff_not_or_not, Classical.not_not]

/-- A name with escapes of either case, and one with a percent sign that starts no escape. -/
theorem decodeForm_exact_mixed :
    ('%' ∈ "caf%c3%A9+%2B%25".toList ∧ IsForm "caf%c3%A9+%2B%25".toList "café +%".toList ∧
      decodeForm "caf%c3%A9+%2B%25" = "café +%" ∧
      Name.job "caf%c3%A9+%2B%25" = Name.category "café +%") ∧
    HasBareSign "a+b%20c%4".toList ∧ decodeForm "a+b%20c%4" = "a+b%20c%4" := by
  have hpercent : '%' ∈ "caf%c3%A9+%2B%25".toList := by decide
  have hform : IsForm "caf%c3%A9+%2B%25".toList "café +%".toList :=
    isForm_iff.mpr ⟨by decide, by decide⟩
  have hbare : HasBareSign "a+b%20c%4".toList := isEscaped_eq_false_iff.mp (by decide)
  obtain ⟨hexact, -, -⟩ := decodeForm_exact "caf%c3%A9+%2B%25"
  obtain ⟨-, hother, hothers⟩ := decodeForm_exact "a+b%20c%4"
  exact ⟨⟨hpercent, hform, hexact _ hpercent hform⟩, hbare,
    hother (hothers.mpr (.inr (.inl hbare)))⟩

end BuildMetrics.Text
