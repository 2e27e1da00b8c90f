import BuildMetrics.Proofs.Json.Printed
import BuildMetrics.Proofs.Text.FormEncoding
import BuildMetrics.Record.Line

/-!
# Lines in bytes

A record is sent as the bytes of its line and the byte of a newline. Whatever its name, source and
tags hold, there is no newline in the line itself, so the newlines tell where the records end.

* `Record.newline_not_mem_lineChars`: a line has no newline in it;
* `Record.splitOn_frames`: the lines of records are what stands between the newlines.
-/

namespace BuildMetrics

/-! ## The byte of a newline -/

/-- The byte of a newline. -/
def newlineByte : UInt8 := 10

/-- A character that has the byte of a newline in its UTF-8 form is the newline. -/
theorem Text.eq_newline_of_mem_utf8EncodeChar {c : Char}
    (h : newlineByte ∈ String.utf8EncodeChar c) : c = '\n' := by
  obtain ⟨first, later, hbytes, -, hlater⟩ := exists_utf8EncodeChar_eq c
  -- the byte begins a character, so it is none of the later ones
  have hfirst : newlineByte = first := by
    rw [hbytes] at h
    rcases List.mem_cons.mp h with hfirst | hmem
    · exact hfirst
    · exact absurd (by decide) (hlater _ hmem)
  subst hfirst
  have hstart : String.utf8EncodeChar c ++ [] = String.utf8EncodeChar '\n' ++ later := by
    rw [List.append_nil, hbytes]
    rfl
  exact (utf8EncodeChar_append_inj hstart).1

namespace Record

variable {c : Char} {keeps : Char → Bool} {cs : List Char}

/-! ## No newline in a line -/

/-- Where newlines are not kept, none is left. -/
theorem newline_not_mem_hyphenate (h : keeps '\n' = false) : '\n' ∉ hyphenate keeps cs := by
  intro hmem
  obtain ⟨c, -, hc⟩ := List.mem_map.mp hmem
  split at hc
  · next hkept =>
    subst hc
    exact absurd (hkept.symm.trans h) (by decide)
  · exact absurd hc (by decide)

theorem newline_not_mem_quoteChar : '\n' ∉ quoteChar c := by
  rw [quoteChar]
  split
  · decide
  · split
    · decide
    · next hc => exact fun hmem => hc (List.mem_singleton.mp hmem).symm

/-- No newline is left in a text between quotes. -/
theorem newline_not_mem_quoted (s : String) : '\n' ∉ quoted s := by
  have htext : '\n' ∉ s.toList.flatMap quoteChar := by
    intro hmem
    obtain ⟨c, -, hc⟩ := List.mem_flatMap.mp hmem
    exact newline_not_mem_quoteChar hc
  simp [quoted, htext]

theorem newline_not_mem_tagChars (key value : String) : '\n' ∉ tagChars key value := by
  have hkey : '\n' ∉ hyphenate isKeyChar key.toList := newline_not_mem_hyphenate (by decide)
  simp [tagChars, hkey, newline_not_mem_quoted]

theorem newline_not_mem_signed {negative : Bool} (h : '\n' ∉ cs) :
    '\n' ∉ Decimal.signed negative cs := by
  cases negative with
  | false => exact h
  | true => simpa [Decimal.signed] using h

theorem newline_not_mem_valueChars (r : Record) : '\n' ∉ r.valueChars := by
  rw [valueChars, Decimal.Format.chars]
  split
  · decide
  · exact newline_not_mem_signed (by decide)
  · exact newline_not_mem_signed (by decide)
  · refine newline_not_mem_signed fun hmem => ?_
    have hspace := (Json.isFractional_decimalChars _ _).noSpace _ hmem
    exact absurd hspace (by decide)

theorem newline_not_mem_intChars (n : Int) : '\n' ∉ Decimal.intChars n := by
  intro hmem
  have hspace := (Json.isNumeric_of_mem_intChars hmem).isSpace
  exact absurd hspace (by decide)

/-- **A line has no newline in it.** -/
theorem newline_not_mem_lineChars (r : Record) : '\n' ∉ r.lineChars := by
  have hname : '\n' ∉ hyphenate isNameChar r.name.toList := newline_not_mem_hyphenate (by decide)
  simp only [lineChars, List.mem_cons, List.mem_append, not_or]
  refine ⟨by decide, hname, by decide, by decide, newline_not_mem_valueChars r, by decide,
    ⟨⟨newline_not_mem_intChars _, by decide⟩, newline_not_mem_quoted _⟩, fun htags => ?_⟩
  obtain ⟨e, -, he⟩ := List.mem_flatMap.mp htags
  exact newline_not_mem_tagChars e.1 e.2 he

/-! ## Frames -/

/-- The bytes of the line of a record. -/
def lineBytes (r : Record) : List UInt8 := Text.utf8Bytes r.line

/-- The bytes of the line of a record with the newline behind it. -/
def frame (r : Record) : List UInt8 := r.lineBytes ++ [newlineByte]

/-- The frames of records, one after the other. -/
def frames (rs : List Record) : List UInt8 := rs.flatMap frame

theorem frames_nil : frames [] = [] := rfl

theorem frames_cons (r : Record) (rs : List Record) : frames (r :: rs) = r.frame ++ frames rs :=
  List.flatMap_cons

theorem frames_append (rs rs' : List Record) : frames (rs ++ rs') = frames rs ++ frames rs' :=
  List.flatMap_append

theorem frames_singleton (r : Record) : frames [r] = r.frame := List.flatMap_singleton frame r

/-- The bytes of a line are the bytes of one line only. -/
theorem newlineByte_not_mem_lineBytes (r : Record) : newlineByte ∉ r.lineBytes := by
  intro hmem
  obtain ⟨c, hc, hbyte⟩ := List.mem_flatMap.mp hmem
  obtain rfl := Text.eq_newline_of_mem_utf8EncodeChar hbyte
  rw [line, String.toList_ofList] at hc
  exact newline_not_mem_lineChars r hc

/-- No line is empty. -/
theorem lineBytes_ne_nil (r : Record) : r.lineBytes ≠ [] := by
  rw [lineBytes, Text.utf8Bytes, line, String.toList_ofList, lineChars, List.flatMap_cons]
  exact List.append_ne_nil_of_left_ne_nil String.utf8EncodeChar_ne_nil _

/-- There are as many newlines as records. -/
theorem count_frames (rs : List Record) : (frames rs).count newlineByte = rs.length := by
  induction rs with
  | nil => rfl
  | cons r rs ih =>
    rw [frames_cons, frame, List.count_append, List.count_append,
      List.count_eq_zero.mpr (newlineByte_not_mem_lineBytes r), List.count_singleton_self, ih,
      List.length_cons]
    omega

/-- **The lines stand between the newlines.** -/
theorem splitOn_frames (rs : List Record) {rest : List UInt8} (h : newlineByte ∉ rest) :
    (frames rs ++ rest).splitOn newlineByte = rs.map lineBytes ++ [rest] := by
  induction rs with
  | nil => exact List.splitOn_eq_singleton h
  | cons r rs ih =>
    rw [frames_cons, frame, List.append_assoc, List.append_assoc, List.singleton_append,
      List.splitOn_append_cons_self_of_not_mem (newlineByte_not_mem_lineBytes r), ih]
    rfl

end Record

end BuildMetrics
