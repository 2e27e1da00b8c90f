import BuildMetrics.Name
import BuildMetrics.Record.Line

/-!
# The alphabet of names

Whatever people call a job, a stage, a branch, a test or a timed step, its segment is made of the
characters that a name with dots keeps. Each of them is a character of a name in a line, so the
line shows such a name as it is.

* `IsDotted`: each character can be in a name with dots;
* `isDotted_clean`, `isDotted_test`, `isDotted_step`, `isDotted_job`: so it is once a name is clean;
* `IsDotted.hyphenate_eq`: no character of it becomes a hyphen.
-/

namespace BuildMetrics.Name

/-- Each character of the name can be in a name with dots. -/
def IsDotted (name : String) : Prop := ∀ c ∈ name.toList, isDottedChar c = true

instance (name : String) : Decidable (IsDotted name) :=
  List.decidableBAll (fun c => isDottedChar c = true) name.toList

variable {s t : String} {keeps : Char → Bool}

/-- Two clean names make a clean name together. -/
@[simp] theorem isDotted_append : IsDotted (s ++ t) ↔ IsDotted s ∧ IsDotted t := by
  simp only [IsDotted, String.toList_append, List.mem_append, or_imp, forall_and]

/-! ## Clean names -/

theorem isDottedChar_keepOr (h : ∀ c, keeps c = true → isDottedChar c = true) (c : Char) :
    isDottedChar (keepOr keeps c) = true := by
  rw [keepOr]
  split
  · exact h c ‹_›
  · decide

/-- A clean name has the alphabet of its kind or one underscore more, and an empty one is `null`. -/
theorem isDotted_clean (h : ∀ c, keeps c = true → isDottedChar c = true) (name : String) :
    IsDotted (clean keeps name) := by
  rw [clean]
  split
  · decide
  · intro c hc
    rw [String.toList_ofList, cleanChars] at hc
    obtain ⟨d, -, rfl⟩ := List.mem_map.mp hc
    exact isDottedChar_keepOr h d

/-- What a segment keeps, a dotted name keeps. -/
theorem isDottedChar_of_isCategoryChar {c : Char} (h : isCategoryChar c = true) :
    isDottedChar c = true := by
  rw [isDottedChar, h, Bool.true_or]

/-- What the segment of a step keeps, a dotted name keeps. -/
theorem isDottedChar_of_isStepChar {c : Char} (h : isStepChar c = true) :
    isDottedChar c = true := by
  refine isDottedChar_of_isCategoryChar ?_
  simp only [isStepChar, isCategoryChar, Bool.or_eq_true] at h ⊢
  grind

@[simp] theorem isDotted_category (name : String) : IsDotted (category name) :=
  isDotted_clean (fun _ => isDottedChar_of_isCategoryChar) name

@[simp] theorem isDotted_dotted (name : String) : IsDotted (dotted name) :=
  isDotted_clean (fun _ h => h) name

@[simp] theorem isDotted_test (name : String) : IsDotted (test name) := by
  rw [test]
  split
  · exact isDotted_dotted _
  · exact isDotted_dotted _

@[simp] theorem isDotted_step (name : String) : IsDotted (step name) :=
  isDotted_clean (fun _ => isDottedChar_of_isStepChar) _

@[simp] theorem isDotted_job (fullName : String) : IsDotted (job fullName) := isDotted_category _

/-! ## In a line -/

/-- What a dotted name keeps can stand in a line. -/
theorem isNameChar_of_isDottedChar {c : Char} (h : isDottedChar c = true) :
    Record.isNameChar c = true := by
  simp only [isDottedChar, isCategoryChar, Record.isNameChar, Record.isAlnum,
    Bool.or_eq_true] at h ⊢
  grind

/-- A line shows the name as it is. -/
theorem IsDotted.hyphenate_eq (h : IsDotted s) :
    Record.hyphenate Record.isNameChar s.toList = s.toList := by
  have hkeep : ∀ c ∈ s.toList, (if Record.isNameChar c then c else '-') = c := by
    intro c hc
    rw [if_pos (isNameChar_of_isDottedChar (h c hc))]
  rw [Record.hyphenate, List.map_congr_left hkeep, List.map_id'']
  exact fun _ => rfl

/-- No clean name has a quote in it, so none ends early in a line. -/
theorem IsDotted.quote_not_mem (h : IsDotted s) : '"' ∉ s.toList := by
  intro hquote
  have hchar : isDottedChar '"' = true := h _ hquote
  exact absurd hchar (by decide)

end BuildMetrics.Name
