import BuildMetrics.Proofs.Config
import BuildMetrics.Proofs.Name
import BuildMetrics.Proofs.Text.FormEncoding
import Mathlib.Data.List.Forall2

/-!
# How clean names behave

A clean name is in the alphabet of its kind, and there cleaning changes nothing: every letter of an
alphabet is lowercase already, and decoding, which comes before cleaning for some kinds, only ever
touches a name with a percent sign. So a name can be cleaned again without harm. The kinds differ by
one character each, and cleaning goes character by character, so one kind can be had from another
and a name can be cleaned in parts. How characters outside ASCII are lowercased does not matter,
whatever stands around them.

* `cleans_clean`, `Cleans.comp`: what each kind of cleaning promises;
* `clean_swap`: a kind that keeps one character less;
* `clean_append`: names in two parts;
* `Lowercases.clean_eq`: other ways to lowercase;
* `clean_names`: all of it for jobs, stages, tests and steps.
-/

namespace BuildMetrics.Name

/-! ## Alphabets -/

/-- The characters are an alphabet of names: what replaces others and the segment of an empty name
are in it, and nothing is that is not in a name with dots. -/
structure IsAlphabet (keeps : Char → Bool) : Prop where
  /-- what is not kept becomes a character that is -/
  underscore : keeps '_' = true
  /-- the segment of an empty name is kept -/
  null : ∀ c ∈ Name.null.toList, keeps c = true
  /-- every character can be in a name with dots -/
  isDottedChar : ∀ c, keeps c = true → isDottedChar c = true

theorem isAlphabet_category : IsAlphabet isCategoryChar where
  underscore := rfl
  null := List.all_eq_true.mp rfl
  isDottedChar _ := isDottedChar_of_isCategoryChar

theorem isAlphabet_dotted : IsAlphabet isDottedChar where
  underscore := rfl
  null := List.all_eq_true.mp rfl
  isDottedChar _ h := h

theorem isAlphabet_step : IsAlphabet isStepChar where
  underscore := rfl
  null := List.all_eq_true.mp rfl
  isDottedChar _ := isDottedChar_of_isStepChar

/-- A character of a name is between a hyphen and a nine, an underscore or a lowercase letter. -/
theorem toNat_of_isDottedChar {c : Char} (h : isDottedChar c = true) :
    (45 ≤ c.toNat ∧ c.toNat ≤ 57) ∨ c.toNat = 95 ∨ (97 ≤ c.toNat ∧ c.toNat ≤ 122) := by
  simp only [isDottedChar, isCategoryChar, Bool.or_eq_true, Bool.and_eq_true, beq_iff_eq,
    decide_eq_true_eq, Char.le_def, UInt32.le_iff_toNat_le] at h
  rcases h with ((((hletter | ⟨hlow, hhigh⟩) | rfl) | rfl) | rfl) | rfl
  · exact .inr (.inr hletter)
  · exact .inl ⟨Nat.le_trans (by decide) hlow, hhigh⟩
  all_goals decide

/-- No letter of a name is a capital. -/
theorem lowercase_of_isDottedChar {c : Char} (h : isDottedChar c = true) :
    Text.lowercase c = [c] := by
  have hother (d : Char) (hd : isDottedChar d = false) : c ≠ d := by
    rintro rfl
    rw [h] at hd
    cases hd
  have hcapital : ¬ (c.val ≥ 'A'.val ∧ c.val ≤ 'Z'.val) := by
    rintro ⟨hlow, hhigh⟩
    have hlow : 65 ≤ c.toNat := UInt32.le_iff_toNat_le.mp hlow
    have hhigh : c.toNat ≤ 90 := UInt32.le_iff_toNat_le.mp hhigh
    rcases toNat_of_isDottedChar h with h | h | h <;> omega
  have hlower : c.toLower = c := dif_neg hcapital
  rw [Text.lowercase, if_neg (hother _ (by decide)), if_neg (hother _ (by decide)), hlower]

variable {keeps : Char → Bool} {s t : String}

/-! ## Cleaning a clean name -/

/-- What is in the alphabet already is not changed. -/
theorem cleanChars_eq_self (h : IsAlphabet keeps) {cs : List Char}
    (hcs : ∀ c ∈ cs, keeps c = true) : cleanChars keeps cs = cs := by
  induction cs with
  | nil => rfl
  | cons c cs ih =>
    have hc : keeps c = true := hcs c List.mem_cons_self
    have hrest : cleanChars keeps cs = cs := ih fun d hd => hcs d (List.mem_cons_of_mem _ hd)
    rw [cleanChars, List.flatMap_cons, lowercase_of_isDottedChar (h.isDottedChar c hc),
      List.map_append, List.map_singleton, keepOr, if_pos hc]
    exact congrArg (c :: ·) hrest

/-- A name that is not empty and in the alphabet is clean. -/
theorem clean_eq_self (h : IsAlphabet keeps) (hs : s ≠ "")
    (hchars : ∀ c ∈ s.toList, keeps c = true) : clean keeps s = s := by
  rw [clean, if_neg (mt String.isEmpty_iff.mp hs), cleanChars_eq_self h hchars,
    String.ofList_toList]

/-- A clean name is in its alphabet, whatever it was before. -/
theorem keeps_clean (h : IsAlphabet keeps) (name : String) :
    ∀ c ∈ (clean keeps name).toList, keeps c = true := by
  rw [clean]
  split
  · exact h.null
  · intro c hc
    rw [String.toList_ofList, cleanChars] at hc
    obtain ⟨d, -, rfl⟩ := List.mem_map.mp hc
    rw [keepOr]
    split
    · assumption
    · exact h.underscore

/-! ## Ways to clean names -/

/-- What a way to clean names into an alphabet promises. -/
structure Cleans (keeps : Char → Bool) (f : String → String) : Prop where
  /-- no name becomes empty -/
  ne_empty : ∀ name, f name ≠ ""
  /-- every character is in the alphabet -/
  keeps : ∀ name, ∀ c ∈ (f name).toList, keeps c = true
  /-- a clean name stays as it is -/
  again : ∀ name, f (f name) = f name

/-- Cleaning with an alphabet gives names in it, and cleaning again changes nothing. -/
theorem cleans_clean (h : IsAlphabet keeps) : Cleans keeps (clean keeps) where
  ne_empty := clean_ne_empty keeps
  keeps := keeps_clean h
  again name := clean_eq_self h (clean_ne_empty keeps name) (keeps_clean h name)

/-- A step before cleaning that changes nothing in the alphabet does no harm. -/
theorem Cleans.comp {f g : String → String} (hf : Cleans keeps f)
    (hg : ∀ s : String, (∀ c ∈ s.toList, keeps c = true) → g s = s) : Cleans keeps (f ∘ g) where
  ne_empty name := hf.ne_empty (g name)
  keeps name := hf.keeps (g name)
  again name := by
    rw [Function.comp_apply, Function.comp_apply, hg _ (hf.keeps (g name)), hf.again]

theorem cleans_category : Cleans isCategoryChar category := cleans_clean isAlphabet_category

theorem cleans_dotted : Cleans isDottedChar dotted := cleans_clean isAlphabet_dotted

/-- No name in an alphabet is in form encoding. -/
theorem decodeForm_of_keeps (h : IsAlphabet keeps) (hs : ∀ c ∈ s.toList, keeps c = true) :
    Text.decodeForm s = s := by
  refine Text.decodeForm_of_not_mem fun hpercent => ?_
  have hchar : isDottedChar '%' = true := h.isDottedChar _ (hs _ hpercent)
  exact absurd hchar (by decide)

/-- A segment of a step is cleaned once it has been decoded, and does not change again. -/
theorem cleans_step : Cleans isStepChar step :=
  (cleans_clean isAlphabet_step).comp fun _ => decodeForm_of_keeps isAlphabet_step

/-- A segment of a job is cleaned once it has been decoded, and does not change again. -/
theorem cleans_job : Cleans isCategoryChar job :=
  cleans_category.comp fun _ => decodeForm_of_keeps isAlphabet_category

/-- The name of a test as its path shows it before it is cleaned. -/
def flatten (name : String) : String :=
  if name.toList.getLast? = some ']' then
    String.ofList (dropLastDot (collapseDots (name.toList.map unbracket)))
  else name

/-- A segment of a test is what is left of its name without brackets, cleaned. -/
theorem test_eq (name : String) : test name = dotted (flatten name) := by
  rw [test, flatten]
  split <;> rfl

/-- A name that does not end in a bracket keeps its brackets. -/
theorem flatten_of_not_last (h : s.toList.getLast? ≠ some ']') : flatten s = s := by
  rw [flatten, if_neg h]

/-- A segment of a test has no bracket left, so it does not change again. -/
theorem cleans_test : Cleans isDottedChar test := by
  have hcomp : Cleans isDottedChar (dotted ∘ flatten) := by
    refine cleans_dotted.comp fun s hs => flatten_of_not_last fun hlast => ?_
    have hchar : isDottedChar ']' = true := hs _ (List.mem_of_getLast? hlast)
    exact absurd hchar (by decide)
  have htest : test = dotted ∘ flatten := funext test_eq
  rwa [htest]

/-! ## One kind from another -/

/-- The text with one character for another. -/
def swap (a b : Char) (s : String) : String := s.map fun c => if c = a then b else c

theorem keepOr_swap {keeps' : Char → Bool} {a : Char} (ha : a ≠ '_')
    (h : ∀ c, keeps' c = true ↔ keeps c = true ∧ c ≠ a) (c : Char) :
    keepOr keeps' c = if keepOr keeps c = a then '_' else keepOr keeps c := by
  by_cases hc : keeps c = true
  · by_cases hca : c = a
    · subst hca
      simp [keepOr, h, hc]
    · simp [keepOr, h, hc, hca]
  · simp [keepOr, h, hc, ha.symm]

/-- A kind that keeps one character less has an underscore in its place. -/
theorem clean_swap {keeps' : Char → Bool} {a : Char} (ha : a ≠ '_') (hnull : a ∉ null.toList)
    (h : ∀ c, keeps' c = true ↔ keeps c = true ∧ c ≠ a) (name : String) :
    clean keeps' name = swap a '_' (clean keeps name) := by
  refine String.toList_inj.mp ?_
  rw [swap, String.toList_map, clean, clean]
  split
  · have hkept : ∀ c ∈ null.toList, (if c = a then '_' else c) = c :=
      fun c hc => if_neg (ne_of_mem_of_not_mem hc hnull)
    rw [List.map_congr_left hkept, List.map_id']
  · rw [String.toList_ofList, String.toList_ofList, cleanChars, cleanChars, List.map_map]
    exact List.map_congr_left fun c _ => keepOr_swap ha h c

/-- A segment is the dotted name with its dots made low lines. -/
theorem category_eq_swap (name : String) : category name = swap '.' '_' (dotted name) := by
  refine clean_swap (by decide) (by decide) (fun c => ?_) name
  by_cases hc : c = '.'
  · subst hc
    decide
  · simp only [isDottedChar, Bool.or_eq_true, beq_iff_eq, hc, or_false, ne_eq, not_false_eq_true,
      and_true]

/-- A segment of a step is that of the decoded name with its slashes made low lines. -/
theorem step_eq_swap (name : String) :
    step name = swap '/' '_' (category (Text.decodeForm name)) := by
  refine clean_swap (by decide) (by decide) (fun c => ?_) _
  by_cases hc : c = '/'
  · subst hc
    decide
  · simp only [isStepChar, isCategoryChar, Bool.or_eq_true, beq_iff_eq, hc, or_false, ne_eq,
      not_false_eq_true, and_true]

/-! ## Names in parts -/

/-- Characters are cleaned one by one. -/
theorem cleanChars_append (cs ds : List Char) :
    cleanChars keeps (cs ++ ds) = cleanChars keeps cs ++ cleanChars keeps ds := by
  rw [cleanChars, List.flatMap_append, List.map_append]
  rfl

/-- Two names that are not empty are cleaned one by one. -/
theorem clean_append (hs : s ≠ "") (ht : t ≠ "") :
    clean keeps (s ++ t) = clean keeps s ++ clean keeps t := by
  have hst : s ++ t ≠ "" := fun h => hs (String.append_eq_empty_iff.mp h).1
  rw [clean, clean, clean, if_neg (mt String.isEmpty_iff.mp hst),
    if_neg (mt String.isEmpty_iff.mp hs), if_neg (mt String.isEmpty_iff.mp ht),
    String.toList_append, cleanChars_append, String.ofList_append]

/-! ## Other ways to lowercase -/

/-- The characters are equal, or neither of them is in ASCII. -/
def SameInAscii (c d : Char) : Prop := c = d ∨ 128 ≤ c.toNat ∧ 128 ≤ d.toNat

/-- A way to lowercase a text, which may look at what stands around a character. Only outside ASCII
does it have a choice. -/
def Lowercases (lower : List Char → List Char) : Prop :=
  ∀ cs, List.Forall₂ SameInAscii (lower cs) (cs.flatMap Text.lowercase)

/-- The characters of an alphabet are ASCII. -/
theorem IsAlphabet.toNat_lt (h : IsAlphabet keeps) {c : Char} (hc : keeps c = true) :
    c.toNat < 128 := by
  rcases toNat_of_isDottedChar (h.isDottedChar c hc) with hc | hc | hc <;> omega

/-- What is kept depends on ASCII characters only. -/
theorem SameInAscii.keepOr_eq (h : IsAlphabet keeps) {c d : Char} (hcd : SameInAscii c d) :
    keepOr keeps c = keepOr keeps d := by
  rcases hcd with rfl | ⟨hc, hd⟩
  · rfl
  · have hout {e : Char} (he : 128 ≤ e.toNat) : ¬ keeps e = true :=
      fun hkept => Nat.not_lt.mpr he (h.toNat_lt hkept)
    rw [keepOr, keepOr, if_neg (hout hc), if_neg (hout hd)]

/-- Whatever becomes of other characters, small letters lead to the same clean name. -/
theorem Lowercases.clean_eq {lower : List Char → List Char} (hlower : Lowercases lower)
    (h : IsAlphabet keeps) (hs : s ≠ "") :
    clean keeps s = String.ofList ((lower s.toList).map (keepOr keeps)) := by
  have hsame : (lower s.toList).map (keepOr keeps) = cleanChars keeps s.toList := by
    rw [cleanChars, ← List.forall₂_eq_eq_eq, List.forall₂_map_left_iff, List.forall₂_map_right_iff]
    exact (hlower s.toList).imp fun _ _ => SameInAscii.keepOr_eq h
  rw [clean, if_neg (mt String.isEmpty_iff.mp hs), hsame]

/-! ## All kinds -/

/-- **How clean names behave.** Each kind of cleaning gives a name that is not empty, in the
alphabet of its kind, and clean already. Without dots a segment has underscores in their place, and
a step has them in the place of the slashes of its decoded name. Segments and names with dots can be
cleaned in parts. In all this only ASCII counts of how a name is lowercased. -/
theorem clean_names :
    (Cleans isCategoryChar category ∧ Cleans isDottedChar dotted ∧ Cleans isDottedChar test ∧
      Cleans isStepChar step ∧ Cleans isCategoryChar job) ∧
    (∀ name, category name = swap '.' '_' (dotted name)) ∧
    (∀ name, step name = swap '/' '_' (category (Text.decodeForm name))) ∧
    (∀ s t : String, s ≠ "" → t ≠ "" →
      category (s ++ t) = category s ++ category t ∧ dotted (s ++ t) = dotted s ++ dotted t) ∧
    ∀ lower, Lowercases lower → ∀ s : String, s ≠ "" →
      category s = String.ofList ((lower s.toList).map (keepOr isCategoryChar)) ∧
      dotted s = String.ofList ((lower s.toList).map (keepOr isDottedChar)) := by
  refine ⟨⟨cleans_category, cleans_dotted, cleans_test, cleans_step, cleans_job⟩,
    category_eq_swap, step_eq_swap, ?_, ?_⟩
  · intro s t hs ht
    exact ⟨clean_append hs ht, clean_append hs ht⟩
  · intro lower hlower s hs
    exact ⟨hlower.clean_eq isAlphabet_category hs, hlower.clean_eq isAlphabet_dotted hs⟩

/-- Lowercases a text with the form of the sigma at its end. -/
def lowerFinal (cs : List Char) : List Char :=
  if cs.getLast? = some 'Σ' then cs.dropLast.flatMap Text.lowercase ++ ['ς']
  else cs.flatMap Text.lowercase

/-- A final sigma of its own is one way to make small letters. -/
theorem lowercases_lowerFinal : Lowercases lowerFinal := by
  intro cs
  have hrefl (cs : List Char) : List.Forall₂ SameInAscii cs cs :=
    List.forall₂_same.mpr fun c _ => .inl rfl
  rw [lowerFinal]
  split
  · next hlast =>
    obtain ⟨front, rfl⟩ := List.getLast?_eq_some_iff.mp hlast
    rw [List.dropLast_concat, List.flatMap_append]
    exact List.rel_append (hrefl _) (.cons (.inr (by decide)) .nil)
  · exact hrefl _

theorem clean_names_final :
    "ΑΣ.B" ≠ "" ∧ "İ.Σ" ≠ "" ∧ dotted ("ΑΣ.B" ++ "İ.Σ") = dotted "ΑΣ.B" ++ dotted "İ.Σ" ∧
    dotted "İ.Σ" = "i_._" ∧ Lowercases lowerFinal ∧ lowerFinal "İ.Σ".toList = "i\u0307.ς".toList ∧
    dotted "İ.Σ" = String.ofList ((lowerFinal "İ.Σ".toList).map (keepOr isDottedChar)) := by
  obtain ⟨-, -, -, happend, hlower⟩ := clean_names
  have hs : "ΑΣ.B" ≠ "" := by decide
  have ht : "İ.Σ" ≠ "" := by decide
  exact ⟨hs, ht, (happend _ _ hs ht).2, by decide, lowercases_lowerFinal, by decide,
    (hlower _ lowercases_lowerFinal _ ht).2⟩

end BuildMetrics.Name
