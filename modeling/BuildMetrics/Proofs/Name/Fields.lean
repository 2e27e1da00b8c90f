import BuildMetrics.Proofs.Name.Clean
import Mathlib.Data.List.Chain

/-!
# Fields of the name of a test

Dots and brackets separate the fields of the name of a parameterized test, which ends in a bracket.
Its path joins the clean fields by single dots, however many separators stand between two of them
and whether or not the brackets are balanced; only separators in front of the first field leave a
trace, which is one dot.

* `collapseDots_unbracket`: what is left of a name when its dots collapse, part by part, and from it
  `flatten_toList`: the name before it is cleaned;
* `cleanChars_intercalate`: cleaning fields that are joined is joining clean fields;
* `spaced_intercalate`: fields that are joined by dots have no dots but these;
* `test_joins`: the path of any test.
-/

namespace BuildMetrics.Name

/-- The characters between the fields of the name of a test. -/
def isSeparator (c : Char) : Bool := c == '.' || c == '[' || c == ']'

/-- The fields of the name of a test: the longest runs of characters that are no separators. -/
def fields (cs : List Char) : List (List Char) := (cs.splitOnP isSeparator).filter (· ≠ [])

/-- The name starts with a separator. -/
def startsApart (cs : List Char) : Bool := cs.head?.any isSeparator

/-- The dot in front of the fields, if there is one. -/
def lead (cs : List Char) : List Char := if startsApart cs then ['.'] else []

/-! ## The parts of a name -/

/-- Brackets and dots become dots, and nothing else does. -/
theorem unbracket_eq_dot_iff {c : Char} : unbracket c = '.' ↔ isSeparator c = true := by
  simp only [unbracket, isSeparator, Bool.or_eq_true, beq_iff_eq]
  split
  · next h => simp [or_assoc, h]
  · next h => simp [or_assoc, h]

theorem unbracket_of_ne {c : Char} (h : unbracket c ≠ '.') : unbracket c = c := by
  rw [unbracket] at h ⊢
  split
  · next hbracket => exact absurd (if_pos hbracket) h
  · rfl

/-- A name begins with a dot then if it begins with a bracket or a dot. -/
theorem head?_map_unbracket (cs : List Char) :
    (cs.map unbracket).head? = some '.' ↔ startsApart cs = true := by
  cases cs with
  | nil => exact iff_of_false (fun h => by cases h) (fun h => by cases h)
  | cons c cs =>
    rw [List.map_cons, List.head?_cons, Option.some_inj, unbracket_eq_dot_iff]
    rfl

/-- A name starts with a separator if and only if there is nothing in front of the first one. -/
theorem startsApart_concat {cs part : List Char} {parts : List (List Char)}
    (h : cs.splitOnP isSeparator = part :: parts) :
    startsApart (cs ++ [']']) = true ↔ part = [] := by
  cases cs with
  | nil =>
    obtain ⟨rfl, -⟩ := List.cons.inj h
    exact iff_of_true rfl rfl
  | cons c cs =>
    have hhead : startsApart (c :: cs ++ [']']) = isSeparator c := rfl
    rw [List.splitOnP_cons_eq_if_modifyHead] at h
    rw [hhead]
    split at h
    · next hc => exact iff_of_true hc (List.cons.inj h).1.symm
    · next hc =>
      obtain ⟨first, rest, hsplit⟩ :=
        List.exists_cons_of_ne_nil (List.splitOnP_ne_nil isSeparator cs)
      rw [hsplit, List.modifyHead_cons] at h
      obtain ⟨rfl, -⟩ := List.cons.inj h
      exact iff_of_false hc (List.cons_ne_nil _ _)

/-- Each part that is not empty, with a dot behind it. -/
def dotEach (parts : List (List Char)) : List Char :=
  (parts.filter (· ≠ [])).flatMap (· ++ ['.'])

theorem dotEach_cons {part : List Char} (h : part ≠ []) (parts : List (List Char)) :
    dotEach (part :: parts) = part ++ '.' :: dotEach parts := by
  rw [dotEach, List.filter_cons_of_pos (by simpa using h), List.flatMap_cons, List.append_assoc]
  rfl

/-- What stands in front of the first separator keeps a dot behind it, even where that is nothing.
Of the other parts only those do that are not empty. -/
theorem collapseDots_unbracket {cs part : List Char} {parts : List (List Char)}
    (h : cs.splitOnP isSeparator = part :: parts) :
    collapseDots ((cs ++ [']']).map unbracket) = part ++ '.' :: dotEach parts := by
  induction cs generalizing part parts with
  | nil =>
    obtain ⟨rfl, rfl⟩ := List.cons.inj h
    rfl
  | cons c cs ih =>
    obtain ⟨first, rest, hsplit⟩ := List.exists_cons_of_ne_nil (List.splitOnP_ne_nil isSeparator cs)
    have hhead : ((cs ++ [']']).map unbracket).head? = some '.' ↔ first = [] :=
      (head?_map_unbracket _).trans (startsApart_concat hsplit)
    rw [List.splitOnP_cons_eq_if_modifyHead, hsplit] at h
    rw [List.cons_append, List.map_cons, collapseDots, ih hsplit]
    split at h
    · next hc =>
      obtain ⟨rfl, rfl⟩ := List.cons.inj h
      rw [unbracket_eq_dot_iff.mpr hc]
      by_cases hfirst : first = []
      · rw [if_pos ⟨rfl, hhead.mpr hfirst⟩, hfirst]
        rfl
      · rw [if_neg (fun hboth => hfirst (hhead.mp hboth.2)), dotEach_cons hfirst]
        rfl
    · next hc =>
      have hdot : unbracket c ≠ '.' := mt unbracket_eq_dot_iff.mp hc
      obtain ⟨rfl, rfl⟩ := List.cons.inj h
      rw [if_neg (fun hboth => hdot hboth.1), unbracket_of_ne hdot]
      rfl

/-! ## The name before it is cleaned -/

/-- Fields with a dot behind each are fields with dots between them and one more dot. -/
theorem flatMap_dot {fs : List (List Char)} (h : fs ≠ []) :
    fs.flatMap (· ++ ['.']) = ['.'].intercalate fs ++ ['.'] := by
  induction fs with
  | nil => exact absurd rfl h
  | cons f fs ih =>
    cases fs with
    | nil => simp
    | cons g fs =>
      rw [List.flatMap_cons, ih (List.cons_ne_nil _ _), List.intercalate_cons_cons]
      simp only [List.append_assoc]

theorem dropLastDot_concat (cs : List Char) : dropLastDot (cs ++ ['.']) = cs := by
  rw [dropLastDot, if_pos List.getLast?_concat, List.dropLast_concat]

/-- A bracket at the end adds no field. -/
theorem fields_concat {cs part : List Char} {parts : List (List Char)}
    (h : cs.splitOnP isSeparator = part :: parts) :
    fields (cs ++ [']']) = (part :: parts).filter (· ≠ []) := by
  have hclose : isSeparator ']' = true := rfl
  rw [fields, List.splitOnP_append_cons cs [] hclose, h, List.filter_append]
  simp

/-- The characters of the name of a test as its path shows it before it is cleaned. -/
theorem flatten_toList {name : String} (h : name.toList.getLast? = some ']') :
    (flatten name).toList =
      if fields name.toList = [] then []
      else lead name.toList ++ ['.'].intercalate (fields name.toList) := by
  rw [flatten, if_pos h, String.toList_ofList, lead]
  obtain ⟨cs, hcs⟩ := List.getLast?_eq_some_iff.mp h
  obtain ⟨part, parts, hsplit⟩ := List.exists_cons_of_ne_nil (List.splitOnP_ne_nil isSeparator cs)
  rw [hcs, collapseDots_unbracket hsplit, fields_concat hsplit]
  by_cases hpart : part = []
  · rw [if_pos ((startsApart_concat hsplit).mpr hpart), hpart,
      List.filter_cons_of_neg (by simp), dotEach]
    split
    · next hnone =>
      rw [hnone]
      rfl
    · next hsome =>
      rw [flatMap_dot hsome]
      exact dropLastDot_concat ('.' :: _)
  · have hsome : (part :: parts).filter (· ≠ []) ≠ [] := by simp [hpart]
    rw [if_neg (mt (startsApart_concat hsplit).mp hpart), if_neg hsome, ← dotEach_cons hpart,
      dotEach, flatMap_dot hsome, dropLastDot_concat]
    rfl

/-! ## Clean fields -/

/-- Fields with dots between them are cleaned field by field. -/
theorem cleanChars_intercalate (fs : List (List Char)) :
    cleanChars isDottedChar (['.'].intercalate fs) =
      ['.'].intercalate (fs.map (cleanChars isDottedChar)) := by
  have hdot : cleanChars isDottedChar ['.'] = ['.'] := by decide
  induction fs with
  | nil => rfl
  | cons f fs ih =>
    cases fs with
    | nil => simp
    | cons g fs =>
      rw [List.intercalate_cons_cons, cleanChars_append, cleanChars_append, hdot, ih]
      exact List.intercalate_cons_cons.symm

theorem toList_dotted {cs : List Char} (h : cs ≠ []) :
    (dotted (String.ofList cs)).toList = cleanChars isDottedChar cs := by
  rw [dotted, clean, if_neg (mt String.isEmpty_iff.mp (ofList_ne_empty h)), String.toList_ofList,
    String.toList_ofList]

/-- Only a dot has a dot as its small letter. -/
theorem eq_dot_of_mem_lowercase {c : Char} (h : '.' ∈ Text.lowercase c) : c = '.' := by
  rw [Text.lowercase] at h
  split at h
  · exact absurd h (by decide)
  · split at h
    · exact absurd h (by decide)
    · have hlower : '.' = c.toLower := List.mem_singleton.mp h
      by_cases hcapital : c.val ≥ 'A'.val ∧ c.val ≤ 'Z'.val
      · -- a lowercase letter comes behind the dot
        have hshift : c.toLower.val = c.val + 32 := congrArg Char.val (dif_pos hcapital)
        have hsum : 46 = (c.toNat + 32) % 2 ^ 32 :=
          calc 46 = c.toLower.toNat := congrArg Char.toNat hlower
            _ = (c.val + 32).toNat := congrArg UInt32.toNat hshift
            _ = (c.toNat + 32) % 2 ^ 32 := UInt32.toNat_add c.val 32
        have hlow : 65 ≤ c.toNat := UInt32.le_iff_toNat_le.mp hcapital.1
        have hhigh : c.toNat ≤ 90 := UInt32.le_iff_toNat_le.mp hcapital.2
        omega
      · have hkept : c.toLower = c := dif_neg hcapital
        exact (hlower.trans hkept).symm

/-- Cleaning makes no dots. -/
theorem dot_not_mem_cleanChars {keeps : Char → Bool} {cs : List Char} (h : '.' ∉ cs) :
    '.' ∉ cleanChars keeps cs := by
  intro hmem
  obtain ⟨d, hd, hdot⟩ := List.mem_map.mp hmem
  obtain ⟨c, hc, hdc⟩ := List.mem_flatMap.mp hd
  rw [keepOr] at hdot
  split at hdot
  · subst hdot
    exact h (eq_dot_of_mem_lowercase hdc ▸ hc)
  · exact absurd hdot (by decide)

/-- No field is empty. -/
theorem ne_nil_of_mem_fields {cs f : List Char} (h : f ∈ fields cs) : f ≠ [] := by
  simpa using (List.mem_filter.mp h).2

/-- There is no separator in a part between separators. -/
theorem not_isSeparator_of_mem_splitOnP {cs part : List Char}
    (h : part ∈ cs.splitOnP isSeparator) {c : Char} (hc : c ∈ part) : isSeparator c = false := by
  induction cs generalizing part with
  | nil =>
    obtain rfl := List.mem_singleton.mp h
    cases hc
  | cons d cs ih =>
    rw [List.splitOnP_cons_eq_if_modifyHead] at h
    split at h
    · rcases List.mem_cons.mp h with rfl | h
      · cases hc
      · exact ih h hc
    · next hd =>
      obtain ⟨first, rest, hsplit⟩ :=
        List.exists_cons_of_ne_nil (List.splitOnP_ne_nil isSeparator cs)
      rw [hsplit] at h ih
      rcases List.mem_cons.mp h with rfl | h
      · rcases List.mem_cons.mp hc with rfl | hc
        · exact Bool.not_eq_true _ ▸ hd
        · exact ih List.mem_cons_self hc
      · exact ih (List.mem_cons_of_mem _ h) hc

/-- There is no dot in a field. -/
theorem dot_not_mem_of_mem_fields {cs f : List Char} (h : f ∈ fields cs) : '.' ∉ f := by
  intro hdot
  have hsep := not_isSeparator_of_mem_splitOnP (List.mem_filter.mp h).1 hdot
  cases hsep

/-! ## Dots -/

/-- Some text with no dot at either end and no two dots next to each other. -/
structure Spaced (cs : List Char) : Prop where
  /-- there are characters -/
  ne_nil : cs ≠ []
  /-- no dot in front -/
  head : cs.head? ≠ some '.'
  /-- no dot at the end -/
  last : cs.getLast? ≠ some '.'
  /-- no dot behind a dot -/
  single : cs.IsChain fun c d => c = '.' → d ≠ '.'

/-- A part without dots brings no two dots together. -/
theorem isChain_append_of_dot_not_mem {g cs : List Char} (hg : '.' ∉ g)
    (hcs : cs.IsChain fun c d => c = '.' → d ≠ '.') :
    (g ++ cs).IsChain fun c d => c = '.' → d ≠ '.' := by
  induction g with
  | nil => exact hcs
  | cons c g ih =>
    obtain ⟨hc, hg⟩ := List.ne_and_not_mem_of_not_mem_cons hg
    exact List.isChain_cons.mpr ⟨fun _ _ hdot => absurd hdot.symm hc, ih hg⟩

theorem head?_append_ne_dot {g cs : List Char} (hne : g ≠ []) (hg : '.' ∉ g) :
    (g ++ cs).head? ≠ some '.' := by
  rw [List.head?_append_of_ne_nil _ hne]
  exact fun hhead => hg (List.mem_of_mem_head? hhead)

/-- A dot between is alone. -/
theorem Spaced.append {g cs : List Char} (hne : g ≠ []) (hg : '.' ∉ g) (h : Spaced cs) :
    Spaced (g ++ '.' :: cs) where
  ne_nil := by simp
  head := head?_append_ne_dot hne hg
  last := by
    rw [List.getLast?_append_of_ne_nil _ (List.cons_ne_nil _ _),
      List.getLast?_cons_of_ne_nil h.ne_nil]
    exact h.last
  single := by
    refine isChain_append_of_dot_not_mem hg (List.isChain_cons.mpr ⟨?_, h.single⟩)
    rintro d hd - rfl
    exact h.head hd

/-- Parts without dots that are not empty have single dots between them and none around them. -/
theorem spaced_intercalate {gs : List (List Char)} (h : gs ≠ []) (hne : ∀ g ∈ gs, g ≠ [])
    (hdot : ∀ g ∈ gs, '.' ∉ g) : Spaced (['.'].intercalate gs) := by
  induction gs with
  | nil => exact absurd rfl h
  | cons g gs ih =>
    obtain ⟨hg, hgs⟩ := List.forall_mem_cons.mp hne
    obtain ⟨hgdot, hgsdot⟩ := List.forall_mem_cons.mp hdot
    cases gs with
    | nil =>
      have hchain := isChain_append_of_dot_not_mem hgdot List.IsChain.nil
      rw [List.append_nil] at hchain
      rw [List.intercalate_singleton]
      exact ⟨hg, fun hhead => hgdot (List.mem_of_mem_head? hhead),
        fun hlast => hgdot (List.mem_of_getLast? hlast), hchain⟩
    | cons g' gs =>
      rw [List.intercalate_cons_cons, List.append_assoc]
      exact (ih (List.cons_ne_nil _ _) hgs hgsdot).append hg hgdot

/-! ## The path of a test -/

/-- Fields have single dots between them and none around them. -/
theorem spaced_fields {cs : List Char} (h : fields cs ≠ []) :
    Spaced (['.'].intercalate (fields cs)) :=
  spaced_intercalate h (fun _ => ne_nil_of_mem_fields) (fun _ => dot_not_mem_of_mem_fields)

/-- Fields that were cleaned one by one still have single dots between them and none around them. -/
theorem spaced_clean_fields {cs : List Char} (h : fields cs ≠ []) :
    Spaced (['.'].intercalate ((fields cs).map (cleanChars isDottedChar))) := by
  refine spaced_intercalate (mt List.map_eq_nil_iff.mp h) ?_ ?_
  · rw [List.forall_mem_map]
    exact fun f hf => cleanChars_ne_nil (ne_nil_of_mem_fields hf)
  · rw [List.forall_mem_map]
    exact fun f hf => dot_not_mem_cleanChars (dot_not_mem_of_mem_fields hf)

/-- A name of brackets and dots only has no field, so it is taken for none. -/
theorem test_of_fields_eq_nil {name : String} (h : name.toList.getLast? = some ']')
    (hfields : fields name.toList = []) : test name = null := by
  have hempty : flatten name = "" := by
    rw [← String.toList_eq_nil_iff, flatten_toList h, if_pos hfields]
  rw [test_eq, hempty]
  decide

/-- A name that ends in a bracket becomes its fields, cleaned, with dots between them. -/
theorem toList_test {name : String} (h : name.toList.getLast? = some ']')
    (hfields : fields name.toList ≠ []) :
    (test name).toList = lead name.toList ++
      ['.'].intercalate ((fields name.toList).map (cleanChars isDottedChar)) := by
  have hflat : flatten name =
      String.ofList (lead name.toList ++ ['.'].intercalate (fields name.toList)) := by
    rw [← String.ofList_toList (s := flatten name), flatten_toList h, if_neg hfields]
  have hne : lead name.toList ++ ['.'].intercalate (fields name.toList) ≠ [] :=
    List.append_ne_nil_of_right_ne_nil _ (spaced_fields hfields).ne_nil
  have hlead : cleanChars isDottedChar (lead name.toList) = lead name.toList := by
    rw [lead]
    split <;> decide
  rw [test_eq, hflat, toList_dotted hne, cleanChars_append, hlead, cleanChars_intercalate]

/-- **The path of a test joins its fields.** If the name ends in a bracket and has a field, the path
is the clean fields with single dots between them, behind one more dot if the name starts with a
separator; without a field it is `null`. So it never has two dots in a row nor one at its end. Any
other name is only cleaned. -/
theorem test_joins (name : String) :
    (name.toList.getLast? = some ']' →
      test name = (if fields name.toList = [] then null
        else (if startsApart name.toList then "." else "") ++
          ".".intercalate ((fields name.toList).map fun f => dotted (String.ofList f))) ∧
      ¬ ['.', '.'] <:+: (test name).toList ∧ (test name).toList.getLast? ≠ some '.') ∧
    (name.toList.getLast? ≠ some ']' → test name = dotted name) := by
  constructor
  · intro h
    by_cases hfields : fields name.toList = []
    · rw [if_pos hfields, test_of_fields_eq_nil h hfields]
      decide
    · have hlist := toList_test h hfields
      have hspaced := spaced_clean_fields hfields
      have hdotted : (fields name.toList).map (fun f => (dotted (String.ofList f)).toList) =
          (fields name.toList).map (cleanChars isDottedChar) :=
        List.map_congr_left fun f hf => toList_dotted (ne_nil_of_mem_fields hf)
      have hchain : (test name).toList.IsChain fun c d => c = '.' → d ≠ '.' := by
        rw [hlist, lead]
        split
        · refine List.isChain_cons.mpr ⟨?_, hspaced.single⟩
          rintro d hd - rfl
          exact hspaced.head hd
        · exact hspaced.single
      refine ⟨?_, ?_, ?_⟩
      · rw [if_neg hfields, ← String.toList_inj, hlist, String.toList_append,
          String.toList_intercalate, List.map_map, ← hdotted, lead]
        split <;> rfl
      · intro hinfix
        have hpair := hchain.infix hinfix
        simp at hpair
      · rw [hlist, List.getLast?_append_of_ne_nil _ hspaced.ne_nil]
        exact hspaced.last
  · intro h
    rw [test_eq, flatten_of_not_last h]

/-- Brackets that are nested, left open or empty, and a name that does not end in one. -/
theorem test_joins_unbalanced :
    "[[a.]K]..É[]b]".toList.getLast? = some ']' ∧
    fields "[[a.]K]..É[]b]".toList = ["a".toList, "K".toList, "É".toList, "b".toList] ∧
    test "[[a.]K]..É[]b]" = ".a.k._.b" ∧
    "[.]".toList.getLast? = some ']' ∧ test "[.]" = "null" ∧
    "a..b[c].d".toList.getLast? ≠ some ']' ∧ test "a..b[c].d" = dotted "a..b[c].d" := by
  have hlast : "[[a.]K]..É[]b]".toList.getLast? = some ']' := by decide
  have hbare : "[.]".toList.getLast? = some ']' := by decide
  have hother : "a..b[c].d".toList.getLast? ≠ some ']' := by decide
  refine ⟨hlast, by decide, ((test_joins _).1 hlast).1.trans (by decide), hbare,
    ((test_joins _).1 hbare).1.trans (by decide), hother, (test_joins _).2 hother⟩

end BuildMetrics.Name
