import BuildMetrics.Record.Line
import Mathlib.Data.List.Forall2
import Mathlib.Data.List.Infix

/-!
# What a line tells

Two records under one name, with one value at one time, differ in their source and their tags.
Their lines tell them apart but for two things: a key is told with its hyphens, and a newline is
written as a backslash and an `n`, which is also how these two characters are written.

* `guarded_cancel`: a quoted text is told from what follows it. A backslash is not escaped, so a
  quote behind a backslash may be one of the text or the end of the text; but what follows the text,
  which is nothing or a tag, never goes on as a text with its end would;
* `lineChars_eq_iff`: hence the lines are equal just if the sources and the tags are told alike;
* `line_tells`: texts without a backslash in front of an `n` are told exactly. Others may not be:
  `line_of_newline`.
-/

namespace BuildMetrics.Record

/-! ## Quoting in two steps -/

/-- A text on one line: a backslash and an `n` stand for each newline. -/
def unbroken (cs : List Char) : List Char :=
  cs.flatMap fun c => if c = '\n' then ['\\', 'n'] else [c]

/-- A text with a backslash in front of each quote. -/
def guarded (cs : List Char) : List Char :=
  cs.flatMap fun c => if c = '"' then ['\\', '"'] else [c]

variable {c : Char} {cs a b rest rest' : List Char}

theorem unbroken_newline : unbroken ('\n' :: cs) = '\\' :: 'n' :: unbroken cs := rfl

theorem unbroken_other (hc : c ≠ '\n') : unbroken (c :: cs) = c :: unbroken cs := by
  rw [unbroken, List.flatMap_cons, if_neg hc]
  rfl

theorem guarded_quote : guarded ('"' :: cs) = '\\' :: '"' :: guarded cs := rfl

theorem guarded_other (hc : c ≠ '"') : guarded (c :: cs) = c :: guarded cs := by
  rw [guarded, List.flatMap_cons, if_neg hc]
  rfl

/-- Quoting first breaks no line any more, then guards the quotes. -/
theorem flatMap_quoteChar (cs : List Char) : cs.flatMap quoteChar = guarded (unbroken cs) := by
  induction cs with
  | nil => rfl
  | cons c cs ih =>
    rw [List.flatMap_cons, ih, quoteChar]
    by_cases hquote : c = '"'
    · subst hquote
      rfl
    · by_cases hnewline : c = '\n'
      · subst hnewline
        rfl
      · rw [if_neg hquote, if_neg hnewline, unbroken_other hnewline, guarded_other hquote]
        rfl

/-! ## Where a quoted text ends -/

/-- What can follow a quoted text: nothing, or a tag. -/
def Follows (cs : List Char) : Prop :=
  cs = [] ∨ ∃ c rest, cs = ' ' :: '"' :: c :: rest ∧ c ≠ ' '

/-- A quote can stand in front only where the text ends. -/
theorem eq_nil_of_guarded_eq_quote (h : guarded a ++ '"' :: rest = '"' :: rest') :
    a = [] ∧ rest = rest' := by
  cases a with
  | nil => exact ⟨rfl, (List.cons.inj h).2⟩
  | cons c a =>
    by_cases hc : c = '"'
    · subst hc
      rw [guarded_quote] at h
      cases h
    · rw [guarded_other hc] at h
      exact absurd (List.cons.inj h).1 hc

/-- The end of a text and what follows it can not follow a text. -/
theorem not_follows_guarded (hrest : Follows rest) : ¬ Follows (guarded a ++ '"' :: rest) := by
  rintro (hnil | ⟨c, more, h, hc⟩)
  · simp at hnil
  · cases a with
    | nil => cases h
    | cons d a =>
      by_cases hd : d = '"'
      · subst hd
        rw [guarded_quote] at h
        cases h
      · -- the blank is in the text, so the quote behind it is the end, and another blank follows
        rw [guarded_other hd] at h
        obtain ⟨-, rfl⟩ := eq_nil_of_guarded_eq_quote (List.cons.inj h).2
        rcases hrest with hnil | ⟨e, more', h', -⟩
        · cases hnil
        · exact hc (List.cons.inj h').1

/-- A quote behind a backslash is either one of the text or its end. -/
theorem quote_ne_end (hrest : Follows rest) (hrest' : Follows rest') (hc : c ≠ '"') :
    guarded ('"' :: a) ++ '"' :: rest ≠ guarded (c :: b) ++ '"' :: rest' := by
  intro h
  rw [guarded_quote, guarded_other hc] at h
  obtain ⟨-, h⟩ := List.cons.inj h
  obtain ⟨-, rfl⟩ := eq_nil_of_guarded_eq_quote h.symm
  exact not_follows_guarded hrest hrest'

/-- **A quoted text is told from what follows it.** -/
theorem guarded_cancel (hrest : Follows rest) (hrest' : Follows rest')
    (h : guarded a ++ '"' :: rest = guarded b ++ '"' :: rest') : a = b ∧ rest = rest' := by
  induction a generalizing b with
  | nil =>
    obtain ⟨rfl, rfl⟩ := eq_nil_of_guarded_eq_quote h.symm
    exact ⟨rfl, rfl⟩
  | cons c a ih =>
    cases b with
    | nil =>
      obtain ⟨hnil, -⟩ := eq_nil_of_guarded_eq_quote h
      cases hnil
    | cons d b =>
      by_cases hc : c = '"' <;> by_cases hd : d = '"'
      · subst hc hd
        obtain ⟨rfl, hrests⟩ := ih ((List.append_right_inj ['\\', '"']).mp h)
        exact ⟨rfl, hrests⟩
      · subst hc
        exact absurd h (quote_ne_end hrest hrest' hd)
      · subst hd
        exact absurd h.symm (quote_ne_end hrest' hrest hc)
      · rw [guarded_other hc, guarded_other hd] at h
        obtain ⟨rfl, htail⟩ := List.cons.inj h
        obtain ⟨rfl, hrests⟩ := ih htail
        exact ⟨rfl, hrests⟩

/-! ## Tags -/

/-- What the line tells of tags: their keys with hyphens, and their values on one line. -/
def told (es : TagEntries) : List (List Char × List Char) :=
  es.map fun (key, value) => (hyphenate isKeyChar key.toList, unbroken value.toList)

/-- The characters of tags in a line. -/
def tagsChars (es : TagEntries) : List Char := es.flatMap fun (key, value) => tagChars key value

/-- A quoted text, and what follows its closing quote. -/
theorem quoted_append (s : String) :
    quoted s ++ rest = '"' :: (guarded (unbroken s.toList) ++ '"' :: rest) := by
  rw [quoted, flatMap_quoteChar, List.cons_append, List.append_assoc]
  rfl

/-- Tags come one after the other, each with a quoted name and a quoted value. -/
theorem tagsChars_cons (key value : String) (es : TagEntries) :
    tagsChars ((key, value) :: es) = ' ' :: '"' :: (hyphenate isKeyChar key.toList ++ '"' :: '=' ::
      '"' :: (guarded (unbroken value.toList) ++ '"' :: tagsChars es)) := by
  rw [← quoted_append]
  simp only [tagsChars, List.flatMap_cons, tagChars, List.cons_append, List.append_assoc]

theorem isKeyChar_of_mem_hyphenate (h : c ∈ hyphenate isKeyChar cs) : isKeyChar c = true := by
  obtain ⟨d, -, rfl⟩ := List.mem_map.mp h
  split
  · assumption
  · decide

/-- Neither a quote nor a blank is in a key, so a key is told from what follows it. -/
theorem hyphenate_cancel
    (h : hyphenate isKeyChar a ++ '"' :: rest = hyphenate isKeyChar b ++ '"' :: rest') :
    hyphenate isKeyChar a = hyphenate isKeyChar b ∧ rest = rest' := by
  have hquote (cs rest : List Char) :
      (hyphenate isKeyChar cs ++ '"' :: rest).takeWhile isKeyChar = hyphenate isKeyChar cs := by
    rw [List.takeWhile_append_of_pos fun c => isKeyChar_of_mem_hyphenate,
      List.takeWhile_cons_of_neg (by decide), List.append_nil]
  have hkeys : hyphenate isKeyChar a = hyphenate isKeyChar b := by
    rw [← hquote a rest, h, hquote]
  rw [hkeys] at h
  exact ⟨hkeys, (List.cons.inj (List.append_cancel_left h)).2⟩

/-- Behind a closing quote the tags go on with a blank, or the line ends. -/
theorem follows_tagsChars (es : TagEntries) : Follows (tagsChars es) := by
  cases es with
  | nil => exact .inl rfl
  | cons e es =>
    obtain ⟨key, value⟩ := e
    rw [tagsChars_cons]
    right
    cases hkey : hyphenate isKeyChar key.toList with
    | nil => exact ⟨_, _, rfl, by decide⟩
    | cons c cs =>
      refine ⟨_, _, rfl, ?_⟩
      rintro rfl
      have hblank : isKeyChar ' ' = true := isKeyChar_of_mem_hyphenate (hkey ▸ List.mem_cons_self)
      exact absurd hblank (by decide)

/-- Tags that tell the same are written alike. -/
theorem tagsChars_of_told {es fs : TagEntries} (h : told es = told fs) :
    tagsChars es = tagsChars fs := by
  induction es generalizing fs with
  | nil =>
    obtain rfl := List.map_eq_nil_iff.mp h.symm
    rfl
  | cons e es ih =>
    cases fs with
    | nil => cases h
    | cons f fs =>
      obtain ⟨hhead, htail⟩ := List.cons.inj h
      obtain ⟨hkey, hvalue⟩ := Prod.mk.inj hhead
      rw [tagsChars_cons, tagsChars_cons, hkey, hvalue, ih htail]

/-- Tags that are written alike tell the same. -/
theorem told_of_tagsChars {es fs : TagEntries} (h : tagsChars es = tagsChars fs) :
    told es = told fs := by
  induction es generalizing fs with
  | nil =>
    cases fs with
    | nil => rfl
    | cons f fs =>
      rw [tagsChars_cons] at h
      cases h
  | cons e es ih =>
    cases fs with
    | nil =>
      rw [tagsChars_cons] at h
      cases h
    | cons f fs =>
      rw [tagsChars_cons, tagsChars_cons] at h
      obtain ⟨hkey, h⟩ := hyphenate_cancel ((List.append_right_inj [' ', '"']).mp h)
      obtain ⟨hvalue, htail⟩ := guarded_cancel (follows_tagsChars es) (follows_tagsChars fs)
        ((List.append_right_inj ['=', '"']).mp h)
      exact List.cons_eq_cons.mpr ⟨Prod.ext hkey hvalue, ih htail⟩

/-! ## Lines -/

variable {r s : Record}

/-- The line but for the source and the tags. -/
def leadChars (r : Record) : List Char :=
  '"' :: (hyphenate isNameChar r.name.toList ++ '"' :: ' ' :: (r.valueChars ++
    ' ' :: (Decimal.intChars r.time.toInt ++ " source=".toList)))

/-- A line is what comes before the source, the quoted source and the tags. -/
theorem lineChars_eq (r : Record) :
    r.lineChars = r.leadChars ++
      '"' :: (guarded (unbroken r.source.toList) ++ '"' :: tagsChars r.tags.entries) := by
  rw [← quoted_append, lineChars, leadChars]
  simp only [List.cons_append, List.append_assoc]
  rfl

/-- Lines that begin alike are the same if and only if the sources and the tags tell the same. -/
theorem lineChars_eq_iff (hname : r.name = s.name) (hvalue : r.value = s.value)
    (htime : r.time = s.time) :
    r.lineChars = s.lineChars ↔
      unbroken r.source.toList = unbroken s.source.toList ∧
        told r.tags.entries = told s.tags.entries := by
  have hlead : r.leadChars = s.leadChars := by
    rw [leadChars, leadChars, valueChars, valueChars, hname, hvalue, htime]
  rw [lineChars_eq, lineChars_eq, hlead]
  constructor
  · intro h
    obtain ⟨hsource, htags⟩ := guarded_cancel (follows_tagsChars _) (follows_tagsChars _)
      (List.cons.inj (List.append_cancel_left h)).2
    exact ⟨hsource, told_of_tagsChars htags⟩
  · rintro ⟨hsource, htags⟩
    rw [hsource, tagsChars_of_told htags]

/-! ## Texts that are told exactly -/

/-- A backslash stands in front of an `n`. -/
def HasBackslashN (cs : List Char) : Prop := ['\\', 'n'] <:+: cs

theorem HasBackslashN.cons (h : HasBackslashN cs) : HasBackslashN (c :: cs) := List.infix_cons h

/-- A newline is written like another text only if that has a backslash and an n in it. -/
theorem hasBackslashN_of_unbroken (h : unbroken ('\n' :: a) = unbroken (c :: b)) (hc : c ≠ '\n') :
    HasBackslashN (c :: b) := by
  rw [unbroken_newline, unbroken_other hc] at h
  obtain ⟨rfl, htail⟩ := List.cons.inj h
  cases b with
  | nil => cases htail
  | cons d b =>
    by_cases hd : d = '\n'
    · subst hd
      cases htail
    · rw [unbroken_other hd] at htail
      obtain ⟨rfl, -⟩ := List.cons.inj htail
      exact ⟨[], b, rfl⟩

/-- Nothing but the empty text is written as nothing. -/
theorem unbroken_eq_nil (h : unbroken cs = []) : cs = [] := by
  cases cs with
  | nil => rfl
  | cons c cs =>
    rw [unbroken, List.flatMap_cons, List.append_eq_nil_iff] at h
    split at h
    · cases h.1
    · cases h.1

/-- Texts without a backslash and an n are told apart by what they are written as. -/
theorem eq_of_unbroken_eq (ha : ¬ HasBackslashN a) (hb : ¬ HasBackslashN b)
    (h : unbroken a = unbroken b) : a = b := by
  induction a generalizing b with
  | nil => exact (unbroken_eq_nil h.symm).symm
  | cons c a ih =>
    cases b with
    | nil => exact unbroken_eq_nil h
    | cons d b =>
      have htails (htail : unbroken a = unbroken b) : a = b :=
        ih (fun h => ha h.cons) (fun h => hb h.cons) htail
      by_cases hc : c = '\n' <;> by_cases hd : d = '\n'
      · subst hc hd
        rw [htails ((List.append_right_inj ['\\', 'n']).mp h)]
      · subst hc
        exact absurd (hasBackslashN_of_unbroken h hd) hb
      · subst hd
        exact absurd (hasBackslashN_of_unbroken h.symm hc) ha
      · rw [unbroken_other hc, unbroken_other hd] at h
        obtain ⟨rfl, htail⟩ := List.cons.inj h
        rw [htails htail]

/-- What a line tells of two texts is the same: they are equal, or a backslash stands in front of an
`n` in one of them and they are equal on one line. -/
def Alike (s t : String) : Prop :=
  s = t ∨ (HasBackslashN s.toList ∨ HasBackslashN t.toList) ∧
    unbroken s.toList = unbroken t.toList

/-- Two texts are alike if and only if they are written alike. -/
theorem alike_iff {s t : String} : Alike s t ↔ unbroken s.toList = unbroken t.toList := by
  constructor
  · rintro (rfl | ⟨-, h⟩)
    · rfl
    · exact h
  · intro h
    by_cases hs : HasBackslashN s.toList
    · exact .inr ⟨.inl hs, h⟩
    · by_cases ht : HasBackslashN t.toList
      · exact .inr ⟨.inr ht, h⟩
      · exact .inl (String.toList_inj.mp (eq_of_unbroken_eq hs ht h))

/-- Tags tell the same if and only if their names are written alike and their values are alike. -/
theorem told_eq_iff {es fs : TagEntries} :
    told es = told fs ↔
      List.Forall₂ (fun (key, value) (key', value') =>
        hyphenate isKeyChar key.toList = hyphenate isKeyChar key'.toList ∧ Alike value value')
        es fs := by
  rw [told, told, ← List.forall₂_eq_eq_eq, List.forall₂_map_left_iff, List.forall₂_map_right_iff]
  simp only [Prod.mk.injEq, alike_iff]

/-- **A line tells the source and the tags.** Of two records that differ in nothing else the lines
are equal just if the sources are alike, and the tags have alike values in order under keys that are
the same with hyphens. -/
theorem line_tells (hname : r.name = s.name) (hvalue : r.value = s.value)
    (htime : r.time = s.time) :
    r.line = s.line ↔
      Alike r.source s.source ∧
        List.Forall₂ (fun (key, value) (key', value') =>
          hyphenate isKeyChar key.toList = hyphenate isKeyChar key'.toList ∧ Alike value value')
          r.tags.entries s.tags.entries := by
  rw [line, line, String.ofList_inj, lineChars_eq_iff hname hvalue htime, alike_iff, told_eq_iff]

/-- A record with one tag. -/
def withTag (source key value : String) : Record :=
  ⟨"wjp.job.app", 1, 0, source, ⟨[(key, value)], List.pairwise_singleton _ _, TagLimits.default⟩⟩

/-- A source that looks like a source with a tag behind it. -/
def likeTagged : Record :=
  ⟨"wjp.job.app", 1, 0, "host\" \"Status\"=\"SUCCESS", TagSet.empty TagLimits.default⟩

/-- Two records with the same line, though a name and a value of their tags differ. -/
theorem line_tells_tag :
    ((withTag "a\nb" "Build Number" "7").name = (withTag "a\\nb" "Build-Number" "7").name ∧
      (withTag "a\nb" "Build Number" "7").value = (withTag "a\\nb" "Build-Number" "7").value ∧
      (withTag "a\nb" "Build Number" "7").time = (withTag "a\\nb" "Build-Number" "7").time ∧
      (withTag "a\nb" "Build Number" "7").line = (withTag "a\\nb" "Build-Number" "7").line) ∧
    likeTagged.name = (withTag "host" "Status" "SUCCESS").name ∧
      likeTagged.value = (withTag "host" "Status" "SUCCESS").value ∧
      likeTagged.time = (withTag "host" "Status" "SUCCESS").time ∧
      likeTagged.line ≠ (withTag "host" "Status" "SUCCESS").line := by
  have htold := line_tells (r := withTag "a\nb" "Build Number" "7")
    (s := withTag "a\\nb" "Build-Number" "7") rfl rfl rfl
  have hdiffer := line_tells (r := likeTagged) (s := withTag "host" "Status" "SUCCESS") rfl rfl rfl
  refine ⟨⟨rfl, rfl, rfl, ?_⟩, rfl, rfl, rfl, ?_⟩
  · have hsource : HasBackslashN (withTag "a\\nb" "Build-Number" "7").source.toList :=
      ⟨['a'], ['b'], by decide⟩
    exact htold.mpr ⟨.inr ⟨.inr hsource, by decide⟩, .cons ⟨by decide, .inl rfl⟩ .nil⟩
  · intro h
    obtain ⟨-, htags⟩ := hdiffer.mp h
    cases htags

/-- A newline is not told from a backslash and an `n`. -/
theorem line_of_newline :
    (withTag "\n" "Status" "SUCCESS").line = (withTag "\\n" "Status" "SUCCESS").line ∧
    ¬ ∀ r s : Record, r.name = s.name → r.value = s.value → r.time = s.time → r.line = s.line →
      r.source = s.source := by
  have hline : (withTag "\n" "Status" "SUCCESS").line = (withTag "\\n" "Status" "SUCCESS").line :=
    congrArg String.ofList ((lineChars_eq_iff rfl rfl rfl).mpr (by decide))
  refine ⟨hline, fun h => ?_⟩
  have hsource : "\n" = "\\n" :=
    h (withTag "\n" "Status" "SUCCESS") (withTag "\\n" "Status" "SUCCESS") rfl rfl rfl hline
  exact absurd hsource (by decide)

end BuildMetrics.Record
