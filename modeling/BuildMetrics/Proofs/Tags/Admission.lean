import BuildMetrics.Proofs.Tags

/-!
# The share of a source

A source of tags has a share, and the share is a number of new names. The set itself does not count
names: it takes one candidate after the other as long as it is small enough, so a candidate under a
name that is there only replaces a value, and brings the end no closer.

* `TagSet.keys_putAll`, `TagSet.get?_putAll`: what is in a set when tags were written one after the
  other, repeated names allowed;
* `TagSet.admitFrom_snd`, `TagSet.le_admitFrom_fst_iff`: a set takes candidates by writing them, and
  it takes the longest part in front in which each candidate comes after fewer new names than the
  share;
* `TagSet.newKeys_take_admitFrom`: so the new names are the first ones, as many as the share.
-/

namespace BuildMetrics

namespace TagEntries

variable {key value other : String} {es extra : TagEntries}

theorem get?_write :
    (write key value es).get? other = if key = other then some value else es.get? other := by
  induction es with
  | nil => rfl
  | cons e es ih =>
    obtain ⟨k, v⟩ := e
    rw [write]
    split
    · next hk =>
      subst hk
      simp only [get?]
      split
      · rfl
      · rfl
    · next hk =>
      simp only [get?, ih]
      by_cases hother : k = other
      · subst hother
        simp [Ne.symm hk]
      · simp [hother]

theorem get?_append : (es ++ extra).get? key = (es.get? key).or (extra.get? key) := by
  induction es with
  | nil => rfl
  | cons e es ih =>
    obtain ⟨k, v⟩ := e
    simp only [List.cons_append, get?]
    split
    · rfl
    · exact ih

theorem keys_append : (es ++ extra).keys = es.keys ++ extra.keys := List.map_append

theorem nodup_keys_take (h : (es ++ extra).keys.Nodup) (n : Nat) :
    (es ++ extra.take n).keys.Nodup := by
  refine h.sublist (List.Sublist.map Prod.fst ?_)
  exact (List.take_sublist n extra).append_left es

end TagEntries

namespace TagSet

variable {s : TagSet} {key value : String} {es extra candidates : TagEntries} {cutoff n : Nat}

/-! ## Tags that are written one after the other -/

/-- The set with tags that are written one after the other, whatever the limits are. -/
def putAll (s : TagSet) (es : TagEntries) : TagSet :=
  es.foldl (fun s (key, value) => s.put key value) s

/-- The names of tags that are not in the set, each where it comes first. -/
def newKeys (s : TagSet) (es : TagEntries) : List String :=
  (es.keys.removeAll s.entries.keys).eraseDups

theorem putAll_append : s.putAll (es ++ extra) = (s.putAll es).putAll extra := List.foldl_append

@[simp] theorem limits_putAll : (s.putAll es).limits = s.limits := by
  induction es generalizing s with
  | nil => rfl
  | cons e es ih => exact ih

theorem newKeys_cons_of_mem (h : key ∈ s.entries.keys) :
    s.newKeys ((key, value) :: es) = (s.put key value).newKeys es := by
  have hkeys : (s.put key value).entries.keys = s.entries.keys := TagEntries.keys_write_of_mem h
  have hremove : (TagEntries.keys ((key, value) :: es)).removeAll s.entries.keys =
      es.keys.removeAll s.entries.keys := by
    rw [TagEntries.keys, List.map_cons, List.cons_removeAll, if_neg (by simpa using h)]
    rfl
  rw [newKeys, newKeys, hkeys, hremove]

theorem newKeys_cons_of_not_mem (h : key ∉ s.entries.keys) :
    s.newKeys ((key, value) :: es) = key :: (s.put key value).newKeys es := by
  have hkeys : (s.put key value).entries.keys = s.entries.keys ++ [key] :=
    TagEntries.keys_write_of_not_mem h
  have hremove : (TagEntries.keys ((key, value) :: es)).removeAll s.entries.keys =
      key :: es.keys.removeAll s.entries.keys := by
    rw [TagEntries.keys, List.map_cons, List.cons_removeAll, if_pos (by simpa using h)]
    rfl
  have hrest : (es.keys.removeAll s.entries.keys).filter (fun k => !k == key) =
      es.keys.removeAll (s.entries.keys ++ [key]) := by
    rw [List.removeAll, List.removeAll, List.filter_filter]
    exact List.filter_congr fun k _ => Bool.eq_iff_iff.mpr (by simp [and_comm])
  rw [newKeys, newKeys, hkeys, hremove, List.eraseDups_cons, hrest]

/-- **The names of tags that are written.** Those that were there keep their places, and new ones
come behind them, each where it came first. -/
theorem keys_putAll : (s.putAll es).entries.keys = s.entries.keys ++ s.newKeys es := by
  induction es generalizing s with
  | nil => simp [putAll, newKeys, TagEntries.keys]
  | cons e es ih =>
    obtain ⟨key, value⟩ := e
    have hput : (s.putAll ((key, value) :: es)).entries.keys =
        (s.put key value).entries.keys ++ (s.put key value).newKeys es := ih
    rw [hput, entries_put]
    by_cases hkey : key ∈ s.entries.keys
    · rw [newKeys_cons_of_mem hkey, TagEntries.keys_write_of_mem hkey]
    · rw [newKeys_cons_of_not_mem hkey, TagEntries.keys_write_of_not_mem hkey, List.append_assoc,
        List.singleton_append]

/-- **The values of tags that are written.** Under each name it is the last that was written, and
the old one if none was. -/
theorem get?_putAll : (s.putAll es).get? key = TagEntries.get? key (es.reverse ++ s.entries) := by
  induction es generalizing s with
  | nil => rfl
  | cons e es ih =>
    obtain ⟨k, v⟩ := e
    have hput : (s.putAll ((k, v) :: es)).get? key =
        TagEntries.get? key (es.reverse ++ s.entries.write k v) := ih
    rw [hput, List.reverse_cons, List.append_assoc, TagEntries.get?_append,
      TagEntries.get?_append, TagEntries.get?_write]
    rfl

theorem size_eq : s.size = s.entries.keys.length := (List.length_map _).symm

theorem size_putAll : (s.putAll es).size = s.size + (s.newKeys es).length := by
  rw [size_eq, keys_putAll, List.length_append, size_eq]

theorem newKeys_append :
    s.newKeys (es ++ extra) = s.newKeys es ++ (s.putAll es).newKeys extra := by
  have hkeys : (s.putAll (es ++ extra)).entries.keys = s.entries.keys ++ s.newKeys (es ++ extra) :=
    keys_putAll
  rw [putAll_append, keys_putAll, keys_putAll, List.append_assoc] at hkeys
  exact (List.append_cancel_left hkeys).symm

theorem isPrefix_newKeys_take (n : Nat) : s.newKeys (es.take n) <+: s.newKeys es := by
  have happend : s.newKeys (es.take n ++ es.drop n) =
      s.newKeys (es.take n) ++ (s.putAll (es.take n)).newKeys (es.drop n) := newKeys_append
  rw [List.take_append_drop] at happend
  rw [happend]
  exact List.prefix_append _ _

theorem newKeys_sublist : (s.newKeys es).Sublist es.keys := by
  induction es generalizing s with
  | nil => exact List.Sublist.refl _
  | cons e es ih =>
    obtain ⟨key, value⟩ := e
    by_cases hkey : key ∈ s.entries.keys
    · rw [newKeys_cons_of_mem hkey]
      exact ih.cons key
    · rw [newKeys_cons_of_not_mem hkey]
      exact ih.cons_cons key

theorem length_newKeys_le : (s.newKeys es).length ≤ es.length := by
  calc (s.newKeys es).length ≤ es.keys.length := newKeys_sublist.length_le
    _ = es.length := List.length_map _

/-- Tags under distinct new names come last, in their order. -/
theorem entries_putAll (h : (s.entries ++ es).keys.Nodup) :
    (s.putAll es).entries = s.entries ++ es := by
  induction es generalizing s with
  | nil => exact (List.append_nil _).symm
  | cons e es ih =>
    obtain ⟨key, value⟩ := e
    have hkey : key ∉ s.entries.keys := by
      rw [TagEntries.keys_append, List.nodup_append] at h
      exact fun hmem => h.2.2 _ hmem _ List.mem_cons_self rfl
    have hput : (s.put key value).entries = s.entries ++ [(key, value)] :=
      TagEntries.write_of_not_mem hkey
    have hassoc : (s.put key value).entries ++ es = s.entries ++ (key, value) :: es := by
      rw [hput, List.append_assoc, List.singleton_append]
    rw [← hassoc] at h ⊢
    exact ih h

theorem length_newKeys_eq_iff :
    (s.newKeys es).length = es.length ↔ (s.entries ++ es).keys.Nodup := by
  constructor
  · intro hlength
    have hkeys : s.newKeys es = es.keys :=
      newKeys_sublist.eq_of_length (hlength.trans (List.length_map _).symm)
    rw [TagEntries.keys_append, ← hkeys, ← keys_putAll]
    exact (s.putAll es).distinct
  · intro hnodup
    have hsize : (s.putAll es).size = s.size + es.length := by
      rw [size, entries_putAll hnodup, List.length_append, size]
    rw [size_putAll] at hsize
    exact Nat.add_left_cancel hsize

/-! ## What is taken of the candidates -/

theorem admitUpTo_snd :
    (s.admitUpTo cutoff candidates).2 =
      s.putAll (candidates.take (s.admitUpTo cutoff candidates).1) := by
  induction candidates generalizing s with
  | nil => rfl
  | cons e candidates ih =>
    obtain ⟨key, value⟩ := e
    rw [admitUpTo]
    split
    · rfl
    · exact ih

theorem admitUpTo_fst_le : (s.admitUpTo cutoff candidates).1 ≤ candidates.length := by
  induction candidates generalizing s with
  | nil => exact Nat.le_refl _
  | cons e candidates ih =>
    obtain ⟨key, value⟩ := e
    rw [admitUpTo]
    split
    · exact Nat.zero_le _
    · exact Nat.succ_le_succ ih

/-- Candidates are taken as long as the set that they meet is below the cutoff. -/
theorem le_admitUpTo_fst_iff (hn : n ≤ candidates.length) :
    n ≤ (s.admitUpTo cutoff candidates).1 ↔
      ∀ i < n, (s.putAll (candidates.take i)).size < cutoff := by
  induction candidates generalizing s n with
  | nil =>
    obtain rfl := Nat.le_zero.mp hn
    simp
  | cons e candidates ih =>
    obtain ⟨key, value⟩ := e
    cases n with
    | zero => simp
    | succ n =>
      rw [Nat.forall_lt_succ_left, admitUpTo]
      split
      · next hfull =>
        constructor
        · intro h
          exact absurd h (Nat.not_succ_le_zero n)
        · rintro ⟨hroom, -⟩
          exact absurd hroom (Nat.not_lt.mpr hfull)
      · next hroom =>
        have hrest : n ≤ ((s.put key value).admitUpTo cutoff candidates).1 ↔
            ∀ i < n, ((s.put key value).putAll (candidates.take i)).size < cutoff :=
          ih (Nat.le_of_succ_le_succ hn)
        refine Nat.succ_le_succ_iff.trans (hrest.trans ?_)
        exact (and_iff_right (Nat.lt_of_not_le hroom)).symm

theorem admitFrom_snd :
    (s.admitFrom candidates).2 = s.putAll (candidates.take (s.admitFrom candidates).1) :=
  admitUpTo_snd

theorem admitFrom_fst_le : (s.admitFrom candidates).1 ≤ candidates.length := admitUpTo_fst_le

/-- Candidates are taken as long as there are fewer new names in front of them than the share. -/
theorem le_admitFrom_fst_iff (hn : n ≤ candidates.length) :
    n ≤ (s.admitFrom candidates).1 ↔
      ∀ i < n, (s.newKeys (candidates.take i)).length < s.limits.admission s.size := by
  rw [admitFrom, le_admitUpTo_fst_iff hn]
  simp only [size_putAll, Nat.add_lt_add_iff_left]

theorem length_newKeys_take_le :
    (s.newKeys (candidates.take (s.admitFrom candidates).1)).length ≤
      s.limits.admission s.size := by
  have hsize : (s.admitFrom candidates).2.size ≤ s.size + s.limits.admission s.size :=
    size_admitUpTo_le (Nat.le_add_right _ _)
  rw [admitFrom_snd, size_putAll] at hsize
  exact Nat.le_of_add_le_add_left hsize

/-- **The new names are the first ones, as many as the share.** If a candidate was left, then the
share was used up in front of it; otherwise all candidates were taken. -/
theorem newKeys_take_admitFrom :
    s.newKeys (candidates.take (s.admitFrom candidates).1) =
      (s.newKeys candidates).take (s.limits.admission s.size) := by
  have hle : (s.newKeys (candidates.take (s.admitFrom candidates).1)).length ≤
      s.limits.admission s.size := length_newKeys_take_le
  rcases Nat.lt_or_ge (s.admitFrom candidates).1 candidates.length with hleft | hall
  · have hused : s.limits.admission s.size ≤
        (s.newKeys (candidates.take (s.admitFrom candidates).1)).length := by
      by_contra hroom
      -- with room left, the next candidate would have been taken as well
      have hnext : (s.admitFrom candidates).1 + 1 ≤ (s.admitFrom candidates).1 := by
        rw [le_admitFrom_fst_iff hleft]
        intro i hi
        rcases Nat.lt_succ_iff_lt_or_eq.mp hi with hi | rfl
        · exact (le_admitFrom_fst_iff admitFrom_fst_le).mp (Nat.le_refl _) i hi
        · exact Nat.lt_of_not_le hroom
      exact absurd hnext (Nat.not_succ_le_self _)
    rw [← Nat.le_antisymm hle hused]
    exact List.prefix_iff_eq_take.mp (isPrefix_newKeys_take _)
  · rw [List.take_of_length_le hall] at hle ⊢
    exact (List.take_of_length_le hle).symm

theorem size_admitFrom :
    (s.admitFrom candidates).2.size =
      s.size + min (s.limits.admission s.size) (s.newKeys candidates).length := by
  rw [admitFrom_snd, size_putAll, newKeys_take_admitFrom, List.length_take]

/-- Of candidates under distinct new names the first ones are taken, as many as the share. -/
theorem admitFrom_fst_of_nodup (h : (s.entries ++ candidates).keys.Nodup) :
    (s.admitFrom candidates).1 = min (s.limits.admission s.size) candidates.length := by
  have hlength {i : Nat} (hi : i ≤ candidates.length) :
      (s.newKeys (candidates.take i)).length = i := by
    rw [length_newKeys_eq_iff.mpr (TagEntries.nodup_keys_take h i), List.length_take,
      Nat.min_eq_left hi]
  have hle {n : Nat} (hn : n ≤ candidates.length) :
      n ≤ (s.admitFrom candidates).1 ↔ n ≤ s.limits.admission s.size := by
    rw [le_admitFrom_fst_iff hn]
    constructor
    · intro hall
      refine Nat.le_of_not_lt fun hlt => ?_
      have hshare := hall _ hlt
      rw [hlength (Nat.le_of_lt (Nat.lt_of_lt_of_le hlt hn))] at hshare
      exact Nat.lt_irrefl _ hshare
    · intro hshare i hi
      rw [hlength (Nat.le_trans (Nat.le_of_lt hi) hn)]
      exact Nat.lt_of_lt_of_le hi hshare
  refine Nat.le_antisymm (Nat.le_min.mpr ⟨?_, admitFrom_fst_le⟩) ?_
  · exact (hle admitFrom_fst_le).mp (Nat.le_refl _)
  · exact (hle (Nat.min_le_right _ _)).mpr (Nat.min_le_left _ _)

/-- The size at which a set stops is no more than one of two counts of 64 bits. -/
theorem add_admission_le (s : TagSet) :
    s.size + s.limits.admission s.size ≤ max s.size s.limits.maxTags.toNat := by
  rw [TagLimits.admission]
  omega

/-- **What a set takes of a source.** With as many tags as `s.size` there already, the share of the
source is what its limits leave for it. The set gets the first new names of the candidates, as many
as the share; it takes the longest part in front in which each candidate comes after fewer new names
than the share, tells how long that part is, and writes it in order. The size at which it stops fits
64 bits. Of candidates under distinct new names it takes the first ones, as many as the share. -/
theorem admitFrom_exact (s : TagSet) (candidates : TagEntries) :
    let share := min s.limits.maxParameterTags.toNat (s.limits.maxTags.toNat - s.size)
    let taken := (s.admitFrom candidates).1
    let grown := (s.admitFrom candidates).2
    grown.entries.keys = s.entries.keys ++ (s.newKeys candidates).take share ∧
    grown.size = s.size + min share (s.newKeys candidates).length ∧
    taken ≤ candidates.length ∧
    (∀ n ≤ candidates.length, n ≤ taken ↔
      ∀ i < n, (s.newKeys (candidates.take i)).length < share) ∧
    grown = s.putAll (candidates.take taken) ∧
    (∀ key, grown.get? key =
      TagEntries.get? key ((candidates.take taken).reverse ++ s.entries)) ∧
    (s.size < UInt64.size → (UInt64.ofNat s.size + UInt64.ofNat share).toNat = s.size + share) ∧
    ((s.entries ++ candidates).keys.Nodup → taken = min share candidates.length ∧
      grown.entries = s.entries ++ candidates.take share) := by
  intro share taken grown
  have hgrown : grown = s.putAll (candidates.take taken) := admitFrom_snd
  refine ⟨?_, size_admitFrom, admitFrom_fst_le, fun n hn => le_admitFrom_fst_iff hn, hgrown, ?_,
    ?_, ?_⟩
  · rw [hgrown, keys_putAll, newKeys_take_admitFrom]
    rfl
  · intro key
    rw [hgrown, get?_putAll]
  · intro hsize
    have hstop : s.size + share ≤ max s.size s.limits.maxTags.toNat := s.add_admission_le
    have hmax : s.limits.maxTags.toNat < UInt64.size := s.limits.maxTags.toNat_lt
    have hfits : s.size + share < UInt64.size := by omega
    rw [UInt64.toNat_add, UInt64.toNat_ofNat_of_lt' hsize, UInt64.toNat_ofNat_of_lt' (by omega)]
    exact Nat.mod_eq_of_lt hfits
  · intro hnodup
    have htaken : taken = min share candidates.length := admitFrom_fst_of_nodup hnodup
    have hfirst : candidates.take taken = candidates.take share := by
      rw [htaken, ← List.take_eq_take_min]
    refine ⟨htaken, ?_⟩
    rw [hgrown, hfirst]
    exact entries_putAll (TagEntries.nodup_keys_take hnodup share)

/-- Two tags in a set that has room for six, two of them from one source. -/
def pairSet : TagSet := ⟨[("a", "1"), ("b", "2")], by decide, ⟨6, 2⟩⟩

/-- Three tags under distinct new names. -/
def freshTags : TagEntries := [("x", "3"), ("y", "4"), ("z", "5")]

theorem admitFrom_exact_fresh :
    pairSet.size < UInt64.size ∧ (pairSet.entries ++ freshTags).keys.Nodup ∧
    (pairSet.admitFrom freshTags).1 = 2 ∧
    (pairSet.admitFrom freshTags).2.entries = [("a", "1"), ("b", "2"), ("x", "3"), ("y", "4")] ∧
    (UInt64.ofNat 2 + UInt64.ofNat 2).toNat = 4 ∧
    ¬ ∀ i < 3, (pairSet.newKeys (freshTags.take i)).length < 2 := by
  have hsize : pairSet.size < UInt64.size := by decide
  have hnodup : (pairSet.entries ++ freshTags).keys.Nodup := by decide
  obtain ⟨-, -, -, hlongest, -, -, hstop, hfresh⟩ := admitFrom_exact pairSet freshTags
  obtain ⟨htaken, hentries⟩ := hfresh hnodup
  refine ⟨hsize, hnodup, htaken, hentries, hstop hsize, fun hall => ?_⟩
  have hthree : 3 ≤ (pairSet.admitFrom freshTags).1 := (hlongest 3 (by decide)).mpr hall
  rw [htaken] at hthree
  exact absurd hthree (by decide)

/-- Values under old names and under names that came before do not use up the share. -/
example :
    pairSet.admitFrom [("b", "9"), ("c", "3"), ("c", "4"), ("d", "5"), ("b", "7")] =
      (4, ⟨[("a", "1"), ("b", "9"), ("c", "4"), ("d", "5")], by decide, ⟨6, 2⟩⟩) := by
  decide

end TagSet

end BuildMetrics
