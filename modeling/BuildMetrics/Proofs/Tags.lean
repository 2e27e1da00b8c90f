import BuildMetrics.Tags
import Mathlib.Data.List.Basic

/-!
# What a set of tags takes

The tags of a set stay where they are when others come, and none of them is lost.

* `TagSet.entries_addAll`: where there is room, tags under new names come last, in their order;
* `TagSet.entries_admitFrom`: tags from a source whose names are new come behind those that are
  there, and they are no more than the share of the source.
-/

namespace BuildMetrics

namespace TagEntries

variable {key value : String} {es extra : TagEntries}

/-- A value under a name that is not among the first tags leaves these alone. -/
theorem write_append (h : key ∉ es.keys) :
    write key value (es ++ extra) = es ++ write key value extra := by
  induction es with
  | nil => rfl
  | cons e es ih =>
    obtain ⟨k, v⟩ := e
    have hk : k ≠ key := fun hk => h (hk ▸ List.mem_cons_self)
    rw [List.cons_append, write, if_neg hk, ih fun hmem => h (List.mem_cons_of_mem _ hmem)]
    rfl

/-- A tag under a new name comes last. -/
theorem write_of_not_mem (h : key ∉ es.keys) : write key value es = es ++ [(key, value)] := by
  have happend : write key value (es ++ []) = es ++ write key value [] := write_append h
  rwa [List.append_nil] at happend

/-- No other tags come in than the one that is written. -/
theorem mem_of_mem_write {e : String × String} (h : e ∈ write key value es) :
    e ∈ es ∨ e = (key, value) := by
  induction es with
  | nil => exact .inr (List.mem_singleton.mp h)
  | cons d es ih =>
    obtain ⟨k, v⟩ := d
    rw [write] at h
    split at h
    · next hk =>
      rcases List.mem_cons.mp h with he | he
      · exact .inr (hk ▸ he)
      · exact .inl (List.mem_cons_of_mem _ he)
    · rcases List.mem_cons.mp h with rfl | he
      · exact .inl List.mem_cons_self
      · rcases ih he with he | he
        · exact .inl (List.mem_cons_of_mem _ he)
        · exact .inr he

/-- Writing a tag adds one at most. -/
theorem length_write_le : (write key value es).length ≤ es.length + 1 := by
  induction es with
  | nil => exact Nat.le_refl _
  | cons e es ih =>
    obtain ⟨k, v⟩ := e
    rw [write]
    split
    · exact Nat.le_succ _
    · exact Nat.succ_le_succ ih

end TagEntries

namespace TagSet

variable {s : TagSet} {key value : String} {es extra candidates : TagEntries} {cutoff : Nat}

/-! ## One tag -/

theorem entries_put : (s.put key value).entries = s.entries.write key value := rfl

@[simp] theorem limits_add : (s.add key value).limits = s.limits := by
  rw [add, insert]
  split
  · rfl
  · rfl

theorem contains_eq_false (h : key ∉ s.entries.keys) : s.contains key = false := by
  simpa [contains] using h

/-- Where there is room, a tag under a new name comes last. -/
theorem entries_add (h : key ∉ s.entries.keys) (hroom : s.size < s.limits.maxTags.toNat) :
    (s.add key value).entries = s.entries ++ [(key, value)] := by
  have htaken : ¬ (!s.contains key && s.limits.maxTags.toNat ≤ s.size) = true := by
    simpa [contains_eq_false h] using hroom
  rw [add, insert, if_neg htaken]
  exact TagEntries.write_of_not_mem h

/-- Each tag is one that was there or the one that came. -/
theorem mem_of_mem_add {e : String × String} (h : e ∈ (s.add key value).entries) :
    e ∈ s.entries ∨ e = (key, value) := by
  rw [add, insert] at h
  split at h
  · exact .inl h
  · exact TagEntries.mem_of_mem_write h

/-- The set with tags that come one after the other. -/
def addAll (s : TagSet) (es : TagEntries) : TagSet :=
  es.foldl (fun s (key, value) => s.add key value) s

/-- Tags with new names are all added, in order, as long as there is room for them. -/
theorem entries_addAll (hkeys : (s.entries ++ es).keys.Nodup)
    (hroom : s.size + es.length ≤ s.limits.maxTags.toNat) :
    (s.addAll es).entries = s.entries ++ es := by
  induction es generalizing s with
  | nil => exact (List.append_nil _).symm
  | cons e es ih =>
    obtain ⟨key, value⟩ := e
    have hnew : key ∉ s.entries.keys := by
      rw [TagEntries.keys, List.map_append, List.nodup_append] at hkeys
      exact fun hmem => hkeys.2.2 _ hmem _ List.mem_cons_self rfl
    rw [List.length_cons] at hroom
    have hentries : (s.add key value).entries = s.entries ++ [(key, value)] :=
      entries_add hnew (by omega)
    have hassoc : s.entries ++ (key, value) :: es = (s.add key value).entries ++ es := by
      rw [hentries, List.append_assoc]
      rfl
    rw [hassoc] at hkeys ⊢
    refine ih hkeys ?_
    rw [limits_add, size, hentries, List.length_append, List.length_singleton, ← size]
    omega

/-! ## Tags from a source -/

@[simp] theorem limits_admitUpTo : (s.admitUpTo cutoff candidates).2.limits = s.limits := by
  induction candidates generalizing s with
  | nil => rfl
  | cons e candidates ih =>
    obtain ⟨key, value⟩ := e
    rw [admitUpTo]
    split
    · rfl
    · exact ih

@[simp] theorem limits_admitFrom : (s.admitFrom candidates).2.limits = s.limits := limits_admitUpTo

/-- Tags are admitted up to the given size and not beyond. -/
theorem size_admitUpTo_le (h : s.size ≤ cutoff) :
    (s.admitUpTo cutoff candidates).2.size ≤ cutoff := by
  induction candidates generalizing s with
  | nil => exact h
  | cons e candidates ih =>
    obtain ⟨key, value⟩ := e
    rw [admitUpTo]
    split
    · exact h
    · next hfull =>
      have hput : (s.put key value).size ≤ s.size + 1 := TagEntries.length_write_le
      exact ih (by omega)

/-- Tags under names that are not among the first tags come behind these. -/
theorem entries_admitUpTo (hs : s.entries = es ++ extra)
    (hnew : ∀ e ∈ candidates, e.1 ∉ es.keys) :
    ∃ taken, (s.admitUpTo cutoff candidates).2.entries = es ++ taken ∧
      taken ⊆ extra ++ candidates := by
  induction candidates generalizing s extra with
  | nil => exact ⟨extra, hs, List.subset_append_left _ _⟩
  | cons e candidates ih =>
    obtain ⟨key, value⟩ := e
    obtain ⟨hkey, hnew⟩ := List.forall_mem_cons.mp hnew
    rw [admitUpTo]
    split
    · exact ⟨extra, hs, List.subset_append_left _ _⟩
    · have hput : (s.put key value).entries = es ++ extra.write key value := by
        rw [entries_put, hs, TagEntries.write_append hkey]
      obtain ⟨taken, hentries, hsubset⟩ := ih hput hnew
      refine ⟨taken, hentries, fun e he => ?_⟩
      rcases List.mem_append.mp (hsubset he) with he | he
      · rcases TagEntries.mem_of_mem_write he with he | rfl
        · exact List.mem_append_left _ he
        · exact List.mem_append_right _ List.mem_cons_self
      · exact List.mem_append_right _ (List.mem_cons_of_mem _ he)

/-- **Tags from a source come behind the others and keep to their share.** -/
theorem entries_admitFrom (hnew : ∀ e ∈ candidates, e.1 ∉ s.entries.keys) :
    ∃ taken, (s.admitFrom candidates).2.entries = s.entries ++ taken ∧ taken ⊆ candidates ∧
      taken.length ≤ s.limits.admission s.size := by
  obtain ⟨taken, hentries, hsubset⟩ : ∃ taken,
      (s.admitFrom candidates).2.entries = s.entries ++ taken ∧ taken ⊆ [] ++ candidates :=
    entries_admitUpTo (List.append_nil s.entries).symm hnew
  refine ⟨taken, hentries, hsubset, ?_⟩
  have hsize : (s.admitFrom candidates).2.size ≤ s.size + s.limits.admission s.size :=
    size_admitUpTo_le (Nat.le_add_right _ _)
  rw [size, hentries, List.length_append] at hsize
  exact Nat.le_of_add_le_add_left hsize

/-- Each tag is one that was there or one of the source. -/
theorem mem_of_mem_admitFrom {e : String × String}
    (h : e ∈ (s.admitFrom candidates).2.entries) : e ∈ s.entries ∨ e ∈ candidates := by
  have hs : s.entries = [] ++ s.entries := rfl
  obtain ⟨taken, hentries, hsubset⟩ : ∃ taken,
      (s.admitFrom candidates).2.entries = [] ++ taken ∧ taken ⊆ s.entries ++ candidates :=
    entries_admitUpTo hs fun _ _ => List.not_mem_nil
  rw [hentries] at h
  exact List.mem_append.mp (hsubset h)

end TagSet

end BuildMetrics
