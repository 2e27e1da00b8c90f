import BuildMetrics.Proofs.Json.Yields
import BuildMetrics.Proofs.Tags.Admission
import BuildMetrics.Record.Codec

/-!
# Sets of tags over time

A set of tags changes by calls only: a tag is inserted, with or without an answer, or tags are
taken from a source. Whatever a call does, it has the set take some tags, and taking is writing;
so a set is what was written into it so far.

* `TagSet.perform_eq`, `TagSet.performAll_eq`: the set behind calls is the set with the tags that
  the calls had it take, written in order;
* `TagSet.size_perform_le`: no call takes a set over its limit, nor further over it;
* `TagSet.keys_performAll_of_le`: so a set that is as large as its limit, as one that was read can
  be, gets no new name.
-/

namespace BuildMetrics.TagSet

/-- A call that changes a set of tags. -/
inductive Call where
  /-- a tag is inserted, and the caller is told whether it was taken -/
  | insert (key value : String)
  /-- a tag is inserted, and nobody is told -/
  | add (key value : String)
  /-- tags are taken from a source -/
  | admitFrom (candidates : TagEntries)

/-- The set behind a call. -/
def perform (s : TagSet) : Call → TagSet
  | .insert key value => (s.insert key value).2
  | .add key value => s.add key value
  | .admitFrom candidates => (s.admitFrom candidates).2

/-- The tags that a call has the set take: a tag that is inserted if the answer is that it was
taken, and as many candidates of a source as the answer tells. -/
def takenBy (s : TagSet) : Call → TagEntries
  | .insert key value | .add key value => if (s.insert key value).1 then [(key, value)] else []
  | .admitFrom candidates => candidates.take (s.admitFrom candidates).1

/-- The set behind calls that come one after the other. -/
def performAll (s : TagSet) (calls : List Call) : TagSet := calls.foldl perform s

/-- The tags that calls have the set take, in the order in which it takes them. -/
def takenByAll (s : TagSet) : List Call → TagEntries
  | [] => []
  | call :: calls => s.takenBy call ++ (s.perform call).takenByAll calls

variable {s : TagSet} {key value : String} {call : Call} {calls : List Call}

/-! ## One tag -/

/-- A tag is refused if its name is new and the set is full. -/
theorem insert_fst_eq_false_iff :
    (s.insert key value).1 = false ↔
      key ∉ s.entries.keys ∧ s.limits.maxTags.toNat ≤ s.size := by
  rw [insert]
  split
  · next hrefused => simpa [contains] using hrefused
  · next htaken =>
    have hno : ¬ (key ∉ s.entries.keys ∧ s.limits.maxTags.toNat ≤ s.size) := by
      simpa [contains] using htaken
    exact iff_of_false (by simp) hno

theorem insert_snd_of_refused (h : (s.insert key value).1 = false) :
    (s.insert key value).2 = s := by
  rw [insert] at h ⊢
  split at h
  · next hrefused => rw [if_pos hrefused]
  · cases h

theorem insert_snd_of_taken (h : (s.insert key value).1 = true) :
    (s.insert key value).2 = s.put key value := by
  rw [insert] at h ⊢
  split at h
  · cases h
  · next htaken => rw [if_neg htaken]

theorem insert_fst_of_mem (h : key ∈ s.entries.keys) : (s.insert key value).1 = true := by
  rw [← Bool.not_eq_false, insert_fst_eq_false_iff]
  exact fun hrefused => hrefused.1 h

/-- An insertion takes no set over its limit. -/
theorem size_insert_le : (s.insert key value).2.size ≤ max s.size s.limits.maxTags.toNat := by
  cases htaken : (s.insert key value).1 with
  | false =>
    rw [insert_snd_of_refused htaken]
    exact Nat.le_max_left _ _
  | true =>
    rw [insert_snd_of_taken htaken]
    by_cases hkey : key ∈ s.entries.keys
    · have hsize : (s.put key value).size = s.size := by
        rw [size_eq, entries_put, TagEntries.keys_write_of_mem hkey, size_eq]
      exact hsize ▸ Nat.le_max_left _ _
    · have hroom : s.size < s.limits.maxTags.toNat := by
        refine Nat.lt_of_not_le fun hfull => ?_
        have hrefused : (s.insert key value).1 = false :=
          insert_fst_eq_false_iff.mpr ⟨hkey, hfull⟩
        rw [htaken] at hrefused
        cases hrefused
      have hput : (s.put key value).size ≤ s.size + 1 := TagEntries.length_write_le
      exact Nat.le_trans hput (Nat.le_trans hroom (Nat.le_max_right _ _))

/-! ## Calls -/

theorem insert_snd_eq :
    (s.insert key value).2 =
      s.putAll (if (s.insert key value).1 then [(key, value)] else []) := by
  cases htaken : (s.insert key value).1 with
  | false => exact insert_snd_of_refused htaken
  | true => exact insert_snd_of_taken htaken

/-- **What a call does.** It has the set take some tags, which are written in order. -/
theorem perform_eq : s.perform call = s.putAll (s.takenBy call) := by
  cases call with
  | insert key value => exact insert_snd_eq
  | add key value => exact insert_snd_eq
  | admitFrom candidates => exact admitFrom_snd

theorem limits_perform : (s.perform call).limits = s.limits := by
  rw [perform_eq, limits_putAll]

/-- No name is removed or moved by a call. -/
theorem keys_prefix_perform : s.entries.keys <+: (s.perform call).entries.keys := by
  rw [perform_eq, keys_putAll]
  exact List.prefix_append _ _

theorem size_perform_le : (s.perform call).size ≤ max s.size s.limits.maxTags.toNat := by
  cases call with
  | insert key value => exact size_insert_le
  | add key value => exact size_insert_le
  | admitFrom candidates =>
    have hsize : (s.admitFrom candidates).2.size ≤ s.size + s.limits.admission s.size :=
      size_admitUpTo_le (Nat.le_add_right _ _)
    exact Nat.le_trans hsize s.add_admission_le

/-- **What calls do.** The set behind them is the set with all tags that they had it take. -/
theorem performAll_eq : s.performAll calls = s.putAll (s.takenByAll calls) := by
  induction calls generalizing s with
  | nil => rfl
  | cons call calls ih =>
    have hrest : s.performAll (call :: calls) =
        (s.perform call).putAll ((s.perform call).takenByAll calls) := ih
    rw [hrest, takenByAll, putAll_append, ← perform_eq]

theorem limits_performAll : (s.performAll calls).limits = s.limits := by
  rw [performAll_eq, limits_putAll]

theorem keys_prefix_performAll : s.entries.keys <+: (s.performAll calls).entries.keys := by
  rw [performAll_eq, keys_putAll]
  exact List.prefix_append _ _

theorem size_performAll_le : (s.performAll calls).size ≤ max s.size s.limits.maxTags.toNat := by
  induction calls generalizing s with
  | nil => exact Nat.le_max_left _ _
  | cons call calls ih =>
    have hcall : (s.perform call).size ≤ max s.size s.limits.maxTags.toNat := size_perform_le
    calc (s.performAll (call :: calls)).size
      _ ≤ max (s.perform call).size (s.perform call).limits.maxTags.toNat := ih
      _ ≤ max s.size s.limits.maxTags.toNat := by
        rw [limits_perform]
        omega

/-- A set that is as large as its limit, or larger, gets no new name. -/
theorem keys_performAll_of_le (h : s.limits.maxTags.toNat ≤ s.size) :
    (s.performAll calls).entries.keys = s.entries.keys := by
  have hsize : (s.performAll calls).size ≤ max s.size s.limits.maxTags.toNat :=
    size_performAll_le
  rw [Nat.max_eq_left h, size_eq, size_eq] at hsize
  exact (keys_prefix_performAll.eq_of_length_le hsize).symm

/-! ## Sets from texts -/

/-- A set that is read has the usual limits, however large it is. -/
theorem limits_of_read {p : Json.Place} {d : Json.Draft} (h : codec.read p d = .ok s) :
    s.limits = TagLimits.default := by
  cases d with
  | object ms closed =>
    obtain ⟨es, -, rfl⟩ := Json.map_eq_ok_iff.mp h
    exact limits_putAll
  | _ => cases h

/-- **What holds of a set at any time.** After any calls on an empty set the names are distinct and
no more than the limit, stand in the order in which they were first taken, and each has the value
that was taken last under it; no further call removes a name or moves it. A tag is refused if its
name is new and the set holds as many as the limit, which changes nothing; the value under a name
that is there can always be replaced. A set that is read with more tags than the limit never gets
a new name. -/
theorem performAll_empty (limits : TagLimits) (calls : List Call) :
    let s := (empty limits).performAll calls
    let taken := (empty limits).takenByAll calls
    s.entries.keys.Nodup ∧ s.size ≤ limits.maxTags.toNat ∧
    s.entries.keys = taken.keys.eraseDups ∧
    (∀ key, s.get? key = TagEntries.get? key taken.reverse) ∧
    (∀ call, s.entries.keys <+: (s.perform call).entries.keys) ∧
    (∀ key value, (s.insert key value).1 = false ↔
      key ∉ s.entries.keys ∧ s.size = limits.maxTags.toNat) ∧
    (∀ key value, (s.insert key value).1 = false → (s.insert key value).2 = s) ∧
    (∀ key value, key ∈ s.entries.keys →
      (s.insert key value).1 = true ∧ (s.insert key value).2.entries.keys = s.entries.keys ∧
        (s.insert key value).2.get? key = some value) ∧
    ∀ place d read, codec.read place d = .ok read →
      read.limits = TagLimits.default ∧
        (read.limits.maxTags.toNat < read.size →
          ∀ more, (read.performAll more).entries.keys = read.entries.keys) := by
  intro s taken
  have heq : s = (empty limits).putAll taken := performAll_eq
  have hlimits : s.limits = limits := limits_performAll
  have hsize : s.size ≤ limits.maxTags.toNat := by
    have hmax : s.size ≤ max 0 limits.maxTags.toNat := size_performAll_le
    rwa [Nat.zero_max] at hmax
  refine ⟨s.distinct, hsize, ?_, ?_, fun _ => keys_prefix_perform, ?_,
    fun _ _ => insert_snd_of_refused, ?_, ?_⟩
  · rw [heq, keys_putAll, newKeys]
    simp [empty, TagEntries.keys]
  · intro key
    rw [heq, get?_putAll]
    simp [empty]
  · intro key value
    rw [insert_fst_eq_false_iff, hlimits]
    exact and_congr_right fun _ => ⟨fun hfull => Nat.le_antisymm hsize hfull, fun h => h.ge⟩
  · intro key value hkey
    have htaken : (s.insert key value).1 = true := insert_fst_of_mem hkey
    rw [insert_snd_of_taken htaken]
    refine ⟨htaken, TagEntries.keys_write_of_mem hkey, ?_⟩
    rw [get?, entries_put, TagEntries.get?_write, if_pos rfl]
  · intro place d read hread
    exact ⟨limits_of_read hread, fun hover more => keys_performAll_of_le (Nat.le_of_lt hover)⟩

/-- Calls of all kinds on a set with room for three tags, one of them from one source. -/
def mixedCalls : List Call :=
  [.insert "a" "1", .admitFrom [("a", "2"), ("b", "3"), ("c", "4")], .add "d" "5", .insert "e" "6",
    .insert "b" "7"]

/-- One tag more than the usual limit, under `k`, `kk`, `kkk` and so on. -/
def manyTags : TagEntries :=
  (List.range 21).map fun n => (String.ofList (List.replicate (n + 1) 'k'), "x")

theorem performAll_empty_mixed :
    let s := (empty ⟨3, 1⟩).performAll mixedCalls
    let read := ofEntries .default manyTags
    s.entries = [("a", "2"), ("b", "7"), ("d", "5")] ∧
    (("e" ∉ s.entries.keys ∧ s.size = 3) ∧ s.insert "e" "6" = (false, s)) ∧
    ("b" ∈ s.entries.keys ∧ (s.insert "b" "8").1 = true) ∧
    codec.read .top (.ofJson (codec.write read)) = .ok read ∧
    read.limits.maxTags.toNat < read.size ∧
    ∀ more, (read.performAll more).entries.keys = read.entries.keys := by
  intro s read
  have hentries : s.entries = [("a", "2"), ("b", "7"), ("d", "5")] := by decide
  have hfull : "e" ∉ s.entries.keys ∧ s.size = 3 := by decide
  have hpresent : "b" ∈ s.entries.keys := by decide
  have hread : codec.read .top (.ofJson (codec.write read)) = .ok read := rfl
  have hover : read.limits.maxTags.toNat < read.size := by decide
  obtain ⟨-, -, -, -, -, hrefused, hunchanged, hreplaced, hcapped⟩ :=
    performAll_empty ⟨3, 1⟩ mixedCalls
  have hno : (s.insert "e" "6").1 = false := (hrefused "e" "6").mpr hfull
  refine ⟨hentries, ⟨hfull, Prod.ext hno (hunchanged "e" "6" hno)⟩,
    ⟨hpresent, (hreplaced "b" "8" hpresent).1⟩, hread, hover, ?_⟩
  exact (hcapped _ _ _ hread).2 hover

end BuildMetrics.TagSet
