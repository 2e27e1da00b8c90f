/-!
# Tags

The tags of a record: texts under names, in the order in which the names came. A set never takes
more than its limits allow:

* `insert` refuses a new name once the set is full; the value under a name that is there can
  always be replaced, and the name keeps its place;
* `admitFrom` takes tags from a source that nobody bounds, such as the parameters of a run. Such a
  source has a share of its own, which is worked out once, before its first tag.
-/

namespace BuildMetrics

/-- How many tags a record may have. -/
structure TagLimits where
  /-- at most so many in all -/
  maxTags : UInt64
  /-- at most so many from one source of parameters -/
  maxParameterTags : UInt64
  deriving DecidableEq, Repr

namespace TagLimits

/-- The limits where nothing else is said. -/
def default : TagLimits := ⟨20, 10⟩

/-- The share of a source when there are `current` tags already. -/
def admission (limits : TagLimits) (current : Nat) : Nat :=
  min limits.maxParameterTags.toNat (limits.maxTags.toNat - current)

end TagLimits

/-- Named texts in order. -/
abbrev TagEntries : Type := List (String × String)

namespace TagEntries

/-- The names, in order. -/
def keys (es : TagEntries) : List String := es.map Prod.fst

/-- Puts a value under a name: in its place if the name is there, else at the end. -/
def write (key value : String) : TagEntries → TagEntries
  | [] => [(key, value)]
  | (k, v) :: es => if k = key then (k, value) :: es else (k, v) :: write key value es

/-- The value under a name. -/
def get? (key : String) : TagEntries → Option String
  | [] => none
  | (k, v) :: es => if k = key then some v else get? key es

/-- Writing a tag under a name that is there keeps all names in their places. -/
theorem keys_write_of_mem {key value : String} {es : TagEntries} (h : key ∈ es.keys) :
    (write key value es).keys = es.keys := by
  induction es with
  | nil => exact absurd h List.not_mem_nil
  | cons e es ih =>
    obtain ⟨k, v⟩ := e
    rw [write]
    split
    · rfl
    · next hk =>
      rcases List.mem_cons.mp h with rfl | h
      · exact absurd rfl hk
      · simp only [keys, List.map_cons, List.cons.injEq, true_and]
        exact ih h

/-- A new name comes last. -/
theorem keys_write_of_not_mem {key value : String} {es : TagEntries} (h : key ∉ es.keys) :
    (write key value es).keys = es.keys ++ [key] := by
  induction es with
  | nil => rfl
  | cons e es ih =>
    obtain ⟨k, v⟩ := e
    have hk : k ≠ key := fun hk => h (hk ▸ List.mem_cons_self)
    rw [write, if_neg hk]
    simp only [keys, List.map_cons, List.cons_append, List.cons.injEq, true_and]
    exact ih fun hmem => h (List.mem_cons_of_mem _ hmem)

/-- Names stay distinct when a tag is written. -/
theorem nodup_keys_write {key value : String} {es : TagEntries} (h : es.keys.Nodup) :
    (write key value es).keys.Nodup := by
  by_cases hmem : key ∈ es.keys
  · rw [keys_write_of_mem hmem]
    exact h
  · rw [keys_write_of_not_mem hmem, List.nodup_append]
    refine ⟨h, List.nodup_cons.mpr ⟨List.not_mem_nil, List.nodup_nil⟩, ?_⟩
    intro a ha b hb hab
    obtain rfl := List.mem_singleton.mp hb
    exact hmem (hab ▸ ha)

end TagEntries

/-- Tags under distinct names. -/
@[ext] structure TagSet where
  /-- the tags, in the order in which their names came -/
  entries : TagEntries
  /-- no name occurs twice -/
  distinct : entries.keys.Nodup
  /-- the limits that the set keeps when it grows -/
  limits : TagLimits
  deriving DecidableEq

namespace TagSet

/-- No tags yet. -/
def empty (limits : TagLimits) : TagSet := ⟨[], List.nodup_nil, limits⟩

/-- How many tags there are. -/
def size (s : TagSet) : Nat := s.entries.length

/-- There are no tags. -/
def isEmpty (s : TagSet) : Bool := s.entries.isEmpty

/-- The value under a name. -/
def get? (s : TagSet) (key : String) : Option String := s.entries.get? key

/-- There is a value under the name. -/
def contains (s : TagSet) (key : String) : Bool := s.entries.keys.contains key

/-- Puts a value under a name, whatever the limits are. -/
def put (s : TagSet) (key value : String) : TagSet :=
  ⟨s.entries.write key value, TagEntries.nodup_keys_write s.distinct, s.limits⟩

/-- Puts a value under a name, unless the name is new and the set is full. Tells whether the
value was taken. -/
def insert (s : TagSet) (key value : String) : Bool × TagSet :=
  if !s.contains key && s.limits.maxTags.toNat ≤ s.size then (false, s) else (true, s.put key value)

/-- The set after `insert`, whether or not it took the value. -/
def add (s : TagSet) (key value : String) : TagSet := (s.insert key value).2

/-- Takes tags as long as there are fewer than `cutoff`. Tells how many were taken. -/
def admitUpTo (cutoff : Nat) (s : TagSet) : TagEntries → Nat × TagSet
  | [] => (0, s)
  | (key, value) :: es =>
    if cutoff ≤ s.size then (0, s)
    else
      let (taken, s) := admitUpTo cutoff (s.put key value) es
      (taken + 1, s)

/-- Takes tags from a source until its share is used up. Tells how many were taken. -/
def admitFrom (s : TagSet) (candidates : TagEntries) : Nat × TagSet :=
  s.admitUpTo (s.size + s.limits.admission s.size) candidates

/-- The set of entries that may repeat names: the last value of a name counts, its first place
stays. -/
def ofEntries (limits : TagLimits) (es : TagEntries) : TagSet :=
  es.foldl (fun s (key, value) => s.put key value) (empty limits)

end TagSet

end BuildMetrics
