import BuildMetrics.Config.Basic

/-!
# Normal configurations

What `normalized` promises of the configuration that it gives back: the limits leave room for the
tags that every record has, the paths of the metrics are not empty, and a proxy has an endpoint.
-/

namespace BuildMetrics

namespace Name

theorem ofList_ne_empty {cs : List Char} (h : cs ≠ []) : String.ofList cs ≠ "" := by
  intro heq
  have hlist := congrArg String.toList heq
  rw [String.toList_ofList] at hlist
  exact h hlist

theorem cleanChars_ne_nil {keeps : Char → Bool} {cs : List Char} (h : cs ≠ []) :
    cleanChars keeps cs ≠ [] := by
  cases cs with
  | nil => exact absurd rfl h
  | cons c cs =>
    intro hnil
    rw [cleanChars, List.map_eq_nil_iff, List.flatMap_cons, List.append_eq_nil_iff] at hnil
    exact Text.lowercase_ne_nil c hnil.1

/-- No cleaned name is empty. -/
theorem clean_ne_empty (keeps : Char → Bool) (name : String) : clean keeps name ≠ "" := by
  rw [clean]
  split
  · decide
  · next h =>
    refine ofList_ne_empty (cleanChars_ne_nil fun hnil => h ?_)
    rw [String.isEmpty_iff]
    exact String.toList_eq_nil_iff.mp hnil

end Name

namespace Config

variable {given config : Config}

/-- A valid configuration has a port, a time between flushes and room for tags. -/
theorem validate_eq_ok_iff :
    config.validate = .ok () ↔
      config.proxyPort ≤ 65535 ∧ 1 ≤ config.flushInterval ∧
        min (config.tagLimits.maxParameterTags.toNat + fixedTags) greatestCount ≤
          config.tagLimits.maxTags.toNat := by
  have hport : config.proxyPort ≤ 65535 ↔ ¬ 65535 < config.proxyPort := UInt32.not_lt.symm
  have hflush : 1 ≤ config.flushInterval ↔ ¬ config.flushInterval < 1 := UInt64.not_lt.symm
  rw [validate, hport, hflush, ← Nat.not_lt]
  split
  · next h => exact ⟨fun herr => (by cases herr), fun hall => absurd h hall.1⟩
  · next h =>
    split
    · next h' => exact ⟨fun herr => (by cases herr), fun hall => absurd h' hall.2.1⟩
    · next h' =>
      split
      · next h'' => exact ⟨fun herr => (by cases herr), fun hall => absurd h'' hall.2.2⟩
      · next h'' => exact ⟨fun _ => ⟨h, h', h''⟩, fun _ => rfl⟩

/-- A configuration has a normal form if and only if it is valid, and that is the cleaned one. -/
theorem normalized_eq_ok_iff :
    given.normalized = .ok config ↔ given.validate = .ok () ∧ given.cleaned = config := by
  rw [normalized]
  cases h : given.validate with
  | error e => simp [bind, Except.bind]
  | ok u => simp [bind, Except.bind, pure, Except.pure]

/-- Normal limits have room for the tags that a record has of its own next to as many others as one
source may have. -/
theorem add_fixedTags_le_of_normalized {count : Nat} (h : given.normalized = .ok config)
    (hshare : count ≤ config.tagLimits.maxParameterTags.toNat)
    (hcount : count + fixedTags ≤ greatestCount) :
    count + fixedTags ≤ config.tagLimits.maxTags.toNat := by
  obtain ⟨hvalid, rfl⟩ := normalized_eq_ok_iff.mp h
  obtain ⟨-, -, hlimits⟩ := validate_eq_ok_iff.mp hvalid
  have hmin : count + fixedTags ≤
      min (given.tagLimits.maxParameterTags.toNat + fixedTags) greatestCount :=
    Nat.le_min.mpr ⟨Nat.add_le_add_right hshare _, hcount⟩
  exact Nat.le_trans hmin hlimits

/-- Normal limits have room for the tags that a record has of its own. -/
theorem fixedTags_le_of_normalized (h : given.normalized = .ok config) :
    fixedTags ≤ config.tagLimits.maxTags.toNat :=
  Nat.le_trans (Nat.le_add_left _ _)
    (add_fixedTags_le_of_normalized h (Nat.zero_le _) (by decide))

/-- A normal path is not empty. -/
theorem jobMetricsPrefix_ne_empty (h : given.normalized = .ok config) :
    config.jobMetricsPrefix ≠ "" := by
  obtain ⟨-, rfl⟩ := normalized_eq_ok_iff.mp h
  exact Name.clean_ne_empty _ _

/-- A proxy of a normal configuration has an endpoint. -/
theorem endpoint?_of_isConfigured (h : given.normalized = .ok config)
    (hproxy : config.isConfigured = true) : ∃ endpoint, config.endpoint? = some endpoint := by
  obtain ⟨hvalid, rfl⟩ := normalized_eq_ok_iff.mp h
  have hport : given.cleaned.proxyPort ≤ 65535 := (validate_eq_ok_iff.mp hvalid).1
  rw [endpoint?, if_pos (by simp [hproxy, hport])]
  exact ⟨_, rfl⟩

/-- Where there is an endpoint, there is a proxy. -/
theorem isConfigured_of_endpoint? {endpoint : Endpoint} (h : config.endpoint? = some endpoint) :
    config.isConfigured = true := by
  rw [endpoint?] at h
  split at h
  · next hboth => exact (Bool.and_eq_true _ _ ▸ hboth).1
  · cases h

end Config

end BuildMetrics
