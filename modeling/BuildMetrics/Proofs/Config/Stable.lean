import BuildMetrics.Command.Run
import BuildMetrics.Proofs.Config
import BuildMetrics.Proofs.Name.Clean
import Mathlib.Data.List.DropRight

/-!
# Normal configurations stay as they are

A normal configuration is its own normal form, and it makes no difference whether another host or
port is put into it or into the one that it came from.

* `Text.trim_trim`: a text without blanks around it stays as it is;
* `Config.normalized_of_normalized`: so does a normal configuration;
* `Config.normalized_override`: another host and port, before or after.
-/

namespace BuildMetrics

namespace Text

/-- What is left begins and ends with a character that is not blank. -/
theorem trimChars_trimChars (cs : List Char) : trimChars (trimChars cs) = trimChars cs := by
  set front := cs.dropWhile isBlank with hfront
  have htrim : trimChars cs = front.rdropWhile isBlank := rfl
  have hstart : (trimChars cs).dropWhile isBlank = trimChars cs := by
    rw [List.dropWhile_eq_self_iff]
    intro hlength
    obtain ⟨rest, hrest⟩ : trimChars cs <+: front := List.rdropWhile_prefix isBlank front
    have hpos : 0 < front.length := by
      rw [← hrest, List.length_append]
      omega
    have hget : (trimChars cs)[0] = front[0] := by
      simp only [← hrest, List.getElem_append_left hlength]
    rw [hget]
    exact List.dropWhile_get_zero_not isBlank cs hpos
  calc trimChars (trimChars cs)
      = ((trimChars cs).dropWhile isBlank).rdropWhile isBlank := rfl
    _ = (front.rdropWhile isBlank).rdropWhile isBlank := by rw [hstart, htrim]
    _ = trimChars cs := List.rdropWhile_idempotent isBlank front

/-- A text without blanks around it stays as it is. -/
theorem trim_trim (s : String) : trim (trim s) = trim s := by
  rw [trim, trim, String.toList_ofList, trimChars_trimChars]

end Text

namespace Config

open Command (override)

variable {given config : Config} {endpoint : Endpoint}

/-- A clean configuration stays as it is. -/
theorem cleaned_cleaned (c : Config) : c.cleaned.cleaned = c.cleaned := by
  simp only [cleaned, Name.cleans_dotted.again, Text.trim_trim]

/-- Cleaning changes nothing that is checked. -/
theorem validate_override_cleaned (c : Config) (hostname : Option String) (port : Option UInt32) :
    (override c.cleaned hostname port).validate = (override c hostname port).validate :=
  rfl

/-- Another host and port can be put in before a configuration is cleaned or after. -/
theorem cleaned_override_cleaned (c : Config) (hostname : Option String) (port : Option UInt32) :
    (override c.cleaned hostname port).cleaned = (override c hostname port).cleaned := by
  cases hostname <;> simp [override, cleaned, Name.cleans_dotted.again, Text.trim_trim]

/-- **A normal configuration is its own normal form.** -/
theorem normalized_of_normalized (h : given.normalized = .ok config) :
    config.normalized = .ok config := by
  obtain ⟨hvalid, rfl⟩ := normalized_eq_ok_iff.mp h
  exact normalized_eq_ok_iff.mpr ⟨hvalid, cleaned_cleaned given⟩

/-- **Another host and port can be put in before or after.** -/
theorem normalized_override (h : given.normalized = .ok config) (hostname : Option String)
    (port : Option UInt32) :
    (override given hostname port).normalized = (override config hostname port).normalized := by
  obtain ⟨-, rfl⟩ := normalized_eq_ok_iff.mp h
  rw [normalized, normalized, validate_override_cleaned, cleaned_override_cleaned]

/-- The endpoint of a normal configuration is one, and its host is the one that stands there. -/
theorem of_endpoint? (h : given.normalized = .ok config)
    (hendpoint : config.endpoint? = some endpoint) :
    endpoint.isConfigured = true ∧ endpoint.host = config.proxyHostname ∧
      endpoint.port.toNat = config.proxyPort.toNat := by
  have hhost : Text.trim config.proxyHostname = config.proxyHostname := by
    obtain ⟨-, rfl⟩ := normalized_eq_ok_iff.mp h
    exact Text.trim_trim _
  have hproxy := isConfigured_of_endpoint? hendpoint
  rw [endpoint?, hhost] at hendpoint
  split at hendpoint
  · next hboth =>
    have hport : config.proxyPort ≤ 65535 := by simpa [hproxy] using hboth
    have hbound : config.proxyPort.toNat ≤ 65535 := hport
    cases hendpoint
    refine ⟨hproxy, rfl, ?_⟩
    -- sixteen bits are enough for the port
    rw [UInt16.toNat_ofNat']
    omega
  · cases hendpoint

end Config

end BuildMetrics
