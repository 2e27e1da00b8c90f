import BuildMetrics.Api.Request
import BuildMetrics.Proofs.Text.FormEncoding

/-!
# Bodies of requests

A body is some bytes, and only so many of them are taken in. The body that a text is sent as is read
as this text. Where a body is no UTF-8, half a pair of surrogates stands for what is none: inside a
text of JSON it makes the text unreadable, which nobody notices who passes over it, and anywhere
else it is no JSON.

* `Request.read_of_fits`, `Request.read_of_tooLong`: bodies of either length;
* `Body.text?_spoiled`, `Body.text?_backslash_spoiled`, `Body.value_spoiled`: bytes that are no
  UTF-8, inside a text, behind a backslash in it, and elsewhere.
-/

namespace BuildMetrics.Api

namespace Body

/-- What is sent as a text is read as that text. -/
@[simp] theorem text_ofText (s : String) : (ofText s).text = s := by
  rw [text, Text.decodeUtf8With, ofText, Text.decodeUtf8?_eq_some_iff.mpr rfl, Option.getD_some]

/-- Two mebibytes are taken in, and not one byte more. -/
theorem isTooLong_iff {b : Body} : b.isTooLong = true ↔ 2097152 < b.bytes.length :=
  decide_eq_true_iff

/-! ## Bytes that are no UTF-8 -/

/-- What stands for such bytes spoils the text around it, which goes on behind it. -/
theorem text?_spoiled (rest : List Char) :
    Json.text? (spoiled ++ rest) = (Json.text? rest).map fun read => (none, read.2) := by
  have hmarks : spoiled = ['?', '\\', 'u', 'd', '8', '0', '0', '?'] := by decide
  have hquad : Json.hexQuad? 'd' '8' '0' '0' = some 0xd800 := by decide
  have hplain (rest : List Char) : Json.text? ('?' :: rest) =
      (Json.text? rest).map fun read => (read.1.map ('?' :: ·), read.2) := by
    cases hread : Json.text? rest <;> simp [Json.text?, hread]
  have hescape (rest : List Char) :
      Json.text? ('\\' :: 'u' :: 'd' :: '8' :: '0' :: '0' :: '?' :: rest) =
        (Json.text? ('?' :: rest)).map fun read => (none, read.2) := by
    cases hread : Json.text? rest <;> simp [Json.text?, hread, hquad, Json.isHighSurrogate]
  rw [hmarks]
  simp only [List.cons_append, List.nil_append]
  rw [hplain, hescape, hplain]
  cases Json.text? rest <;> rfl

/-- Behind a backslash it is no escape. -/
theorem text?_backslash_spoiled (rest : List Char) :
    Json.text? ('\\' :: (spoiled ++ rest)) = none := by
  have hmarks : spoiled = ['?', '\\', 'u', 'd', '8', '0', '0', '?'] := by decide
  rw [hmarks]
  rfl

/-- No value begins with it. -/
theorem value_spoiled (fuel : Nat) (rest : List Char) :
    Json.value (fuel + 1) (spoiled ++ rest) = (.broken, none) := by
  have hmarks : spoiled = ['?', '\\', 'u', 'd', '8', '0', '0', '?'] := by decide
  rw [hmarks]
  rfl

end Body

/-! ## Reading bodies -/

namespace Request

variable {α : Type} {r : Request} {c : Json.Codec α}

/-- A text that says that it is JSON and is taken in is read as what it holds. -/
theorem read_of_fits (htype : r.contentType.any isJsonType = true) {s : String}
    (hbody : r.body = .ofText s) (hfits : r.body.bytes.length ≤ 2097152) :
    r.read c = (c.decode s).mapError .badBody := by
  have hlength : ¬ r.body.isTooLong = true := by
    rw [Body.isTooLong_iff]
    exact Nat.not_lt.mpr hfits
  rw [read, if_pos htype, if_neg hlength, hbody, Body.text_ofText]

/-- Whatever else there is to a body, it is not read if it is too long. -/
theorem read_of_tooLong (htype : r.contentType.any isJsonType = true)
    (hlong : 2097152 < r.body.bytes.length) : r.read c = .error .tooLong := by
  rw [read, if_pos htype, if_pos (Body.isTooLong_iff.mpr hlong)]

end Request

end BuildMetrics.Api
