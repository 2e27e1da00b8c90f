/-!
# UTF-8 in bytes

Ways from bytes to text. `decodeUtf8?` takes only bytes that are the UTF-8 form of a
text. `decodeUtf8With` takes any bytes: something else stands for each longest part that starts
like a character and is not continued like one, which is the replacement character in
`decodeUtf8Lossy`.
-/

namespace BuildMetrics.Text

/-- The text whose UTF-8 form the bytes are. -/
def decodeUtf8? (bytes : List UInt8) : Option String :=
  String.fromUTF8? bytes.toByteArray

/-- The UTF-8 form of a text. -/
def utf8Bytes (s : String) : List UInt8 :=
  s.toList.flatMap String.utf8EncodeChar

/-- A character of which some bytes have been read. -/
structure PartialChar where
  /-- the bits read so far -/
  bits : Nat
  /-- how many bytes are still to come, less one -/
  more : Nat
  /-- the least byte that may come next -/
  low : UInt8
  /-- the greatest byte that may come next -/
  high : UInt8

/-- What a byte means at the start of a character. -/
inductive LeadByte where
  /-- the byte is a character by itself -/
  | whole (c : Char)
  /-- more bytes have to follow -/
  | first (p : PartialChar)
  /-- no character starts with this byte -/
  | invalid

/-- Reads the first byte of a character. The bounds on the second byte leave out longer
forms than needed, surrogates, and numbers above the last code point. -/
def LeadByte.ofByte (b : UInt8) : LeadByte :=
  let n := b.toNat
  if n < 0x80 then .whole (Char.ofNat n)
  else if n < 0xc2 then .invalid
  else if n < 0xe0 then .first ⟨n - 0xc0, 0, 0x80, 0xbf⟩
  else if n = 0xe0 then .first ⟨0, 1, 0xa0, 0xbf⟩
  else if n = 0xed then .first ⟨0xd, 1, 0x80, 0x9f⟩
  else if n < 0xf0 then .first ⟨n - 0xe0, 1, 0x80, 0xbf⟩
  else if n = 0xf0 then .first ⟨0, 2, 0x90, 0xbf⟩
  else if n < 0xf4 then .first ⟨n - 0xf0, 2, 0x80, 0xbf⟩
  else if n = 0xf4 then .first ⟨4, 2, 0x80, 0x8f⟩
  else .invalid

/-- The character that stands for bytes that are no UTF-8. -/
def replacement : Char := '\ufffd'

/-- Reads on from a character of which some bytes may have been read. What is not UTF-8 becomes
`bad`. -/
def decodeFrom (bad : List Char) : Option PartialChar → List UInt8 → List Char
  | none, [] => []
  | some _, [] => bad
  | none, b :: bs =>
    match LeadByte.ofByte b with
    | .whole c => c :: decodeFrom bad none bs
    | .first p => decodeFrom bad (some p) bs
    | .invalid => bad ++ decodeFrom bad none bs
  | some p, b :: bs =>
    if p.low ≤ b ∧ b ≤ p.high then
      let bits := p.bits * 64 + (b.toNat - 0x80)
      match p.more with
      | 0 => Char.ofNat bits :: decodeFrom bad none bs
      | more + 1 => decodeFrom bad (some ⟨bits, more, 0x80, 0xbf⟩) bs
    else
      bad ++
        match LeadByte.ofByte b with
        | .whole c => c :: decodeFrom bad none bs
        | .first q => decodeFrom bad (some q) bs
        | .invalid => bad ++ decodeFrom bad none bs

/-- The text of any bytes, with something that stands for what is not UTF-8. -/
def decodeUtf8With (bad : List Char) (bytes : List UInt8) : String :=
  (decodeUtf8? bytes).getD (String.ofList (decodeFrom bad none bytes))

/-- The text of any bytes, with replacement characters for what is not UTF-8. -/
def decodeUtf8Lossy (bytes : List UInt8) : String := decodeUtf8With [replacement] bytes

end BuildMetrics.Text
