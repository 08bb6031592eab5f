/-!
# Reading bytes as text

Bytes that are meant as UTF-8, with every longest piece that cannot begin a character replaced by
the replacement character.
-/

namespace Stencil.Text

/-- The character that stands in for bytes that are not text. -/
def replacement : Char := '\uFFFD'

/-- A character that has begun: how many bytes are still to come, the range of the next one, and
the bits so far. -/
structure PartialChar where
  left : Nat
  low : Nat
  high : Nat
  bits : Nat

/-- What the first byte of a character says. -/
inductive LeadByte where
  | whole (c : Char)
  | begins (p : PartialChar)
  | invalid

/-- Read the first byte of a character. -/
def LeadByte.ofByte (b : UInt8) : LeadByte :=
  let n := b.toNat
  if n < 0x80 then .whole (Char.ofNat n)
  else if n < 0xc2 then .invalid
  else if n < 0xe0 then .begins ⟨1, 0x80, 0xbf, n - 0xc0⟩
  else if n = 0xe0 then .begins ⟨2, 0xa0, 0xbf, 0⟩
  else if n = 0xed then .begins ⟨2, 0x80, 0x9f, 0xd⟩
  else if n < 0xf0 then .begins ⟨2, 0x80, 0xbf, n - 0xe0⟩
  else if n = 0xf0 then .begins ⟨3, 0x90, 0xbf, 0⟩
  else if n < 0xf4 then .begins ⟨3, 0x80, 0xbf, n - 0xf0⟩
  else if n = 0xf4 then .begins ⟨3, 0x80, 0x8f, 4⟩
  else .invalid

mutual

/-- Read bytes at the beginning of a character. -/
def decodeLossy : List UInt8 → List Char
  | [] => []
  | b :: rest =>
    match LeadByte.ofByte b with
    | .whole c => c :: decodeLossy rest
    | .begins p => decodeRest p rest
    | .invalid => replacement :: decodeLossy rest

/-- Read bytes inside a character. -/
def decodeRest (p : PartialChar) : List UInt8 → List Char
  | [] => [replacement]
  | b :: rest =>
    if p.low ≤ b.toNat ∧ b.toNat ≤ p.high then
      let bits := p.bits * 64 + (b.toNat - 0x80)
      if p.left = 1 then Char.ofNat bits :: decodeLossy rest
      else decodeRest ⟨p.left - 1, 0x80, 0xbf, bits⟩ rest
    else
      match LeadByte.ofByte b with
      | .whole c => replacement :: c :: decodeLossy rest
      | .begins q => replacement :: decodeRest q rest
      | .invalid => replacement :: replacement :: decodeLossy rest

end

/-- Bytes as text. -/
def ofBytesLossy (bytes : ByteArray) : String :=
  (String.fromUTF8? bytes).getD (String.ofList (decodeLossy bytes.toList))

end Stencil.Text
