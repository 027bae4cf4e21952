import TapeReader.Text.Basic

/-!
# UTF-8

* `ofBytes?`: the text of bytes, where they are one in UTF-8.
* `ofBytes`: the text of any bytes, with replacement characters.
* `withoutMark`: bytes without the mark of their encoding.
-/

namespace TapeReader.Text

/-- Bytes without the mark of their encoding. -/
def withoutMark : List UInt8 → List UInt8
  | 0xEF :: 0xBB :: 0xBF :: rest => rest
  | bytes => bytes

/-- The text that bytes are in UTF-8. -/
def ofBytes? (bytes : List UInt8) : Option (List Char) :=
  (String.fromUTF8? ⟨bytes.toArray⟩).map String.toList

/-- What the first byte of a character tells: how many bytes follow it, the bounds of the first of
these, and from where on its own bits tell the length. -/
def lead? (b : UInt8) : Option (Nat × UInt8 × UInt8 × Nat) :=
  if 0xC2 ≤ b ∧ b ≤ 0xDF then some (1, 0x80, 0xBF, 32)
  else if b = 0xE0 then some (2, 0xA0, 0xBF, 16)
  else if b = 0xED then some (2, 0x80, 0x9F, 16)
  else if 0xE1 ≤ b ∧ b ≤ 0xEF then some (2, 0x80, 0xBF, 16)
  else if b = 0xF0 then some (3, 0x90, 0xBF, 8)
  else if 0xF1 ≤ b ∧ b ≤ 0xF3 then some (3, 0x80, 0xBF, 8)
  else if b = 0xF4 then some (3, 0x80, 0x8F, 8)
  else none

/-- The bytes, at most so many, that go on with a character; the first one has bounds of its own. -/
def following : Nat → UInt8 → UInt8 → List UInt8 → List UInt8
  | n + 1, low, high, b :: rest =>
    if low ≤ b ∧ b ≤ high then b :: following n 0x80 0xBF rest else []
  | _, _, _, _ => []

/-- The text of bytes, at most so many characters of it. A character that breaks off, and a byte that
starts none, is replaced. -/
def characters : Nat → List UInt8 → List Char
  | 0, _ => []
  | _, [] => []
  | fuel + 1, b :: rest =>
    if b < 0x80 then Char.ofNat b.toNat :: characters fuel rest
    else match lead? b with
      | none => '\ufffd' :: characters fuel rest
      | some (n, low, high, above) =>
        let more := following n low high rest
        let c := if more.length = n then
            Char.ofNat (more.foldl (fun code b => code * 64 + b.toNat % 64) (b.toNat % above))
          else '\ufffd'
        c :: characters fuel (rest.drop more.length)

/-- The text of bytes in UTF-8. -/
def ofBytes (bytes : List UInt8) : List Char := characters bytes.length bytes

end TapeReader.Text
