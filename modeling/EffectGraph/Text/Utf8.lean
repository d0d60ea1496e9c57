/-
Texts as bytes.

A text is written in UTF-8, and any bytes can be read back: where they are no
character, a replacement character stands for the longest stretch that could
have begun one. So what is cut off in the middle of a character is read as the
characters before it and one replacement.
-/

namespace EffectGraph.Utf8

/-- The bytes of some characters. -/
def bytesOf (cs : List Char) : List UInt8 := cs.flatMap String.utf8EncodeChar

/-- A character of which some bytes have been read: how many are missing, the least and the
greatest value of the next one, and the bits that were read. -/
structure Opened where
  missing : Nat
  low : Nat
  high : Nat
  bits : Nat

/-- What stands for bytes that are no character. -/
def replacement : Char := '�'

/-- The first byte of a character: the character that it is, or that it opens. Bytes that would open
a needlessly long form, a surrogate or a code beyond the last one are told by the byte after them. -/
def first (b : Nat) : List Char × Option Opened :=
  if b < 0x80 then ([Char.ofNat b], none)
  else if b < 0xc2 then ([replacement], none)
  else if b < 0xe0 then ([], some ⟨1, 0x80, 0xbf, b - 0xc0⟩)
  else if b < 0xf0 then
    ([], some ⟨2, if b = 0xe0 then 0xa0 else 0x80, if b = 0xed then 0x9f else 0xbf, b - 0xe0⟩)
  else if b < 0xf5 then
    ([], some ⟨3, if b = 0xf0 then 0x90 else 0x80, if b = 0xf4 then 0x8f else 0xbf, b - 0xf0⟩)
  else ([replacement], none)

/-- One byte: the characters that it ends, and the one that it leaves open. A byte that does not
continue the open character ends it and is read afresh. -/
def step (opened : Option Opened) (b : Nat) : List Char × Option Opened :=
  match opened with
  | none => first b
  | some o =>
    if o.low ≤ b ∧ b ≤ o.high then
      let bits := o.bits * 64 + (b - 0x80)
      if o.missing = 1 then ([Char.ofNat bits], none)
      else ([], some ⟨o.missing - 1, 0x80, 0xbf, bits⟩)
    else (replacement :: (first b).1, (first b).2)

def decodeFrom (opened : Option Opened) : List UInt8 → List Char
  | [] => if opened.isSome then [replacement] else []
  | b :: bytes => (step opened b.toNat).1 ++ decodeFrom (step opened b.toNat).2 bytes

/-- The characters that some bytes stand for. -/
def decode (bytes : List UInt8) : List Char := decodeFrom none bytes

end EffectGraph.Utf8
