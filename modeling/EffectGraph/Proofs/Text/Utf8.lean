/-
Reading back what was written.

The bytes of a character open it and then continue it one by one, so they are
read as that character (`decodeFrom_char`), and as a replacement if the last of
them are missing (`decodeFrom_cut`). Bytes of a text that are cut off anywhere
therefore give one character for each one that begins before the cut
(`length_decode_take`).
-/
import EffectGraph.Text.Utf8
import Mathlib.Order.Basic

namespace EffectGraph.Utf8

open String (utf8EncodeChar)

/-! ## One byte -/

theorem toNat_ofNat {n : Nat} (h : n < 256) : (UInt8.ofNat n).toNat = n := by
  rw [UInt8.toNat_ofNat', Nat.mod_eq_of_lt h]

/-- A byte that is a character. -/
theorem step_whole {a : Nat} (h : a < 0x80) : step none (UInt8.ofNat a).toNat = ([Char.ofNat a], none) := by
  rw [toNat_ofNat (by omega)]
  exact if_pos h

/-- The first of two bytes. -/
theorem step_two {a : Nat} (h : 2 ≤ a) (h' : a < 0x20) :
    step none (UInt8.ofNat (a + 0xc0)).toNat = ([], some ⟨1, 0x80, 0xbf, a⟩) := by
  rw [toNat_ofNat (by omega)]
  simp (disch := omega) only [step, first, if_neg, if_pos, Nat.add_sub_cancel]

/-- The first of three bytes. -/
theorem step_three {a : Nat} (h : a < 0x10) : step none (UInt8.ofNat (a + 0xe0)).toNat =
    ([], some ⟨2, if a = 0 then 0xa0 else 0x80, if a = 0xd then 0x9f else 0xbf, a⟩) := by
  have hlow : (a + 0xe0 = 0xe0) = (a = 0) := by simp
  have hhigh : (a + 0xe0 = 0xed) = (a = 0xd) := propext (by omega)
  rw [toNat_ofNat (by omega)]
  simp (disch := omega) only [step, first, if_neg, if_pos, Nat.add_sub_cancel, hlow, hhigh]

/-- The first of four bytes. -/
theorem step_four {a : Nat} (h : a < 5) : step none (UInt8.ofNat (a + 0xf0)).toNat =
    ([], some ⟨3, if a = 0 then 0x90 else 0x80, if a = 4 then 0x8f else 0xbf, a⟩) := by
  have hlow : (a + 0xf0 = 0xf0) = (a = 0) := by simp
  have hhigh : (a + 0xf0 = 0xf4) = (a = 4) := propext (by omega)
  rw [toNat_ofNat (by omega)]
  simp (disch := omega) only [step, first, if_neg, if_pos, Nat.add_sub_cancel, hlow, hhigh]

section

variable {low high bits a : Nat} (h : low ≤ a + 0x80) (h' : a + 0x80 ≤ high) (ha : a < 0x80)
include h h' ha

/-- A byte that continues a character. -/
theorem step_more (missing : Nat) :
    step (some ⟨missing + 2, low, high, bits⟩) (UInt8.ofNat (a + 0x80)).toNat =
      ([], some ⟨missing + 1, 0x80, 0xbf, bits * 64 + a⟩) := by
  rw [toNat_ofNat (by omega)]
  simp [step, h, h']

/-- A byte that ends a character. -/
theorem step_last : step (some ⟨1, low, high, bits⟩) (UInt8.ofNat (a + 0x80)).toNat =
    ([Char.ofNat (bits * 64 + a)], none) := by
  rw [toNat_ofNat (by omega)]
  simp [step, h, h']

end

/-! ## One character -/

/-- The bytes of a character: the first one opens it, the ones after it leave it open, and the last
one ends it. -/
inductive Spells (c : Char) : Option Opened → List UInt8 → Prop
  | last {o : Option Opened} {b : UInt8} : step o b.toNat = ([c], none) → Spells c o [b]
  | more {o : Option Opened} {o' : Opened} {b : UInt8} {bytes : List UInt8} :
    step o b.toNat = ([], some o') → Spells c (some o') bytes → Spells c o (b :: bytes)

theorem spells_utf8EncodeChar (c : Char) : Spells c none (utf8EncodeChar c) := by
  have hvalid : c.val.toNat < 0xd800 ∨ 0xdfff < c.val.toNat ∧ c.val.toNat < 0x110000 := c.valid
  have ends : ∀ {o : Option Opened} {b : UInt8} {n : Nat}, step o b.toNat = ([Char.ofNat n], none) →
      n = c.val.toNat → Spells c o [b] := fun h hn =>
    .last (by rw [h, hn]; exact congrArg (fun c => ([c], none)) (Char.ofNat_toNat c))
  rw [utf8EncodeChar]
  split
  · exact ends (step_whole (by omega)) rfl
  · split
    · refine .more (step_two (by omega) (by omega)) ?_
      exact ends (step_last (by omega) (by omega) (by omega)) (by omega)
    · split
      · refine .more (step_three (by omega)) ?_
        refine .more (step_more (by split <;> omega) (by split <;> omega) (by omega) 0) ?_
        exact ends (step_last (by omega) (by omega) (by omega)) (by omega)
      · refine .more (step_four (by omega)) ?_
        refine .more (step_more (by split <;> omega) (by split <;> omega) (by omega) 1) ?_
        refine .more (step_more (by omega) (by omega) (by omega) 0) ?_
        exact ends (step_last (by omega) (by omega) (by omega)) (by omega)

theorem Spells.decodeFrom_append {c : Char} {o : Option Opened} {bytes : List UInt8}
    (h : Spells c o bytes) (more : List UInt8) :
    decodeFrom o (bytes ++ more) = c :: decodeFrom none more := by
  induction h with
  | last h => simp [decodeFrom, h]
  | more h _ ih => simp [decodeFrom, h, ih]

theorem Spells.decodeFrom_take {c : Char} {o : Option Opened} {bytes : List UInt8}
    (h : Spells c o bytes) {n : Nat} (hn : n < bytes.length) (ho : o.isSome = true ∨ 0 < n) :
    decodeFrom o (bytes.take n) = [replacement] := by
  induction h generalizing n with
  | last h =>
    obtain rfl : n = 0 := by simpa using hn
    simp [decodeFrom, ho.resolve_right (by simp)]
  | more h _ ih =>
    cases n with
    | zero => simp [decodeFrom, ho.resolve_right (by simp)]
    | succ n =>
      rw [List.take_succ_cons, decodeFrom, h]
      exact ih (by simpa using hn) (.inl rfl)

theorem decodeFrom_char (c : Char) (bytes : List UInt8) :
    decodeFrom none (utf8EncodeChar c ++ bytes) = c :: decodeFrom none bytes :=
  (spells_utf8EncodeChar c).decodeFrom_append bytes

theorem decodeFrom_cut {c : Char} {n : Nat} (h : 0 < n) (hn : n < c.utf8Size) :
    decodeFrom none ((utf8EncodeChar c).take n) = [replacement] :=
  (spells_utf8EncodeChar c).decodeFrom_take (by rwa [String.length_utf8EncodeChar]) (.inr h)

/-! ## Texts -/

/-- How many characters start before a byte. -/
def charactersBefore : Nat → List Char → Nat
  | _, [] => 0
  | bytes, c :: cs => if bytes = 0 then 0 else charactersBefore (bytes - c.utf8Size) cs + 1

/-- Bytes that are cut off stand for as many characters as begin before the cut. -/
theorem length_decode_take (n : Nat) (cs : List Char) :
    (decode ((bytesOf cs).take n)).length = charactersBefore n cs := by
  induction cs generalizing n with
  | nil => simp [bytesOf, decode, decodeFrom, charactersBefore]
  | cons c cs ih =>
    have hsize := String.length_utf8EncodeChar c
    rw [bytesOf, List.flatMap_cons, ← bytesOf, List.take_append, hsize, charactersBefore]
    rcases Nat.eq_zero_or_pos n with rfl | hpos
    · simp [decode, decodeFrom]
    rw [if_neg (Nat.pos_iff_ne_zero.1 hpos)]
    rcases Nat.lt_or_ge n c.utf8Size with hn | hn
    · have hnone : charactersBefore 0 cs = 0 := by cases cs <;> simp [charactersBefore]
      rw [Nat.sub_eq_zero_of_le (Nat.le_of_lt hn), List.take_zero, List.append_nil, decode,
        decodeFrom_cut hpos hn, hnone]
      rfl
    · rw [List.take_of_length_le (hsize.trans_le hn), decode, decodeFrom_char, ← decode,
        List.length_cons, ih]

end EffectGraph.Utf8
