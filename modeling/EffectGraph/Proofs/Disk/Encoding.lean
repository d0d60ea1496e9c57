/-
Texts that are read as they are written.

A file in UTF-8 without a byte order mark and without a declared encoding is
read back as its text (`read?_bytesOf`). The encoding is looked for in lines of
bytes, before it is known. They are the lines of the text, since a line feed is
the only character with a byte 10 (`firstLine_bytesOf`).
-/
import EffectGraph.Disk.Encoding
import EffectGraph.Text.Utf8
import Mathlib.Data.List.TakeWhile

namespace EffectGraph.Encoding

open Utf8 (bytesOf)

/-! ## Bytes of a text -/

theorem bytesOf_cons (c : Char) (cs : List Char) :
    bytesOf (c :: cs) = String.utf8EncodeChar c ++ bytesOf cs := rfl

theorem toByteArray_eq (bytes : List UInt8) : (⟨bytes.toArray⟩ : ByteArray) = bytes.toByteArray :=
  ByteArray.ext (by simp)

theorem utf8Text?_bytesOf (cs : List Char) : utf8Text? (bytesOf cs) = some (String.ofList cs) := by
  have hencode : (⟨(bytesOf cs).toArray⟩ : ByteArray) = cs.utf8Encode := toByteArray_eq _
  have hvalid : cs.utf8Encode.IsValidUTF8 := ByteArray.isValidUTF8_utf8Encode
  rw [utf8Text?, hencode, String.fromUTF8?, dif_pos hvalid]
  exact congrArg some (String.toByteArray_inj.1 (by simp [String.fromUTF8]))

/-- The mark is a character of its own. -/
theorem not_isPrefixOf_bytesOf {cs : List Char} (h : cs.head? ≠ some '\uFEFF') :
    mark.isPrefixOf (bytesOf cs) = false := by
  rw [Bool.eq_false_iff]
  intro hmark
  obtain ⟨rest, hrest⟩ := List.isPrefixOf_iff_prefix.1 hmark
  have hencode : ['\uFEFF'].utf8Encode ++ rest.toByteArray = cs.utf8Encode := by
    change List.toByteArray _ ++ _ = List.toByteArray _
    rw [← List.toByteArray_append]
    exact congrArg _ hrest
  obtain ⟨tail, rfl⟩ := List.isPrefix_of_utf8Encode_append_eq_utf8Encode _ hencode
  exact h rfl

theorem ne_ten_of_mem_utf8EncodeChar {c : Char} (hc : c ≠ '\n') :
    ∀ b ∈ String.utf8EncodeChar c, b ≠ 10 := by
  have hcode : c.val.toNat ≠ 10 := fun he => hc (Char.ext (UInt32.toNat_inj.1 he))
  have hbyte : ∀ {n : Nat}, n % 256 ≠ 10 → UInt8.ofNat n ≠ 10 := fun hn he => hn <| by
    simpa using congrArg UInt8.toNat he
  -- Beside the codes below 128, which are bytes, every byte is at least 128.
  have hhigh : ∀ {n : Nat}, 128 ≤ n → n < 256 → UInt8.ofNat n ≠ 10 := fun h h' => hbyte (by omega)
  intro b hb
  rw [String.utf8EncodeChar] at hb
  split at hb
  · obtain rfl := List.mem_singleton.1 hb
    exact hbyte (by omega)
  · split at hb
    · simp only [List.mem_cons, List.not_mem_nil, or_false] at hb
      rcases hb with rfl | rfl <;> exact hhigh (by omega) (by omega)
    · split at hb
      · simp only [List.mem_cons, List.not_mem_nil, or_false] at hb
        rcases hb with rfl | rfl | rfl <;> exact hhigh (by omega) (by omega)
      · simp only [List.mem_cons, List.not_mem_nil, or_false] at hb
        rcases hb with rfl | rfl | rfl | rfl <;> exact hhigh (by omega) (by omega)

/-! ## Lines -/

/-- The first line with its line feed, and the rest. -/
def textLine (cs : List Char) : List Char × List Char :=
  let line := cs.takeWhile (· != '\n')
  let rest := cs.drop line.length
  (line ++ rest.take 1, rest.drop 1)

theorem textLine_cons {c : Char} (hc : c ≠ '\n') (cs : List Char) :
    textLine (c :: cs) = (c :: (textLine cs).1, (textLine cs).2) := by
  simp [textLine, hc]

theorem firstLine_append {start : List UInt8} (h : ∀ b ∈ start, b ≠ 10) (bytes : List UInt8) :
    firstLine (start ++ bytes) = (start ++ (firstLine bytes).1, (firstLine bytes).2) := by
  have htake : (start ++ bytes).takeWhile (· != 10) = start ++ bytes.takeWhile (· != 10) :=
    List.takeWhile_append_of_pos (by simpa using h)
  simp [firstLine, htake]

theorem firstLine_bytesOf (cs : List Char) :
    firstLine (bytesOf cs) = (bytesOf (textLine cs).1, bytesOf (textLine cs).2) := by
  induction cs with
  | nil => rfl
  | cons c cs ih =>
    by_cases hc : c = '\n'
    · subst hc
      rfl
    · rw [bytesOf_cons, firstLine_append (ne_ten_of_mem_utf8EncodeChar hc), ih, textLine_cons hc]
      rfl

/-! ## Declarations -/

/-- Whether a comment in one of the first two lines names an encoding. The second line counts only
if there is nothing else than a comment in the first one. -/
def declares (text : String) : Bool :=
  let first := textLine text.toList
  (declared? first.1).isSome || (isBlankLine first.1 && (declared? (textLine first.2).1).isSome)

theorem ofLine_bytesOf {line : List Char} (h : declared? line = none) (marked : Bool) :
    ofLine marked (bytesOf line) = some none := by
  simp [ofLine, utf8Text?_bytesOf, h]

/-- A text without a mark and without a declared encoding is read back. -/
theorem read?_bytesOf {text : String} (hmark : text.toList.head? ≠ some '\uFEFF')
    (hdeclares : declares text = false) : read? (bytesOf text.toList) = some text := by
  have hunmarked := not_isPrefixOf_bytesOf hmark
  simp only [declares, Bool.or_eq_false_iff, Option.isSome_eq_false_iff, Option.isNone_iff_eq_none,
    Bool.and_eq_false_iff] at hdeclares
  obtain ⟨hfirst, hsecond⟩ := hdeclares
  have hutf8 : ofBytes? (bytesOf text.toList) = some utf8 := by
    simp only [ofBytes?, hunmarked, Bool.false_eq_true, if_false, firstLine_bytesOf,
      ofLine_bytesOf hfirst, utf8Text?_bytesOf, Option.map_some, Option.getD_some,
      String.toList_ofList]
    split
    · rfl
    · split
      · rfl
      · next hblank =>
        have hnone : declared? (textLine (textLine text.toList).2).1 = none :=
          hsecond.resolve_left (by simp_all)
        rw [ofLine_bytesOf hnone]
        rfl
  rw [read?, hutf8]
  simp [decode?, utf8Text?_bytesOf]

end EffectGraph.Encoding
