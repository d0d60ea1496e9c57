/-
The offset of a place is the number of characters before it.

A text cut at any point falls into whole lines and the start of one more line
(`exists_line`), and the place after the first part counts those lines and the
bytes of that start. So the characters of a text have the offsets 0, 1, 2 and
so on (`map_offset_along`): no two of them share one.
-/
import EffectGraph.Text.Lines
import EffectGraph.Proofs.Syntax.Token
import EffectGraph.Proofs.Text.Utf8
import Mathlib.Algebra.Ring.Nat

namespace EffectGraph.Text

open Utf8 (charactersBefore length_decode_take)

theorem linesOf_ne_nil (cs : List Char) : linesOf cs ≠ [] := by
  cases cs with
  | nil => simp [linesOf]
  | cons c cs =>
    rw [linesOf]
    split
    · simp
    · split <;> simp

theorem linesOf_cons {c : Char} {cs line : List Char} {lines : List (List Char)} (hc : c ≠ '\n')
    (h : linesOf cs = line :: lines) : linesOf (c :: cs) = (c :: line) :: lines := by
  rw [linesOf, if_neg hc, h]

/-- The text before a place is made of the lines above it and the start of its own line. A text
that begins inside a line adds its column to that of its first line only. -/
theorem exists_line (p : Pos) (cs ds : List Char) : ∃ above before after below,
    linesOf (cs ++ ds) = above ++ (before ++ after) :: below ∧
      p.advance cs = ⟨p.line + above.length,
        (if above = [] then p.column else 0) + (before.map Char.utf8Size).sum⟩ ∧
      cs = above.flatten ++ before := by
  induction cs generalizing p with
  | nil =>
    obtain ⟨line, lines, h⟩ := List.exists_cons_of_ne_nil (linesOf_ne_nil ds)
    exact ⟨[], [], line, lines, h, by simp [Pos.advance], rfl⟩
  | cons c cs ih =>
    obtain ⟨above, before, after, below, hlines, hplace, hcs⟩ := ih (p.next c)
    rw [List.cons_append]
    by_cases hc : c = '\n'
    · subst hc
      refine ⟨['\n'] :: above, before, after, below, ?_, ?_, ?_⟩
      · rw [linesOf, if_pos rfl, hlines, List.cons_append]
      · have hcolumn : (p.next '\n').column = 0 := rfl
        have hline : (p.next '\n').line = p.line + 1 := rfl
        rw [Pos.advance, List.foldl_cons, ← Pos.advance, hplace, hcolumn, hline]
        simp [Nat.add_assoc, Nat.add_comm 1]
      · simp [hcs]
    · have hnext : p.next c = ⟨p.line, p.column + c.utf8Size⟩ := if_neg hc
      rw [Pos.advance, List.foldl_cons, ← Pos.advance, hplace, hnext]
      cases above with
      | nil =>
        refine ⟨[], c :: before, after, below, linesOf_cons hc hlines, ?_, ?_⟩
        · simp [Nat.add_assoc]
        · simpa using hcs
      | cons line above =>
        refine ⟨(c :: line) :: above, before, after, below, linesOf_cons hc hlines, ?_, ?_⟩
        · simp
        · simp [hcs]

theorem charactersBefore_append (before after : List Char) :
    charactersBefore (before.map Char.utf8Size).sum (before ++ after) = before.length := by
  induction before with
  | nil => cases after <;> simp [charactersBefore]
  | cons c before ih =>
    have hsize : c.utf8Size + (before.map Char.utf8Size).sum ≠ 0 := by
      have := c.utf8Size_pos
      omega
    rw [List.map_cons, List.sum_cons, List.cons_append, charactersBefore, if_neg hsize,
      Nat.add_sub_cancel_left, ih, List.length_cons]

namespace Lines

variable {text : String}

theorem offset_advance {cs : List Char} (ds : List Char) (h : text.toList = cs ++ ds) :
    (ofText text).offset (Pos.start.advance cs) = cs.length := by
  obtain ⟨above, before, after, below, hlines, hplace, hcs⟩ := exists_line .start cs ds
  rw [hplace]
  have hlength : cs.length = above.flatten.length + before.length := by
    rw [← List.length_append, ← hcs]
  simp [Pos.start, ofText, offset, lineStart, column, h, hlines, hlength, length_decode_take,
    charactersBefore_append]

theorem map_offset_along_advance {cs after : List Char} (before : List Char)
    (h : text.toList = before ++ cs ++ after) :
    ((Pos.start.advance before).along cs).map (ofText text).offset =
      List.range' before.length cs.length := by
  induction cs generalizing before with
  | nil => rfl
  | cons c cs ih =>
    have hnext : (Pos.start.advance before).next c = Pos.start.advance (before ++ [c]) := by
      rw [Pos.advance_append]
      rfl
    have hrest := ih (before ++ [c]) (by simp [h])
    rw [Pos.along, List.map_cons, hnext, hrest, offset_advance (c :: cs ++ after) (by simp [h])]
    simp [List.range'_succ]

/-- The offsets of the characters of a text, and of its end, count up from 0. -/
theorem map_offset_along (c : Char) :
    (Pos.start.along (text.toList ++ [c])).map (ofText text).offset =
      List.range (text.toList.length + 1) := by
  have hall := map_offset_along_advance [] text.toList.append_nil.symm
  have hend := offset_advance [] text.toList.append_nil.symm
  rw [Pos.along_append, List.map_append, List.range_succ, List.range_eq_range']
  exact congrArg₂ (· ++ ·) hall (congrArg (fun n => [n]) hend)

end Lines

end EffectGraph.Text
