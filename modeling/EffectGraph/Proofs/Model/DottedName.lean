/-
The first part of a dotted name.

The names that a search goes through on its way from an import, the beginnings
of the imported name and the names of submodules, all have the same first part.
-/
import EffectGraph.Model.Project
import Mathlib.Data.List.TakeWhile

namespace EffectGraph

namespace Text

theorem pieces_eq_cons (p : Char → Bool) (cs : List Char) :
    ∃ ps, pieces p cs = cs.takeWhile (!p ·) :: ps := by
  induction cs with
  | nil => exact ⟨[], rfl⟩
  | cons c cs ih =>
    obtain ⟨ps, hps⟩ := ih
    rw [pieces]
    split
    · next hc => exact ⟨pieces p cs, by simp [hc]⟩
    · next hc => exact ⟨ps, by simp [hps, hc]⟩

end Text

/-- The part of a dotted name before its first dot. -/
def firstPart (name : String) : String := (Text.split '.' name).headD ""

theorem firstPart_eq (name : String) :
    firstPart name = String.ofList (name.toList.takeWhile (!· == '.')) := by
  obtain ⟨ps, hps⟩ := Text.pieces_eq_cons (· == '.') name.toList
  simp [firstPart, Text.split, hps]

theorem firstPart_dotted (name rest : String) (cs : List Char)
    (h : rest.toList = name.toList ++ '.' :: cs) : firstPart rest = firstPart name := by
  rw [firstPart_eq, firstPart_eq, h]
  congr 1
  rw [List.takeWhile_append]
  split
  · next hl =>
    have hall : name.toList.takeWhile (!· == '.') = name.toList := by
      exact (List.takeWhile_sublist _).eq_of_length hl
    simp [hall]
  · rfl

theorem firstPart_member (module name : String) : firstPart s!"{module}.{name}" = firstPart module :=
  firstPart_dotted module _ name.toList (by simp [toString])

/-- A beginning of a dotted name, cut at a dot, has the first part of the name. -/
theorem firstPart_intercalate_take (name : String) (n : Nat) :
    firstPart (".".intercalate ((Text.split '.' name).take (n + 1))) = firstPart name := by
  obtain ⟨ps, hps⟩ := Text.pieces_eq_cons (· == '.') name.toList
  have hsplit : Text.split '.' name = firstPart name :: ps.map String.ofList := by
    rw [firstPart_eq, Text.split, hps]
    rfl
  -- A name is its own first part if it holds no dot.
  have hidem : firstPart (firstPart name) = firstPart name := by
    rw [firstPart_eq (firstPart name), firstPart_eq name]
    congr 1
    rw [String.toList_ofList, List.takeWhile_idem]
  rw [hsplit, List.take_succ_cons]
  cases hrest : (ps.map String.ofList).take n with
  | nil =>
    rw [show ".".intercalate [firstPart name] = firstPart name from by simp]
    exact hidem
  | cons next rest =>
    rw [← hidem]
    refine firstPart_dotted _ _ (List.intercalate ['.'] ((next :: rest).map String.toList)) ?_
    rw [String.toList_intercalate]
    simp [List.intercalate, hidem]

end EffectGraph
