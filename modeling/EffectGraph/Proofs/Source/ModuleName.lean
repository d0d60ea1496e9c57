/-
The path of a source file always names a module.

Its last name ends in a letter. Taking off a source root, which ends in a slash,
leaves that letter where it is, so there is a name to take the suffix off.
-/
import Mathlib.Data.List.Basic
import EffectGraph.Disk.Basic

namespace EffectGraph

theorem Text.exists_piece {p : Char → Bool} {c : Char} (hc : p c = false) :
    ∀ {cs : List Char}, cs.getLast? = some c → ∃ piece ∈ pieces p cs, piece.getLast? = some c
  | [], h => by cases h
  | [d], h => by
    obtain rfl : d = c := by simpa using h
    exact ⟨[d], by simp [pieces, hc], rfl⟩
  | d :: e :: cs, h => by
    rw [List.getLast?_cons_cons] at h
    obtain ⟨piece, hpiece, hlast⟩ := exists_piece hc h
    rw [pieces]
    split
    · exact ⟨piece, List.mem_cons_of_mem _ hpiece, hlast⟩
    · split
      · next q qs hq =>
        rw [hq, List.mem_cons] at hpiece
        rcases hpiece with rfl | hpiece
        · refine ⟨d :: piece, by simp, ?_⟩
          cases piece with
          | nil => cases hlast
          | cons a as => rwa [List.getLast?_cons_cons]
        · exact ⟨piece, List.mem_cons_of_mem _ hpiece, hlast⟩
      · next hq => exact absurd hq (pieces_ne_nil p _)

namespace SourcePath

/-- Cutting off a source root leaves the end of a path as it is. -/
theorem getLast?_belowRoot {path : List Char} {roots : List String} {c : Char} (hc : c ≠ '/')
    (h : path.getLast? = some c) : (belowRoot path roots).getLast? = some c := by
  unfold belowRoot
  simp only
  split
  · next start hfind =>
    have hstart := List.mem_of_find?_eq_some hfind
    have hprefix := List.find?_some hfind
    obtain ⟨r, -, rfl⟩ := List.mem_map.1 hstart
    simp only [Bool.and_eq_true] at hprefix
    obtain ⟨rest, rfl⟩ := List.isPrefixOf_iff_prefix.1 hprefix.2
    rw [List.drop_left]
    cases rest with
    | nil =>
      rw [List.append_nil, List.getLast?_append, List.getLast?_singleton] at h
      exact absurd (Option.some.inj h).symm hc
    | cons d rest => rwa [List.getLast?_append_of_ne_nil _ (by simp)] at h
  · exact h

/-- The path of a source file names a module. -/
theorem exists_moduleName {path : String} (h : Disk.isSource path = true) (roots : List String) :
    ∃ name, moduleName path roots = .ok name := by
  obtain ⟨c, hc, hlast⟩ : ∃ c, (c = 'y' ∨ c = 'i') ∧ path.toList.getLast? = some c := by
    rcases Bool.or_eq_true_iff.1 h with h | h
    · obtain ⟨start, hstart⟩ := List.isSuffixOf_iff_suffix.1 h
      exact ⟨'y', .inl rfl, by rw [← hstart]; simp⟩
    · obtain ⟨start, hstart⟩ := List.isSuffixOf_iff_suffix.1 h
      exact ⟨'i', .inr rfl, by rw [← hstart]; simp⟩
  have hslash : c ≠ '/' := by rcases hc with rfl | rfl <;> decide
  have hdot : c ≠ '.' := by rcases hc with rfl | rfl <;> decide
  have hback : c ≠ '\\' := by rcases hc with rfl | rfl <;> decide
  have hforward : (forward path).toList.getLast? = some c := by
    simp [forward, Text.replace, hlast, hback]
  have hbelow : (belowRoot (forward path).toList roots).getLast? = some c :=
    getLast?_belowRoot hslash hforward
  obtain ⟨piece, hpiece, hend⟩ := Text.exists_piece (p := (· == '/')) (by simpa using hslash) hbelow
  unfold moduleName
  simp only
  split
  · next hnone =>
    -- The last name is there: it ends in a letter.
    unfold Path.withoutSuffix? at hnone
    split at hnone
    · cases hnone
    · next hnames =>
      rw [List.getLast?_eq_none_iff] at hnames
      refine absurd hnames (List.ne_nil_of_mem (a := String.ofList piece) (List.mem_filter.2 ⟨?_, ?_⟩))
      · rw [Text.split, String.toList_ofList]
        exact List.mem_map_of_mem hpiece
      · have hempty : String.ofList piece ≠ "" := by
          intro he
          obtain rfl : piece = [] := by simpa using congrArg String.toList he
          cases hend
        have hself : String.ofList piece ≠ "." := by
          intro he
          obtain rfl : piece = ['.'] := by simpa using congrArg String.toList he
          exact hdot (Option.some.inj hend).symm
        simp [hempty, hself]
  · exact ⟨_, rfl⟩

end SourcePath

end EffectGraph
