/-
Places and characters.

A text has its characters, its bytes and its lines. The place before a character
counts the line feeds before it and the bytes after the last of them
(`Text.placeOf`), and going back from the place to the character is exact
(`offset_placeOf`, `column_placeOf`). A place that stands before no character,
because its column ends inside of one or past its line, is taken to stand after
the characters that begin before it (`column_eq_startingBefore`).
-/
import EffectGraph.Proofs.Text.Lines
import EffectGraph.Source.File
import Mathlib.Data.List.DropRight
import Mathlib.Data.String.Basic

namespace EffectGraph

namespace Text

open Utf8 (charactersBefore length_decode_take)

/-- The number of bytes of a text. -/
def byteLength (cs : List Char) : Nat := (String.ofList cs).utf8ByteSize

/-- The characters after the last line feed. -/
def lastLine (cs : List Char) : List Char := cs.rtakeWhile (· != '\n')

/-- The place before a character: its line is 1 and the number of line feeds before, its column the
number of bytes after the last line feed. -/
def placeOf (text : String) (i : Nat) : Pos :=
  ⟨1 + (text.toList.take i).count '\n', byteLength (lastLine (text.toList.take i))⟩

/-- A line of a text, counted from 0, with the line feed that ends it. -/
def line? (text : String) (k : Nat) : Option (List Char) :=
  let pieces := text.toList.splitOn '\n'
  pieces[k]?.map fun piece => if k + 1 < pieces.length then piece ++ ['\n'] else piece

/-- How many characters of a line have their first byte before a byte of the line. -/
def startingBefore (line : List Char) (byte : Nat) : Nat :=
  (List.range line.length).countP fun k => byteLength (line.take k) < byte

/-! ## Bytes -/

theorem byteLength_eq_sum (cs : List Char) : byteLength cs = (cs.map Char.utf8Size).sum := by
  rw [byteLength, String.utf8ByteSize_ofList]
  induction cs with
  | nil => rfl
  | cons c cs ih => rw [String.utf8Len_cons, ih, List.map_cons, List.sum_cons, Nat.add_comm]

theorem byteLength_append (cs ds : List Char) : byteLength (cs ++ ds) = byteLength cs + byteLength ds := by
  simp [byteLength_eq_sum]

theorem byteLength_eq_zero {cs : List Char} : byteLength cs = 0 ↔ cs = [] := by
  rw [byteLength, String.utf8ByteSize_ofList, String.utf8Len_eq_zero]

/-- Every character has bytes, so the end of a text is told by its bytes. -/
theorem suffix_eq_of_byteLength_eq {cs s t : List Char} (hs : s <:+ cs) (ht : t <:+ cs)
    (h : byteLength s = byteLength t) : s = t := by
  rcases List.suffix_or_suffix_of_suffix hs ht with ⟨more, rfl⟩ | ⟨more, rfl⟩
  all_goals
    rw [byteLength_append] at h
    obtain rfl : more = [] := byteLength_eq_zero.1 (by omega)
    rfl

theorem charactersBefore_eq_startingBefore (byte : Nat) (line : List Char) :
    charactersBefore byte line = startingBefore line byte := by
  induction line generalizing byte with
  | nil => rfl
  | cons c line ih =>
    have hlater : ∀ k, byteLength ((c :: line).take (k + 1)) < byte ↔
        byteLength (line.take k) < byte - c.utf8Size := by
      intro k
      rw [List.take_succ_cons, byteLength_eq_sum, byteLength_eq_sum, List.map_cons, List.sum_cons]
      omega
    have hfirst : byteLength ((c :: line).take 0) = 0 := by simp [byteLength_eq_zero]
    rw [charactersBefore, startingBefore, List.length_cons, List.range_succ_eq_map, List.countP_cons,
      List.countP_map, hfirst]
    simp only [Function.comp_def, hlater]
    rw [← startingBefore, ← ih]
    by_cases hbyte : byte = 0
    · have hnone : charactersBefore 0 line = 0 := by cases line <;> simp [charactersBefore]
      simp [hbyte, hnone]
    · simp [hbyte, Nat.pos_of_ne_zero hbyte]

/-! ## Lines -/

theorem linesOf_eq_splitOn (cs : List Char) : ∃ pieces last, cs.splitOn '\n' = pieces ++ [last] ∧
    linesOf cs = pieces.map (· ++ ['\n']) ++ [last] := by
  induction cs with
  | nil => exact ⟨[], [], rfl, rfl⟩
  | cons c cs ih =>
    obtain ⟨pieces, last, hsplit, hlines⟩ := ih
    rw [List.splitOn, List.splitOnP_cons_eq_if_modifyHead, ← List.splitOn, hsplit, linesOf, hlines]
    by_cases hc : c = '\n'
    · exact ⟨[] :: pieces, last, by simp [hc], by simp [hc]⟩
    · cases pieces with
      | nil => exact ⟨[], c :: last, by simp [hc], by simp [hc]⟩
      | cons piece pieces => exact ⟨(c :: piece) :: pieces, last, by simp [hc], by simp [hc]⟩

theorem getElem?_linesOf (text : String) (k : Nat) : (linesOf text.toList)[k]? = line? text k := by
  obtain ⟨pieces, last, hsplit, hlines⟩ := linesOf_eq_splitOn text.toList
  rw [line?, hsplit, hlines]
  rcases Nat.lt_trichotomy k pieces.length with hk | rfl | hk
  · simp [List.getElem?_append_left, hk]
  · simp
  · rw [List.getElem?_eq_none (by simp; omega), List.getElem?_eq_none (by simp; omega)]
    rfl

/-! ## Places of characters -/

theorem lastLine_concat (cs : List Char) (c : Char) :
    lastLine (cs ++ [c]) = if c = '\n' then [] else lastLine cs ++ [c] := by
  simp [lastLine, List.rtakeWhile_concat]

theorem advance_start (cs : List Char) :
    Pos.start.advance cs = ⟨1 + cs.count '\n', byteLength (lastLine cs)⟩ := by
  induction cs using List.reverseRecOn with
  | nil => rfl
  | append_singleton cs c ih =>
    rw [Pos.advance_append, ih, lastLine_concat, List.count_append]
    by_cases hc : c = '\n'
    · simp [hc, Pos.advance, Pos.next, byteLength_eq_sum, Nat.add_assoc]
    · simp [hc, Pos.advance, Pos.next, byteLength_eq_sum]

theorem placeOf_eq_advance (text : String) (i : Nat) :
    placeOf text i = Pos.start.advance (text.toList.take i) :=
  (advance_start _).symm

/-- Further on in the text, the place is no earlier. -/
theorem placeOf_mono (text : String) {i j : Nat} (h : i ≤ j) : placeOf text i ≤ placeOf text j := by
  rw [placeOf_eq_advance, placeOf_eq_advance]
  obtain ⟨more, hmore⟩ := List.take_prefix_take_left (l := text.toList) h
  rw [← hmore, Pos.advance_append]
  exact Pos.le_advance _ _

namespace Lines

variable {text : String}

theorem offset_placeOf {i : Nat} (h : i ≤ text.toList.length) :
    (ofText text).offset (placeOf text i) = i := by
  rw [placeOf_eq_advance, offset_advance _ (List.take_append_drop i text.toList).symm,
    List.length_take_of_le h]

theorem column_placeOf (i : Nat) :
    (ofText text).column (placeOf text i) = (lastLine (text.toList.take i)).length := by
  obtain ⟨above, before, after, below, hlines, hplace, hcs⟩ :=
    exists_line .start (text.toList.take i) (text.toList.drop i)
  rw [List.take_append_drop] at hlines
  have hbytes : byteLength (lastLine (text.toList.take i)) = byteLength before := by
    have hcolumn := congrArg Pos.column ((advance_start _).symm.trans hplace)
    simpa [Pos.start, byteLength_eq_sum] using hcolumn
  have hlast : lastLine (text.toList.take i) = before :=
    suffix_eq_of_byteLength_eq (List.rtakeWhile_suffix _ _) ⟨_, hcs.symm⟩ hbytes
  rw [placeOf_eq_advance, hplace, hlast]
  simp [Pos.start, ofText, column, hlines, length_decode_take, charactersBefore_append]

theorem column_eq_startingBefore {p : Pos} {k : Nat} {line : List Char} (hp : p.line = k + 1)
    (h : line? text k = some line) : (ofText text).column p = startingBefore line p.column := by
  rw [column, hp, Nat.add_sub_cancel, ofText, getElem?_linesOf, h]
  exact (length_decode_take _ _).trans (charactersBefore_eq_startingBefore _ _)

end Lines

end Text

namespace SourceFile

open Text

/-- **Places and characters say the same.** A node that starts at the place of a character has the
index of the character as its offset, and its line and character count what stands before it. Where
a column ends inside of a character or past its line, the characters count that begin before it. The
offset grows with the place. -/
theorem offset_roundTrip (path module text : String) (tree : Tree) :
    let f : SourceFile := ⟨path, module, .ofText text, tree⟩
    (∀ i ≤ text.toList.length, ∀ n : Node, n.start = placeOf text i →
      f.offset n = i ∧
      f.position n = ((placeOf text i).line, (lastLine (text.toList.take i)).length + 1)) ∧
    (∀ (n : Node) (k : Nat) (line : List Char), n.start.line = k + 1 → line? text k = some line →
      f.position n = (k + 1, startingBefore line n.start.column + 1)) ∧
    ∀ i ≤ text.toList.length, ∀ j ≤ text.toList.length, ∀ m n : Node, m.start = placeOf text i →
      n.start = placeOf text j → m.start < n.start → f.offset m < f.offset n := by
  intro f
  have exact : ∀ i ≤ text.toList.length, ∀ n : Node, n.start = placeOf text i → f.offset n = i := by
    intro i hi n hn
    rw [offset, hn]
    exact Lines.offset_placeOf hi
  refine ⟨fun i hi n hn => ⟨exact i hi n hn, ?_⟩, fun n k line hk hline => ?_, ?_⟩
  · rw [position, hn, Lines.position, Lines.column_placeOf]
  · rw [position, Lines.position, Lines.column_eq_startingBefore hk hline, hk]
  · intro i hi j hj m n hm hn hlt
    rw [exact i hi m hm, exact j hj n hn]
    by_contra hle
    rw [hm, hn] at hlt
    exact hlt.not_ge (placeOf_mono text (Nat.le_of_not_lt hle))

/-- The second line starts with a character of four bytes. -/
theorem offset_roundTrip_wide :
    let text := "aé\n😀b"
    let f : SourceFile := ⟨"m.py", "m", .ofText text, default⟩
    let node (p : Pos) : Node := .new .passStmt ⟨p, p⟩ []
    placeOf text 3 = ⟨2, 0⟩ ∧ placeOf text 4 = ⟨2, 4⟩ ∧
      f.offset (node ⟨2, 4⟩) = 4 ∧ f.position (node ⟨2, 4⟩) = (2, 2) ∧
      f.position (node ⟨2, 3⟩) = (2, 2) ∧ f.position (node ⟨1, 9⟩) = (1, 4) ∧
      f.offset (node ⟨2, 0⟩) < f.offset (node ⟨2, 4⟩) := by
  intro text f node
  have hthree : placeOf text 3 = ⟨2, 0⟩ := by decide +kernel
  have hfour : placeOf text 4 = ⟨2, 4⟩ := by decide +kernel
  obtain ⟨hindex, hline, hmono⟩ := offset_roundTrip "m.py" "m" text default
  obtain ⟨hoffset, hposition⟩ := hindex 4 (by decide +kernel) (node ⟨2, 4⟩) hfour.symm
  refine ⟨hthree, hfour, hoffset, hposition.trans (by decide +kernel), ?_, ?_, ?_⟩
  · exact (hline (node ⟨2, 3⟩) 1 ['😀', 'b'] rfl (by decide +kernel)).trans (by decide +kernel)
  · exact (hline (node ⟨1, 9⟩) 0 ['a', 'é', '\n'] rfl (by decide +kernel)).trans (by decide +kernel)
  · exact hmono 3 (by decide +kernel) 4 (by decide +kernel) _ _ hthree.symm hfour.symm
      ⟨by decide, by decide⟩

end SourceFile

end EffectGraph
