/-
How exactly the places of tokens are known.

The tokens of a file follow one another. The expression of a field in a
formatted literal is read from tokens of its own, which are counted from the
start of their line and then moved to the start of the field. Only those that
end on the line of the field are moved, so a text of several lines that begins
there seems to begin too far to the left. The lines are right all the same, and
so are the ends, and a name does not come to stand before the field
(`Token.Ordered.placed`). What holds of the places in either case is told by a
`Placing`.
-/
import EffectGraph.Proofs.Syntax.Token
import EffectGraph.Syntax.Grammar.Expression

namespace EffectGraph

namespace Pos

variable {p q start : Pos}

theorem le_iff : p ≤ q ↔ p.line < q.line ∨ p.line = q.line ∧ p.column ≤ q.column := by
  change p.le q = true ↔ _
  simp [le]

theorem line_le (h : p ≤ q) : p.line ≤ q.line := by
  rw [le_iff] at h
  omega

theorem next_mono (h : p ≤ q) (c : Char) : p.next c ≤ q.next c := by
  rw [le_iff] at h ⊢
  unfold next
  split <;> simp only <;> omega

theorem advance_mono (h : p ≤ q) (cs : List Char) : p.advance cs ≤ q.advance cs := by
  induction cs generalizing p q with
  | nil => exact h
  | cons c cs ih => exact ih (next_mono h c)

/-- A place that was counted from the start of its line, if the line is that of `start`, is counted
from `start` instead. -/
def moved (start p : Pos) : Pos :=
  if p.line = start.line then ⟨p.line, start.column + p.column⟩ else p

theorem line_moved : (moved start p).line = p.line := by
  unfold moved
  split <;> rfl

theorem moved_mono (h : p ≤ q) : moved start p ≤ moved start q := by
  rw [le_iff] at h ⊢
  unfold moved
  grind

theorem le_moved (h : start.line ≤ p.line) : start ≤ moved start p := by
  rw [le_iff]
  unfold moved
  grind

theorem moved_lineStart : moved start ⟨start.line, 0⟩ = start := by
  simp [moved]

theorem moved_next (h : start.line ≤ p.line) (c : Char) : moved start (p.next c) = (moved start p).next c := by
  by_cases hc : c = '\n'
  · have hline : p.line + 1 ≠ start.line := by omega
    simp only [next, moved, hc, hline, if_true, if_false]
    split <;> rfl
  · by_cases hp : p.line = start.line
    · simp [next, moved, hc, hp, Nat.add_assoc]
    · simp [next, moved, hc, hp]

theorem moved_advance (h : start.line ≤ p.line) (cs : List Char) :
    moved start (p.advance cs) = (moved start p).advance cs := by
  induction cs generalizing p with
  | nil => rfl
  | cons c cs ih =>
    have hnext : start.line ≤ (p.next c).line := Nat.le_trans h (line_le (p.le_next c))
    exact (ih hnext).trans (congrArg (·.advance cs) (moved_next h c))

end Pos

/-- How the places of what is read are known: exactly, or as those of what stands in a field of a
formatted literal. -/
inductive Placing where
  | exact
  | field (start : Pos)

namespace Placing

variable {σ : Placing} {p q r : Pos}

/-- What is known where one place follows another: in a field no more than the lines. -/
def Le : Placing → Pos → Pos → Prop
  | exact, p, q => p ≤ q
  | field _, p, q => p.line ≤ q.line

/-- What is known of the place of a name: in a field, that it is not before the field. -/
def Keeps : Placing → Pos → Prop
  | exact, _ => True
  | field start, p => start ≤ p

theorem Le.of_le (h : p ≤ q) : σ.Le p q := by
  cases σ with
  | exact => exact h
  | field start => exact Pos.line_le h

theorem Le.rfl : σ.Le p p := .of_le (le_refl p)

theorem Le.trans (h : σ.Le p q) (h' : σ.Le q r) : σ.Le p r := by
  cases σ with
  | exact => exact le_trans (α := Pos) h h'
  | field start => exact Nat.le_trans h h'

theorem Le.line_le (h : σ.Le p q) : p.line ≤ q.line := by
  cases σ with
  | exact => exact Pos.line_le h
  | field start => exact h

end Placing

namespace Token

variable {σ : Placing} {p p' q q' start : Pos} {t : Token} {ts : List Token}

/-- What is known of a single token: a text literal reaches over all of its characters, and it and a
name are not before the field, unless the literal reaches over several lines. -/
structure Stands (σ : Placing) (t : Token) : Prop where
  size : t.kind = .text → t.span.stop = t.span.start.advance t.text.toList
  text : t.kind = .text → σ.Keeps t.span.start ∨ t.span.start.line < t.span.stop.line
  name : t.kind = .name → σ.Keeps t.span.start

/-- Tokens whose ends follow one another from a place to another, and whose starts do as far as is
known. -/
inductive Placed (σ : Placing) : Pos → Pos → List Token → Prop
  | nil {p q : Pos} : p ≤ q → Placed σ p q []
  | cons {p q : Pos} {t : Token} {ts : List Token} : σ.Le p t.span.start → σ.Le t.span.start t.span.stop →
    p ≤ t.span.stop → t.Stands σ → Placed σ t.span.stop q ts → Placed σ p q (t :: ts)

theorem Placed.le (h : Placed σ p q ts) : p ≤ q := by
  induction h with
  | nil hpq => exact hpq
  | cons _ _ hstop _ _ ih => exact hstop.trans ih

theorem Placed.mono (h : Placed σ p q ts) (hp : p' ≤ p) : Placed σ p' q ts := by
  cases h with
  | nil hpq => exact .nil (hp.trans hpq)
  | cons hstart ht hstop hstands hts => exact .cons (.trans (.of_le hp) hstart) ht (hp.trans hstop) hstands hts

theorem Ordered.exact (h : Ordered p q ts) : Placed .exact p q ts := by
  induction h with
  | nil hpq => exact .nil hpq
  | cons hstart ht hshape _ ih =>
    exact .cons hstart ht (hstart.trans ht) ⟨hshape.1, fun _ => .inl trivial, fun _ => trivial⟩ ih

/-- A token that ends on the line of the field is moved as a whole. Of another one the end is in its
place. -/
theorem placed_cases (start : Pos) (t : Token) (hline : start.line ≤ t.span.start.line)
    (ht : t.span.start ≤ t.span.stop) :
    Grammar.placed start t = { t with span := ⟨.moved start t.span.start, .moved start t.span.stop⟩ } ∨
      Grammar.placed start t = t ∧ t.span.stop = .moved start t.span.stop ∧ start.line < t.span.stop.line := by
  have hle := Pos.line_le ht
  unfold Grammar.placed
  split
  · next hstop =>
    have hstart : t.span.start.line = start.line := by omega
    exact .inl (by simp [Pos.moved, hstart, hstop])
  · next hstop => exact .inr ⟨rfl, by simp [Pos.moved, hstop], by omega⟩

/-- The tokens of a field, once they are moved to the start of the field. -/
theorem Ordered.placed (h : Ordered p q ts) (hp : start.line ≤ p.line) :
    Placed (.field start) (.moved start p) (.moved start q) (ts.map (Grammar.placed start)) := by
  induction h with
  | nil hpq => exact .nil (Pos.moved_mono hpq)
  | @cons p q t ts hstart ht hshape _ ih =>
    have hline : start.line ≤ t.span.start.line := Nat.le_trans hp (Pos.line_le hstart)
    have hrest := ih (Nat.le_trans hline (Pos.line_le ht))
    have hstop : Pos.moved start p ≤ .moved start t.span.stop := Pos.moved_mono (hstart.trans ht)
    have hp' : (Pos.moved start p).line ≤ t.span.start.line := by
      rw [Pos.line_moved]
      exact Pos.line_le hstart
    rw [List.map_cons]
    rcases placed_cases start t hline ht with heq | ⟨heq, hmoved, hlater⟩
    · rw [heq]
      have hkeeps := Pos.le_moved hline
      refine .cons ?_ (.of_le (Pos.moved_mono ht)) hstop ⟨fun hk => ?_, fun _ => .inl hkeeps, fun _ => hkeeps⟩ hrest
      · exact Nat.le_trans hp' (Nat.le_of_eq Pos.line_moved.symm)
      · exact (congrArg _ (hshape.1 hk)).trans (Pos.moved_advance hline _)
    · rw [heq]
      -- What is not moved is a text that begins on the line of the field, or it begins further down.
      refine .cons hp' (.of_le ht) (hmoved ▸ hstop) ⟨hshape.1, fun _ => ?_, fun hk => ?_⟩ (hmoved ▸ hrest)
      · rw [or_iff_not_imp_right]
        exact fun hsame => Pos.le_iff.2 (.inl (by omega))
      · have hname := hshape.2 hk
        exact Pos.le_iff.2 (.inl (by omega))

end Token

end EffectGraph
