/-
Sets of code points, written down as the ranges that make them up.
-/
import EffectGraph.Text.Pieces

namespace EffectGraph.Text

/-- The value of a hexadecimal digit. -/
def hexDigit? (c : Char) : Option Nat :=
  if '0' ≤ c ∧ c ≤ '9' then some (c.toNat - '0'.toNat)
  else if 'a' ≤ c ∧ c ≤ 'f' then some (c.toNat - 'a'.toNat + 10)
  else if 'A' ≤ c ∧ c ≤ 'F' then some (c.toNat - 'A'.toNat + 10)
  else none

/-- The number that a row of hexadecimal digits writes; other characters do not count. -/
def hexValue (cs : List Char) : Nat :=
  (cs.filterMap hexDigit?).foldl (fun n d => 16 * n + d) 0

/-- The non-empty pieces between blanks and line ends. -/
def words (s : String) : List (List Char) :=
  (pieces (fun c => c == ' ' || c == '\n') s.toList).filter (!·.isEmpty)

/-- A set of code points: ranges with both ends included. -/
structure CodeSet where
  ranges : List (Nat × Nat)
  deriving Inhabited

namespace CodeSet

/-- Reads ranges such as `aa c0-d6`. -/
def ofHex (s : String) : CodeSet where
  ranges := (words s).map fun w =>
    match pieces (· == '-') w with
    | [a, b] => (hexValue a, hexValue b)
    | _ => (hexValue w, hexValue w)

def contains (s : CodeSet) (c : Char) : Bool :=
  s.ranges.any fun (a, b) => a ≤ c.toNat && c.toNat ≤ b

end CodeSet

end EffectGraph.Text
