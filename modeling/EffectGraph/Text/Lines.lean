/-
Places in a text, as people count them.

A text is cut into lines at line feeds only, and a line keeps its line feed. A
place given by a line and a byte column becomes a character column and a
character offset: the bytes of the line up to the column are read back and the
characters counted. A column may end inside a character or past the line.
-/
import EffectGraph.Syntax.Node
import EffectGraph.Text.Utf8

namespace EffectGraph.Text

/-- The lines of a text, each with the line feed that ends it. The last one has none. -/
def linesOf : List Char → List (List Char)
  | [] => [[]]
  | c :: cs =>
    if c = '\n' then ['\n'] :: linesOf cs
    else
      match linesOf cs with
      | l :: ls => (c :: l) :: ls
      | [] => [[c]]

structure Lines where
  lines : List (List Char)
  deriving Inhabited

namespace Lines

def ofText (s : String) : Lines := ⟨linesOf s.toList⟩

/-- The character column of a place, from 0. Past the last line it is the byte column. -/
def column (ls : Lines) (p : Pos) : Nat :=
  match ls.lines[p.line - 1]? with
  | some line => (Utf8.decode ((Utf8.bytesOf line).take p.column)).length
  | none => p.column

/-- The line and the character of a place, both from 1. -/
def position (ls : Lines) (p : Pos) : Nat × Nat :=
  (p.line, ls.column p + 1)

/-- How many characters stand before a line. -/
def lineStart (ls : Lines) (line : Nat) : Nat :=
  (ls.lines.take (line - 1)).flatten.length

/-- The number of characters before a place. Past the last line it is the column. -/
def offset (ls : Lines) (p : Pos) : Nat :=
  if p.line - 1 < ls.lines.length then ls.lineStart p.line + ls.column p else ls.column p

end Lines

end EffectGraph.Text
