/-
From text to syntax tree.
-/
import EffectGraph.Syntax.Grammar.Statement
import EffectGraph.Syntax.Tree

namespace EffectGraph

/-- A tree that is nested too deeply is refused as a whole. -/
def refuseDeep (n : Node) : Except Fault Node :=
  if n.height > Grammar.maxDepth then .error .tooDeep else .ok n

/-- The tree of a file. -/
def Tree.parse (text : String) : Except Fault Tree := do
  let tokens ← Token.scanFile text
  let (n, _) ← Grammar.file (.ofTokens tokens .start)
  match Tree.ofNode? (← refuseDeep n) with
  | some t => return t
  | none => throw .malformed

/-- The tree of an expression that stands alone. Its nodes belong to no file, so they have no
numbers. -/
def Node.parseExpression (text : String) : Except Fault Node := do
  let tokens ← Token.scanExpression text
  let (n, _) ← Grammar.standalone (.ofTokens tokens .start)
  refuseDeep n

end EffectGraph
