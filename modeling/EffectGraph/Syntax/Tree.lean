/-
The abstract grammar of the language, and whole trees.

A construct has parts in a fixed order, each in a role, of a category and as
often as the construct allows (`Kind.layout`). A tree is a file whose constructs
are all laid out so. Its nodes are numbered `0, 1, 2, …` in preorder, so a number
names one node, and a larger number none.
-/
import EffectGraph.Syntax.Node

namespace EffectGraph

/-- What kind of phrase a construct is. -/
inductive Category where
  | file
  | statement
  | expression
  | pattern
  | signature
  | parameter
  | keyword
  | importAlias
  | withItem
  | handler
  | matchCase
  | clause
  deriving DecidableEq, Repr

def Kind.category : Kind → Category
  | module => .file
  | functionDef .. | classDef _ | returnStmt | deleteStmt | assign | augAssign | annAssign | forLoop _
  | whileLoop | ifStmt | withStmt _ | matchStmt | raiseStmt | tryStmt _ | assertStmt | importStmt
  | importFrom .. | globalStmt _ | nonlocalStmt _ | exprStmt | passStmt | breakStmt | continueStmt =>
    .statement
  | arguments => .signature
  | arg _ => .parameter
  | keyword _ => .keyword
  | importAlias .. => .importAlias
  | withItem => .withItem
  | exceptHandler _ => .handler
  | matchCase => .matchCase
  | comprehension _ => .clause
  | matchValue | matchSingleton | matchSequence | matchMapping _ | matchClass | matchStar _ | matchAs _
  | matchOr => .pattern
  | boolOp | namedExpr | binOp _ | unaryOp | lambda | ifExp | dict | set | listComp | setComp | dictComp
  | generatorExp | await | yield | yieldFrom | compare | call | formattedValue | joinedStr | constant _
  | member .. | subscript | starred | name .. | list | tuple | slice => .expression

/-- How many parts a construct has in a role. -/
inductive Count where
  | one
  | optional
  | many
  | atLeastOne

def Count.allows : Count → Nat → Bool
  | one, n => n == 1
  | optional, n => n ≤ 1
  | many, _ => true
  | atLeastOne, n => 0 < n

structure Slot where
  role : Role
  count : Count
  category : Category

namespace Slot

abbrev one (r : Role) (k : Category) : Slot := ⟨r, .one, k⟩
abbrev optional (r : Role) (k : Category) : Slot := ⟨r, .optional, k⟩
abbrev many (r : Role) (k : Category) : Slot := ⟨r, .many, k⟩
abbrev atLeastOne (r : Role) (k : Category) : Slot := ⟨r, .atLeastOne, k⟩

end Slot

open Slot in
/-- The parts of a construct, in order. -/
def Kind.layout : Kind → List Slot
  | module => [many .body .statement]
  | functionDef .. =>
    [one .signature .signature, many .body .statement, many .decorator .expression,
     optional .returns .expression]
  | classDef _ =>
    [many .base .expression, many .keyword .keyword, many .body .statement,
     many .decorator .expression]
  | returnStmt => [optional .value .expression]
  | deleteStmt => [many .target .expression]
  | assign => [many .target .expression, one .value .expression]
  | augAssign => [one .target .expression, one .value .expression]
  | annAssign => [one .target .expression, one .hint .expression, optional .value .expression]
  | forLoop _ =>
    [one .target .expression, one .iter .expression, many .body .statement, many .orelse .statement]
  | whileLoop | ifStmt => [one .test .expression, many .body .statement, many .orelse .statement]
  | withStmt _ => [many .item .withItem, many .body .statement]
  | matchStmt => [one .subject .expression, many .case .matchCase]
  | raiseStmt => [optional .exception .expression, optional .cause .expression]
  | tryStmt _ =>
    [many .body .statement, many .handler .handler, many .orelse .statement,
     many .finalBody .statement]
  | assertStmt => [one .test .expression, optional .message .expression]
  | importStmt | importFrom .. => [many .importAlias .importAlias]
  | exprStmt => [one .value .expression]
  | globalStmt _ | nonlocalStmt _ | passStmt | breakStmt | continueStmt => []
  | arguments =>
    [many .posonly .parameter, many .positional .parameter, optional .vararg .parameter,
     many .kwonly .parameter, many .kwDefault .expression, optional .kwarg .parameter,
     many .default .expression]
  | arg _ => [optional .hint .expression]
  | keyword _ => [one .value .expression]
  | importAlias .. => []
  | withItem => [one .context .expression, optional .captured .expression]
  | exceptHandler _ => [optional .exception .expression, many .body .statement]
  | matchCase => [one .pattern .pattern, optional .guard .expression, many .body .statement]
  | comprehension _ =>
    [one .target .expression, one .iter .expression, many .condition .expression]
  | matchValue => [one .value .expression]
  | matchSingleton | matchStar _ => []
  | matchSequence | matchOr => [many .pattern .pattern]
  | matchMapping _ => [many .key .expression, many .pattern .pattern]
  | matchClass => [one .base .expression, many .pattern .pattern, many .keyPattern .pattern]
  | matchAs _ => [optional .pattern .pattern]
  | boolOp | joinedStr => [many .value .expression]
  | namedExpr => [one .target .expression, one .value .expression]
  | binOp _ => [one .left .expression, one .right .expression]
  | unaryOp => [one .operand .expression]
  | lambda => [one .signature .signature, one .body .expression]
  | ifExp => [one .test .expression, one .body .expression, one .orelse .expression]
  | dict => [many .key .expression, many .value .expression]
  | set | list | tuple => [many .element .expression]
  | listComp | setComp | generatorExp => [one .element .expression, atLeastOne .generator .clause]
  | dictComp => [one .key .expression, one .value .expression, atLeastOne .generator .clause]
  | await | yieldFrom | member .. | starred => [one .value .expression]
  | yield => [optional .value .expression]
  | compare => [one .left .expression, many .right .expression]
  | call => [one .func .expression, many .argument .expression, many .keyword .keyword]
  | formattedValue => [one .value .expression, optional .formatSpec .expression]
  | constant _ | name .. => []
  | subscript => [one .value .expression, one .index .expression]
  | slice => [optional .lower .expression, optional .upper .expression, optional .step .expression]

/-- Whether some nodes are the parts of a construct, block by block. -/
def areParts : List Slot → List Node → Bool
  | [], cs => cs.isEmpty
  | part :: parts, cs =>
    let block := cs.takeWhile (·.role == part.role)
    part.count.allows block.length && block.all (·.kind.category == part.category) &&
      areParts parts (cs.dropWhile (·.role == part.role))

namespace Node

mutual

/-- Whether a construct and all constructs in it have the parts that they should have. -/
def isWellFormed : Node → Bool
  | mk _ _ k _ cs => areParts k.layout cs && areWellFormed cs

def areWellFormed : List Node → Bool
  | [] => true
  | c :: cs => c.isWellFormed && areWellFormed cs

end

def isFile (n : Node) : Bool := n.kind.category == .file && n.isWellFormed

end Node

/-- A file with its nodes numbered in preorder. -/
structure Tree where
  root : Node
  size : Nat
  numbered : root.preorder.map Node.index = List.range size
  isFile : root.isFile = true

namespace Tree

/-- The tree of a file. The grammar gives nothing else. -/
def ofNode? (n : Node) : Option Tree :=
  if h : (n.number 0).isFile = true then
    some ⟨n.number 0, n.size, by rw [Node.map_index_number, List.range_eq_range'], h⟩
  else none

def nodes (t : Tree) : List Node := t.root.preorder

instance : Inhabited Tree := ⟨⟨.new .module default [], 1, rfl, rfl⟩⟩

end Tree

end EffectGraph
