/-
Syntax trees of Python modules.

A tree is one kind of node throughout. A node knows what construct it is
(`Kind`), which part of its parent it is (`Role`), where it stands in the text
(`Span`) and its number in the tree. Its children come in the order of the
parts of the construct, so every walk over a tree is a walk over lists of
children, and a rule about one construct names the parts it means by role.
-/

namespace EffectGraph

/-- A place in a text: a line counted from 1 and a column counted in bytes from 0. -/
structure Pos where
  line : Nat
  column : Nat
  deriving DecidableEq, Repr, Inhabited

namespace Pos

def start : Pos := ⟨1, 0⟩

/-- Earlier line first, then earlier column. -/
def le (a b : Pos) : Bool :=
  a.line < b.line || (a.line == b.line && a.column ≤ b.column)

/-- The place after a character. -/
def next (p : Pos) (c : Char) : Pos :=
  if c = '\n' then ⟨p.line + 1, 0⟩ else ⟨p.line, p.column + c.utf8Size⟩

def advance (p : Pos) (cs : List Char) : Pos :=
  cs.foldl next p

end Pos

/-- A stretch of text, from the first byte of a construct to the byte after its last one. -/
structure Span where
  start : Pos
  stop : Pos
  deriving DecidableEq, Repr, Inhabited

namespace Span

def contains (outer inner : Span) : Bool :=
  outer.start.le inner.start && inner.stop.le outer.stop

end Span

/-- Whether an expression is read where it stands, or is bound or deleted there. -/
inductive Access where
  | read
  | write
  deriving DecidableEq, Repr, Inhabited

/-- The value of a constant, as far as the analyses look at it. A text that holds half of a
surrogate pair has no encoding, so only its existence is kept. -/
inductive Literal where
  | none
  | bool (value : Bool)
  | ellipsis
  | number
  | bytes
  | text (value : String)
  | brokenText
  deriving DecidableEq, Repr, Inhabited

/-- A character that may be part of a name: a letter, a digit, the underscore, or any beyond
ASCII. -/
def isWordChar (c : Char) : Bool := c.isAlphanum || c == '_' || 128 ≤ c.toNat

/-- A name as it stands in a tree. It holds no punctuation, so it can be told from the punctuation
that an id or a message puts around it. -/
structure Identifier where
  text : String
  isWord : text.toList.all isWordChar = true
  deriving DecidableEq, Repr

namespace Identifier

instance : Inhabited Identifier := ⟨⟨"", rfl⟩⟩

instance : Coe Identifier String := ⟨text⟩

/-- The identifier with a text, if the text can be one. -/
def ofText? (text : String) : Option Identifier :=
  if isWord : text.toList.all isWordChar = true then some ⟨text, isWord⟩ else none

end Identifier

/-- The constructs of the language. -/
inductive Kind where
  -- statements
  | module
  | functionDef (name : Identifier) (isAsync : Bool)
  | classDef (name : Identifier)
  | returnStmt
  | deleteStmt
  | assign
  | augAssign
  | annAssign
  | forLoop (isAsync : Bool)
  | whileLoop
  | ifStmt
  | withStmt (isAsync : Bool)
  | matchStmt
  | raiseStmt
  | tryStmt (isGroup : Bool)
  | assertStmt
  | importStmt
  | importFrom (module : String) (level : Nat)
  | globalStmt (names : List String)
  | nonlocalStmt (names : List String)
  | exprStmt
  | passStmt
  | breakStmt
  | continueStmt
  -- parts of statements and expressions
  | arguments
  | arg (name : Identifier)
  | keyword (name : Option String)
  | importAlias (name : String) (asName : Option String)
  | withItem
  | exceptHandler (name : Option String)
  | matchCase
  | comprehension (isAsync : Bool)
  -- patterns
  | matchValue
  | matchSingleton
  | matchSequence
  | matchMapping (rest : Option String)
  | matchClass
  | matchStar (name : Option String)
  | matchAs (name : Option String)
  | matchOr
  -- expressions
  | boolOp
  | namedExpr
  | binOp (isUnion : Bool)
  | unaryOp
  | lambda
  | ifExp
  | dict
  | set
  | listComp
  | setComp
  | dictComp
  | generatorExp
  | await
  | yield
  | yieldFrom
  | compare
  | call
  | formattedValue
  | joinedStr
  | constant (value : Literal)
  | member (name : Identifier) (access : Access)
  | subscript
  | starred
  | name (id : Identifier) (access : Access)
  | list
  | tuple
  | slice
  deriving DecidableEq, Repr, Inhabited

/-- The parts a construct can have. -/
inductive Role where
  | root
  | body
  | orelse
  | finalBody
  | handler
  | decorator
  | signature
  | returns
  | posonly
  | positional
  | vararg
  | kwonly
  | kwarg
  | default
  | kwDefault
  | hint
  | base
  | keyword
  | target
  | value
  | test
  | iter
  | item
  | context
  | captured
  | exception
  | cause
  | message
  | importAlias
  | subject
  | case
  | pattern
  | keyPattern
  | guard
  | key
  | left
  | right
  | operand
  | element
  | generator
  | condition
  | func
  | argument
  | index
  | lower
  | upper
  | step
  | formatSpec
  deriving DecidableEq, Repr, Inhabited

inductive Node where
  | mk (index : Nat) (role : Role) (kind : Kind) (span : Span) (children : List Node)
  deriving Inhabited

namespace Node

def index : Node → Nat
  | mk i _ _ _ _ => i

def role : Node → Role
  | mk _ r _ _ _ => r

def kind : Node → Kind
  | mk _ _ k _ _ => k

def span : Node → Span
  | mk _ _ _ s _ => s

def children : Node → List Node
  | mk _ _ _ _ cs => cs

/-- A node that is not yet numbered nor part of another one. -/
def new (kind : Kind) (span : Span) (children : List Node) : Node :=
  mk 0 .root kind span children

/-- The node in another role. -/
def as (r : Role) : Node → Node
  | mk i _ k s cs => mk i r k s cs

/-- The children in a role, in order. -/
def parts (n : Node) (r : Role) : List Node :=
  n.children.filter (·.role == r)

/-- The first child in a role. -/
def part? (n : Node) (r : Role) : Option Node :=
  n.children.find? (·.role == r)

def start (n : Node) : Pos := n.span.start

mutual

/-- The number of nodes. -/
def size : Node → Nat
  | mk _ _ _ _ cs => sizeAll cs + 1

def sizeAll : List Node → Nat
  | [] => 0
  | c :: cs => c.size + sizeAll cs

end

mutual

/-- How many nodes stand on the longest way down. -/
def height : Node → Nat
  | mk _ _ _ _ cs => heightAll cs + 1

def heightAll : List Node → Nat
  | [] => 0
  | c :: cs => max c.height (heightAll cs)

end

mutual

/-- A node and all nodes below it, each before its children. -/
def preorder : Node → List Node
  | mk i r k s cs => mk i r k s cs :: preorderAll cs

def preorderAll : List Node → List Node
  | [] => []
  | c :: cs => c.preorder ++ preorderAll cs

end

/-- Two sequences of levels, level by level. -/
def joinLevels : List (List Node) → List (List Node) → List (List Node)
  | [], ys => ys
  | xs, [] => xs
  | x :: xs, y :: ys => (x ++ y) :: joinLevels xs ys

mutual

/-- The nodes at distance 0, 1, 2, … below a node, each level from left to right. -/
def levels : Node → List (List Node)
  | mk i r k s cs => [mk i r k s cs] :: levelsAll cs

def levelsAll : List Node → List (List Node)
  | [] => []
  | c :: cs => joinLevels c.levels (levelsAll cs)

end

/-- A node and all nodes below it, level by level. -/
def levelOrder (n : Node) : List Node :=
  n.levels.flatten

mutual

/-- Numbers the nodes in preorder, from `n` on. -/
def number (n : Nat) : Node → Node
  | mk _ r k s cs => mk n r k s (numberAll (n + 1) cs)

def numberAll (n : Nat) : List Node → List Node
  | [] => []
  | c :: cs => c.number n :: numberAll (n + c.size) cs

end

mutual

theorem length_preorder : ∀ n : Node, n.preorder.length = n.size
  | mk _ _ _ _ cs => by simp [preorder, size, length_preorderAll cs]

theorem length_preorderAll : ∀ cs : List Node, (preorderAll cs).length = sizeAll cs
  | [] => rfl
  | c :: cs => by simp [preorderAll, sizeAll, length_preorder c, length_preorderAll cs]

end

mutual

theorem map_index_number (n : Nat) : ∀ m : Node,
    (m.number n).preorder.map index = List.range' n m.size
  | mk _ _ _ _ cs => by
    simp [number, preorder, size, index, map_index_numberAll (n + 1) cs, List.range'_succ]

theorem map_index_numberAll (n : Nat) : ∀ cs : List Node,
    (preorderAll (numberAll n cs)).map index = List.range' n (sizeAll cs)
  | [] => rfl
  | c :: cs => by
    simp [numberAll, preorderAll, sizeAll, map_index_number n c,
      map_index_numberAll (n + c.size) cs, List.range'_append_1]

end

end Node

namespace Kind

def isFunctionDef : Kind → Bool
  | functionDef .. => true
  | _ => false

/-- A function definition or a lambda expression. -/
def isFunction : Kind → Bool
  | functionDef .. | lambda => true
  | _ => false

def isComprehension : Kind → Bool
  | listComp | setComp | dictComp | generatorExp => true
  | _ => false

/-- The name of the construct in the language's abstract grammar. -/
def label : Kind → String
  | module => "Module"
  | functionDef _ false => "FunctionDef"
  | functionDef _ true => "AsyncFunctionDef"
  | classDef _ => "ClassDef"
  | returnStmt => "Return"
  | deleteStmt => "Delete"
  | assign => "Assign"
  | augAssign => "AugAssign"
  | annAssign => "AnnAssign"
  | forLoop false => "For"
  | forLoop true => "AsyncFor"
  | whileLoop => "While"
  | ifStmt => "If"
  | withStmt false => "With"
  | withStmt true => "AsyncWith"
  | matchStmt => "Match"
  | raiseStmt => "Raise"
  | tryStmt false => "Try"
  | tryStmt true => "TryStar"
  | assertStmt => "Assert"
  | importStmt => "Import"
  | importFrom .. => "ImportFrom"
  | globalStmt _ => "Global"
  | nonlocalStmt _ => "Nonlocal"
  | exprStmt => "Expr"
  | passStmt => "Pass"
  | breakStmt => "Break"
  | continueStmt => "Continue"
  | arguments => "arguments"
  | arg _ => "arg"
  | keyword _ => "keyword"
  | importAlias .. => "alias"
  | withItem => "withitem"
  | exceptHandler _ => "ExceptHandler"
  | matchCase => "match_case"
  | comprehension _ => "comprehension"
  | matchValue => "MatchValue"
  | matchSingleton => "MatchSingleton"
  | matchSequence => "MatchSequence"
  | matchMapping _ => "MatchMapping"
  | matchClass => "MatchClass"
  | matchStar _ => "MatchStar"
  | matchAs _ => "MatchAs"
  | matchOr => "MatchOr"
  | boolOp => "BoolOp"
  | namedExpr => "NamedExpr"
  | binOp _ => "BinOp"
  | unaryOp => "UnaryOp"
  | lambda => "Lambda"
  | ifExp => "IfExp"
  | dict => "Dict"
  | set => "Set"
  | listComp => "ListComp"
  | setComp => "SetComp"
  | dictComp => "DictComp"
  | generatorExp => "GeneratorExp"
  | await => "Await"
  | yield => "Yield"
  | yieldFrom => "YieldFrom"
  | compare => "Compare"
  | call => "Call"
  | formattedValue => "FormattedValue"
  | joinedStr => "JoinedStr"
  | constant _ => "Constant"
  | member .. => "Attribute"
  | subscript => "Subscript"
  | starred => "Starred"
  | name .. => "Name"
  | list => "List"
  | tuple => "Tuple"
  | slice => "Slice"

end Kind

namespace Node

/-- Whether the construct's text encloses another node's text. A module encloses everything
and is enclosed by nothing else. -/
def encloses (outer inner : Node) : Bool :=
  match outer.kind, inner.kind with
  | .module, _ => true
  | _, .module => false
  | _, _ => outer.span.contains inner.span

/-- The declared parameters of a function or lambda, in the order of its signature. -/
def parameters (n : Node) : List Node :=
  match n.part? .signature with
  | none => []
  | some s =>
    s.parts .posonly ++ s.parts .positional ++ s.parts .vararg ++ s.parts .kwonly ++ s.parts .kwarg

/-- The name a parameter declares. -/
def argName : Node → String
  | mk _ _ (.arg name) _ _ => name
  | _ => ""

/-- The statements of a function, or the one expression of a lambda. -/
def bodyParts (n : Node) : List Node :=
  n.parts .body

/-- The parameter that receives the instance or class, for a function defined directly in a
class body: the first positional one, unless the bare name `staticmethod` decorates it. -/
def receiverName (n : Node) (inClass : Bool) : Option String :=
  if !inClass then none
  else if (n.parts .decorator).any fun d =>
      match d.kind with
      | .name id _ => id.text == "staticmethod"
      | _ => false
  then none
  else
    match n.part? .signature with
    | none => none
    | some s => (s.parts .posonly ++ s.parts .positional).head?.map argName

/-- A definition that the bare name `classmethod` decorates. -/
def isClassMethod (n : Node) : Bool :=
  n.kind.isFunctionDef && (n.parts .decorator).any fun d =>
    match d.kind with
    | .name id _ => id.text == "classmethod"
    | _ => false

end Node

end EffectGraph
