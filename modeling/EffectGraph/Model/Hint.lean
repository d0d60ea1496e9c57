/-
Declared types.

A type that the text declares for a parameter, a variable or a result is an
expression, or a text that holds one. A text is read as a file of its own
would be, so reading it can break off the whole analysis: it may hold a
character that no source can hold, nest too deeply, or take more of the
parser's stack than there is. The nodes of such an expression are numbered
after those of the file, so no table of the file has an entry for them.
-/
import EffectGraph.Syntax.Parse

namespace EffectGraph

/-- Why an analysis breaks off. -/
inductive Abort where
  /-- A declared type holds a null character. -/
  | nullCharacter
  /-- A declared type holds half of a surrogate pair. -/
  | surrogate
  /-- A declared type nests too deeply, or the body of a file does. -/
  | tooDeep
  /-- A declared type takes more of the parser's stack than there is. -/
  | overflow
  deriving DecidableEq, Repr, Inhabited

abbrev Analysis (α : Type) := Except Abort α

/-- What an expression says about its value: the names, members and calls it is made of, down to
the lambda expressions in them. -/
inductive Reference where
  | name (id : String)
  | member (base : Reference) (name : String)
  | call (callee : Reference)
  | lambda (node : Node)
  | other
  deriving Inhabited

mutual

/-- What a node says about its value. -/
def Reference.ofNode : Node → Reference
  | .mk i r k s cs =>
    match k with
    | .name id _ => .name id
    | .member attr _ => .member (Reference.ofFirst cs) attr
    | .call => .call (Reference.ofFirst cs)
    | .lambda => .lambda (.mk i r .lambda s cs)
    | _ => .other

/-- The base of a member access and the callee of a call come first. -/
def Reference.ofFirst : List Node → Reference
  | [] => .other
  | c :: _ => Reference.ofNode c

end

namespace Hint

/-- How deeply a declared type may nest. -/
def maxDepth : Nat := 900

/-- The expression of a declared type. The expression in a text is numbered from a given number
on, and a text that holds no expression stays as it is. -/
def read (first : Nat) (e : Node) : Analysis Node :=
  match e.kind with
  | .constant (.text s) =>
    if s.toList.contains '\x00' then .error .nullCharacter
    else
      match Node.parseExpression s with
      | .ok n => .ok (n.number first)
      | .error .malformed => .ok e
      | .error .tooDeep => .error .tooDeep
      | .error .overflow => .error .overflow
  | .constant .brokenText => .error .surrogate
  | _ => .ok e

/-- The last name of a dotted name, whatever brackets follow it. -/
def lastName? : Nat → Node → Analysis (Option String)
  | 0, _ => .error .tooDeep
  | n + 1, e =>
    match e.kind with
    | .name id _ => .ok (some id)
    | .member name _ => .ok (some name)
    | .subscript =>
      match e.part? .value with
      | some value => lastName? n value
      | none => .ok none
    | _ => .ok none

/-- Types whose first argument is the type that counts. -/
def wrappers : List String := ["Optional", "Annotated", "Final", "ClassVar"]

/-- Types whose values can be awaited. -/
def awaitableTypes : List String := ["Awaitable", "Coroutine", "Future", "Task", "Deferred"]

def isNone (e : Node) : Bool := e.kind == .constant .none

/-- The name of the class that a declared type means: of a union the first member that is not
`None`, of a wrapper its first argument. -/
def classNameBy (first : Nat) : Nat → Node → Analysis (Option Reference)
  | 0, _ => .error .tooDeep
  | n + 1, hint => do
    let e ← read first hint
    match e.kind with
    | .binOp true =>
      match e.part? .left, e.part? .right with
      | some left, some right => classNameBy first n (if isNone left then right else left)
      | _, _ => return none
    | .subscript =>
      match e.part? .value, e.part? .index with
      | some value, some index =>
        match ← lastName? maxDepth value with
        | some name =>
          if wrappers.contains name then
            classNameBy first n
              (if index.kind == .tuple then (index.part? .element).getD index else index)
          else return none
        | none => return none
      | _, _ => return none
    | .name .. | .member .. => return some (.ofNode e)
    | _ => return none

def className (first : Nat) (hint : Node) : Analysis (Option Reference) :=
  classNameBy first maxDepth hint

/-- Whether a declared type, or a member of a union, is one whose values can be awaited. Here only
names count, so the expressions in texts may have any numbers. -/
def isAwaitableBy : Nat → Node → Analysis Bool
  | 0, _ => .error .tooDeep
  | n + 1, hint => do
    let e ← read 0 hint
    match e.kind, e.part? .left, e.part? .right with
    | .binOp true, some left, some right =>
      if ← isAwaitableBy n left then return true
      else isAwaitableBy n right
    | _, _, _ =>
      match ← lastName? maxDepth e with
      | some name => return awaitableTypes.contains name
      | none => return false

def isAwaitable (hint : Node) : Analysis Bool :=
  isAwaitableBy maxDepth hint

end Hint

end EffectGraph
