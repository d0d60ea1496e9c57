/-
Scopes and the rule by which a name finds its scope.

A chain is a scope and the scopes around it, from the inside out; the last one
is the module's. `Chain.lookup` is the language's rule: `global` goes to the
module, `nonlocal` to the nearest function that knows the name, and otherwise
the nearest scope that binds the name wins, where the scope of a class serves
only the code that stands directly in it.
-/
import EffectGraph.Syntax.Node

namespace EffectGraph

inductive ScopeKind where
  | module
  | classBody
  | function
  | comprehension
  deriving DecidableEq, Repr, Inhabited

def ScopeKind.label : ScopeKind → String
  | module => "module"
  | classBody => "class"
  | function => "function"
  | comprehension => "comprehension"

/-- The kind of scope a construct opens, if it opens one. -/
def Kind.scopeKind? : Kind → Option ScopeKind
  | .module => some .module
  | .classDef _ => some .classBody
  | .functionDef .. | .lambda => some .function
  | .listComp | .setComp | .dictComp | .generatorExp => some .comprehension
  | _ => none

/-- How a name came to be bound. -/
inductive BindingKind where
  | functionDef
  | classDef
  | imported
  | parameter
  | assignment
  | other
  deriving DecidableEq, Repr, Inhabited

def BindingKind.label : BindingKind → String
  | functionDef => "function"
  | classDef => "class"
  | imported => "import"
  | parameter => "parameter"
  | assignment => "assignment"
  | other => "other"

/-- A place in the text that binds a name. -/
structure Binding where
  name : String
  kind : BindingKind
  node : Node
  /-- The expression whose value the name gets, if the text gives it one. -/
  value : Option Node
  /-- For an import, the dotted name that is bound. -/
  target : Option String
  /-- The type that the text declares for the name. -/
  hint : Option Node
  deriving Inhabited

/-- A value that a method stores in an attribute of its receiver, and the scope of the method. -/
structure StoredAttribute where
  name : String
  value : Node
  method : Nat
  deriving Inhabited

/-- A scope is named by the number of the node that opens it. -/
structure Scope where
  node : Node
  kind : ScopeKind
  receiver : Option String
  /-- The scopes around this one, from the inside out. -/
  ancestors : List Nat
  /-- In the order of the text. -/
  bindings : List Binding
  globals : List String
  nonlocals : List String
  /-- For a class, what its methods store in their receiver. -/
  stored : List StoredAttribute
  deriving Inhabited

namespace Scope

def id (s : Scope) : Nat := s.node.index

/-- The bindings of a name, in the order of the text. -/
def bindingsOf (s : Scope) (name : String) : List Binding :=
  s.bindings.filter (·.name == name)

/-- The binding of a name that counts: the last one. -/
def lastBinding? (s : Scope) (name : String) : Option Binding :=
  (s.bindingsOf name).getLast?

def binds (s : Scope) (name : String) : Bool :=
  s.bindings.any (·.name == name)

/-- The names a scope binds, each once, in the order of their first bindings. -/
def names (s : Scope) : List String :=
  (s.bindings.map (·.name)).eraseDups

end Scope

/-- A scope and the scopes around it, from the inside out. -/
abbrev Chain := List Scope

/-- How a search comes to a scope. -/
inductive Reach where
  /-- The code that uses the name stands directly in the scope. -/
  | directly
  /-- The code stands in a scope further inside, which does not know the name. -/
  | outward
  /-- A scope further inside declares the name nonlocal. -/
  | nonlocally
  deriving DecidableEq, Repr

/-- Whether a search goes past a scope. Only code directly in a class sees the names of the class;
a nonlocal name needs a scope that knows it. -/
def Reach.passes (reach : Reach) (name : String) (s : Scope) : Bool :=
  match reach with
  | .directly => false
  | .outward => s.kind == .classBody
  | .nonlocally => s.kind == .classBody || !(s.binds name || s.nonlocals.contains name)

namespace Chain

/-- The outermost scope alone. -/
def outermost (c : Chain) : Chain := c.getLast?.toList

/-- The scope that a name belongs to, with the scopes around it. -/
def lookupBy (name : String) : Reach → Chain → Option Chain
  | _, [] => none
  | reach, s :: outer =>
    if reach = .nonlocally ∧ s.kind = .module then none
    else if reach.passes name s then lookupBy name reach outer
    else if s.globals.contains name then some (outermost (s :: outer))
    else if s.nonlocals.contains name then lookupBy name .nonlocally outer
    else if s.binds name then some (s :: outer)
    else lookupBy name .outward outer

def lookup (c : Chain) (name : String) : Option Chain :=
  lookupBy name .directly c

end Chain

end EffectGraph
