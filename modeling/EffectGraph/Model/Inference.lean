/-
What an expression denotes.

Names follow scopes and imports. Members follow modules, classes with their
base classes in the project, and instances whose class is known from a
constructor call, a declared type or a value stored in the receiver. Anything
else is unknown.

Every step of the search is a function of a `Resolver`, which answers the
questions the step leads to. `resolver P n` answers with at most `n` steps: the
search for a value gives up when the steps are used up, which also ends it on
cyclic definitions.
-/
import EffectGraph.Model.Builtin
import EffectGraph.Model.Hint
import EffectGraph.Model.Project

namespace EffectGraph

/-- A construct of one of the project's files. -/
structure Definition where
  file : Nat
  node : Node
  deriving Inhabited

/-- Whether two constructs are the same one. -/
def Definition.same (a b : Definition) : Bool :=
  a.file == b.file && a.node.index == b.node.index

/-- What an expression can denote, as far as the text tells. -/
inductive Value where
  | module (name : String)
  | function (definition : Definition)
  | classObject (definition : Definition)
  | instanceOf (definition : Definition)
  /-- Something from outside the project, by its dotted name. -/
  | external (name : String)
  | awaitable
  deriving Inhabited

/-- Where an expression is read: its file, and its scope with the scopes around. -/
structure Site where
  file : Nat
  chain : Chain
  deriving Inhabited

abbrev Answer := Analysis (Option Value)

/-- Answers to the questions that a step of the search leads to. -/
structure Resolver where
  expression : Reference → Site → Answer
  name : String → Site → Answer
  binding : Binding → Site → Answer
  /-- The value of something declared to be of a type. -/
  hint : Node → Nat → Answer
  dotted : String → Answer
  member : Value → String → Answer
  classMember : Definition → String → Answer
  /-- What the methods of a class store in an attribute of their receiver. -/
  stored : Definition → String → Answer
  /-- The result of a call. -/
  result : Value → Answer
  /-- The base classes of a class that are classes of the project. -/
  bases : Definition → Analysis (List Definition)
  deriving Inhabited

namespace Node

mutual

/-- Whether a construct holds a `yield` of its own, outside of nested functions and classes. -/
def yields : Node → Bool
  | mk _ _ k _ cs =>
    match k with
    | .yield | .yieldFrom => true
    | .functionDef .. | .lambda | .classDef _ => false
    | _ => anyYields cs

def anyYields : List Node → Bool
  | [] => false
  | c :: cs => c.yields || anyYields cs

end

/-- Whether a function is a generator. -/
def isGenerator (n : Node) : Bool := n.bodyParts.any yields

/-- Whether a call of the definition gives something to await. -/
def isCoroutine (n : Node) : Bool :=
  match n.kind with
  | .functionDef _ true => !n.isGenerator
  | _ => false

end Node

/-- Goes through a class and its base classes, depth first, each class once, until one has what is
looked for. The base classes of a class are asked for only when the search goes past it. -/
def searchClasses {α : Type} (bases : Definition → Analysis (List Definition))
    (find : Definition → Analysis (Option α)) :
    Nat → List Definition → List Definition → Analysis (Option α)
  | 0, _, _ => .ok none
  | _ + 1, [], _ => .ok none
  | n + 1, c :: stack, seen =>
    if seen.any c.same then searchClasses bases find n stack seen
    else do
      match ← find c with
      | some a => return some a
      | none => searchClasses bases find n ((← bases c) ++ stack) (c :: seen)

/-- The first answer that is not unknown. -/
def firstKnown {α : Type} (ask : α → Answer) : List α → Answer
  | [] => .ok none
  | a :: rest => do
    match ← ask a with
    | some v => return some v
    | none => firstKnown ask rest

/-- A member of a member, and so on. -/
def followMembers (member : Value → String → Answer) : List String → Value → Answer
  | [], v => .ok (some v)
  | name :: names, v => do
    match ← member v name with
    | some w => followMembers member names w
    | none => return none

namespace Project

/-- Each class is expanded once, so a search through classes meets no more classes than there are
nodes, and the first one. -/
def searchBound (P : Project) : Nat := P.size + 2

/-- The longest beginning of a dotted name that is a module or package, and the names after it. -/
def splitDotted? (P : Project) (parts : List String) : Nat → Option (String × List String)
  | 0 => none
  | n + 1 =>
    let start := ".".intercalate (parts.take (n + 1))
    if P.hasModule start then some (start, parts.drop (n + 1)) else splitDotted? P parts n

namespace Step

def expression (r : Resolver) (e : Reference) (site : Site) : Answer :=
  match e with
  | .name id => r.name id site
  | .member base name => do
    match ← r.expression base site with
    | some v => r.member v name
    | none => return none
  | .call callee => do
    match ← r.expression callee site with
    | some v => r.result v
    | none => return none
  | .lambda node => .ok (some (.function ⟨site.file, node⟩))
  | .other => .ok none

def name (r : Resolver) (id : String) (site : Site) : Answer :=
  match site.chain.lookup id with
  | none => .ok (if Builtin.names.contains id then some (.external s!"builtins.{id}") else none)
  | some owner =>
    match owner.head?.bind (·.lastBinding? id) with
    | some b => r.binding b ⟨site.file, owner⟩
    | none => .ok none

/-- The value that a method's receiver has: an instance of the class, or the class itself. -/
def receiver? (b : Binding) (site : Site) : Option Value :=
  match site.chain with
  | owner :: parent :: _ =>
    if owner.receiver == some b.name && parent.kind == .classBody then
      let c : Definition := ⟨site.file, parent.node⟩
      some (if owner.node.isClassMethod then .classObject c else .instanceOf c)
    else none
  | _ => none

def declared (r : Resolver) (b : Binding) (site : Site) : Answer :=
  match b.hint with
  | some h => r.hint h site.file
  | none => .ok none

def binding (P : Project) (r : Resolver) (b : Binding) (site : Site) : Answer :=
  match b.kind with
  | .functionDef => .ok (some (.function ⟨site.file, b.node⟩))
  | .classDef => .ok (some (.classObject ⟨site.file, b.node⟩))
  | .imported =>
    match b.target with
    | some target => if target.isEmpty then .ok none else r.dotted target
    | none => .ok none
  | .parameter =>
    match receiver? b site with
    | some v => .ok (some v)
    | none => declared r b site
  | .assignment =>
    match b.value with
    | some v =>
      r.expression (.ofNode v) ⟨site.file, (P.chainOf? site.file v.index).getD site.chain⟩
    | none => declared r b site
  | .other => .ok none

def hint (P : Project) (r : Resolver) (h : Node) (file : Nat) : Answer := do
  match ← Hint.className (P.nodeCount file) h, P.chainOf? file h.index with
  | some e, some chain =>
    match ← r.expression e ⟨file, chain⟩ with
    | some (.classObject c) => return some (.instanceOf c)
    | _ => return none
  | _, _ => return none

def dotted (P : Project) (r : Resolver) (name : String) : Answer :=
  let parts := Text.split '.' name
  match P.splitDotted? parts parts.length with
  | some (module, rest) => followMembers r.member rest (.module module)
  | none => .ok (some (.external name))

def moduleMember (P : Project) (r : Resolver) (module name : String) : Answer :=
  let bound := do
    let i ← P.module? module
    let chain ← P.openedChain? i 0
    let b ← chain.head?.bind (·.lastBinding? name)
    return (b, (⟨i, chain⟩ : Site))
  match bound with
  | some (b, site) => r.binding b site
  | none =>
    let submodule := s!"{module}.{name}"
    .ok (if P.hasModule submodule then some (.module submodule) else none)

def member (P : Project) (r : Resolver) (base : Value) (name : String) : Answer :=
  match base with
  | .module m => moduleMember P r m name
  | .classObject c => r.classMember c name
  | .instanceOf c => do
    match ← r.classMember c name with
    | some v => return some v
    | none => r.stored c name
  | .external e => .ok (some (.external s!"{e}.{name}"))
  | .function _ | .awaitable => .ok none

def classMember (P : Project) (r : Resolver) (c : Definition) (name : String) : Answer := do
  let found ← searchClasses r.bases
    (fun k => do
      let bound := do
        let chain ← P.openedChain? k.file k.node.index
        let b ← chain.head?.bind (·.lastBinding? name)
        return (b, (⟨k.file, chain⟩ : Site))
      match bound with
      | some (b, site) => return some (← r.binding b site)
      | none => return none)
    P.searchBound [c] []
  return found.join

def stored (P : Project) (r : Resolver) (c : Definition) (name : String) : Answer :=
  searchClasses r.bases
    (fun k =>
      let scope := (P.openedChain? k.file k.node.index).bind (·.head?)
      let values := (scope.map (·.stored)).getD []
      firstKnown
        (fun a =>
          match P.openedChain? k.file a.method with
          | some chain => r.expression (.ofNode a.value) ⟨k.file, chain⟩
          | none => .ok none)
        (values.filter (·.name == name)))
    P.searchBound [c] []

def result (P : Project) (r : Resolver) (callee : Value) : Answer :=
  match callee with
  | .classObject c => .ok (some (.instanceOf c))
  | .instanceOf c => do
    match ← r.classMember c "__call__" with
    | some v => r.result v
    | none => return none
  | .external e =>
    if Builtin.awaitableCalls.contains e then .ok (some .awaitable)
    else .ok ((Builtin.resultTypes.lookup e).map .external)
  | .function d =>
    match d.node.kind with
    | .lambda =>
      match d.node.part? .body, P.openedChain? d.file d.node.index with
      | some body, some chain => r.expression (.ofNode body) ⟨d.file, chain⟩
      | _, _ => .ok none
    | _ =>
      if d.node.isCoroutine then .ok (some .awaitable)
      else
        match d.node.part? .returns with
        | some h => do
          if ← Hint.isAwaitable h then return some .awaitable else r.hint h d.file
        | none => .ok none
  | .module _ | .awaitable => .ok none

def bases (P : Project) (r : Resolver) (c : Definition) : Analysis (List Definition) :=
  match P.chainOf? c.file c.node.index with
  | some chain => do
    let values ← (c.node.parts .base).mapM fun b => r.expression (.ofNode b) ⟨c.file, chain⟩
    return values.filterMap fun
      | some (.classObject k) => some k
      | _ => none
  | none => .ok []

end Step

/-- One step of the search, with a resolver for the questions it leads to. -/
def step (P : Project) (r : Resolver) : Resolver where
  expression := Step.expression r
  name := Step.name r
  binding := Step.binding P r
  hint := Step.hint P r
  dotted := Step.dotted P r
  member := Step.member P r
  classMember := Step.classMember P r
  stored := Step.stored P r
  result := Step.result P r
  bases := Step.bases P r

/-- Knows nothing. -/
def ignorant : Resolver where
  expression _ _ := .ok none
  name _ _ := .ok none
  binding _ _ := .ok none
  hint _ _ := .ok none
  dotted _ := .ok none
  member _ _ := .ok none
  classMember _ _ := .ok none
  stored _ _ := .ok none
  result _ := .ok none
  bases _ := .ok []

/-- Answers within a number of steps. At 0 only what needs no further step is answered, and
expressions, bindings and members are not looked at any more. -/
def resolver (P : Project) : Nat → Resolver
  | 0 =>
    { step P ignorant with
      expression := ignorant.expression
      binding := ignorant.binding
      member := ignorant.member
      bases := ignorant.bases }
  | n + 1 => step P (resolver P n)

/-- The number of steps a search may take. -/
def maxSteps : Nat := 25

end Project

end EffectGraph
