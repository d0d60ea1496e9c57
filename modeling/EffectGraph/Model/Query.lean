/-
Questions about the expressions of a project.

Each question is asked of a node of one of the project's files. The number of
steps that the search may take is a parameter of the questions that search;
the short names use the number that the analyses use.
-/
import EffectGraph.Model.Inference

namespace EffectGraph

/-- A name with the places that declare it and the bindings of it. -/
structure Symbol where
  name : String
  declarations : List Definition
  bindings : List Binding
  deriving Inhabited

namespace Project

/-- The bindings of a name, as seen from a node. A name that is declared global and bound nowhere
is declared by its module. -/
def symbol? (P : Project) (file node : Nat) (name : String) : Option Symbol :=
  match ((P.chainOf? file node).bind (·.lookup name)).bind (·.head?) with
  | none => none
  | some owner =>
    let bindings := owner.bindingsOf name
    let nodes := if bindings.isEmpty then [owner.node] else bindings.map (·.node)
    some ⟨name, nodes.map (⟨file, ·⟩), bindings⟩

/-- What a node denotes. -/
def valueBy (P : Project) (steps file : Nat) (node : Node) : Answer :=
  match P.chainOf? file node.index with
  | some chain => (P.resolver steps).expression (.ofNode node) ⟨file, chain⟩
  | none => .ok none

def value (P : Project) (file : Nat) (node : Node) : Answer :=
  P.valueBy maxSteps file node

/-- The function that a value runs when it is called: itself, or the method of a class or an
instance that stands for the call. -/
def calledFunctionBy (P : Project) (steps : Nat) (callee : Option Value) :
    Analysis (Option Definition) := do
  let method (c : Definition) (name : String) : Analysis (Option Definition) := do
    match ← (P.resolver steps).classMember c name with
    | some (.function d) => return some d
    | _ => return none
  match callee with
  | some (.function d) => return some d
  | some (.classObject c) => method c "__init__"
  | some (.instanceOf c) => method c "__call__"
  | _ => return none

/-- The function that a call runs. -/
def calleeBy (P : Project) (steps file : Nat) (call : Node) : Analysis (Option Definition) :=
  match call.part? .func with
  | some func => do P.calledFunctionBy steps (← P.valueBy steps file func)
  | none => .ok none

def callee (P : Project) (file : Nat) (call : Node) : Analysis (Option Definition) :=
  P.calleeBy maxSteps file call

/-- The dotted name of a value that has one. -/
def qualifiedNameOf (P : Project) : Option Value → Option String
  | some (.external name) | some (.module name) => some name
  | some (.function d) | some (.classObject d) =>
    match P.file? d.file, d.node.kind with
    | some f, .functionDef name _ | some f, .classDef name => some s!"{f.source.module}.{name.text}"
    | _, _ => none
  | _ => none

def qualifiedName (P : Project) (file : Nat) (node : Node) : Analysis (Option String) := do
  return P.qualifiedNameOf (← P.value file node)

/-- Whether a node denotes something that can be awaited. -/
def isAwaitable (P : Project) (file : Nat) (node : Node) : Analysis Bool := do
  match ← P.value file node with
  | some .awaitable => return true
  | some (.instanceOf c) =>
    return (← (P.resolver maxSteps).classMember c "__await__").isSome
  | _ => return false

/-- Whether a node denotes a function whose calls can be awaited. -/
def isAsyncCallable (P : Project) (file : Nat) (node : Node) : Analysis Bool := do
  match ← P.value file node with
  | some (.function d) =>
    match d.node.kind, d.node.part? .body with
    | .lambda, some body => P.isAwaitable d.file body
    | _, _ => return d.node.isCoroutine
  | _ => return false

end Project

end EffectGraph
