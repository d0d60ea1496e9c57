/-
Hazards of asynchronous code in the body of a function.

The body is read depth first. A node is looked at together with the two
constructs around it, and with whether it stands in a loop and whether it
belongs to the function itself or to one nested in it.
-/
import EffectGraph.Finding.Library
import EffectGraph.Finding.Result
import EffectGraph.Graph.Calls

namespace EffectGraph

inductive Hazard where
  | floating
  | floatingInLoop
  | unawaitedGather
  | gatherUnhandled
  | iterationCallback
  | listener
  | errorSwallowed
  | missingBoundary
  deriving DecidableEq, Repr, Inhabited

namespace Hazard

def message : Hazard → String
  | floating => "Floating awaitable"
  | floatingInLoop => "Floating awaitable inside loop"
  | unawaitedGather => "Unawaited asyncio.gather()"
  | gatherUnhandled => "asyncio.gather() contains unhandled awaitable"
  | iterationCallback => "Async callback inside iteration call"
  | listener => "Async event listener without boundary"
  | errorSwallowed => "Error swallowed in errback"
  | missingBoundary => "Async function contains await but has no error boundary (try/except)"

def severity : Hazard → Severity
  | floating | unawaitedGather | gatherUnhandled | errorSwallowed => .error
  | floatingInLoop | iterationCallback | listener | missingBoundary => .warning

def issue (h : Hazard) : AsyncIssue := ⟨h.message, h.severity⟩

/-- The hazards that leave something to await to the callers. -/
def awaitable : List Hazard := [floating, floatingInLoop, unawaitedGather, gatherUnhandled]

end Hazard

/-- A node of a body with what is around it. -/
structure Visit where
  node : Node
  parent : Node
  grandparent : Option Node
  inLoop : Bool
  ownScope : Bool
  deriving Inhabited

namespace Kind

def isLoop : Kind → Bool
  | forLoop _ | whileLoop => true
  | k => k.isComprehension

/-- Constructs that take care of the result of a call that is part of them. -/
def consumes : Kind → Bool
  | await | returnStmt | yield | yieldFrom | assign | annAssign | augAssign | namedExpr | call
  | keyword _ | lambda | list | tuple | set | dict | starred | comprehension _ | withItem => true
  | k => k.isComprehension

/-- Constructs at which a coroutine can be suspended. -/
def suspends : Kind → Bool
  | await | forLoop true | withStmt true | comprehension true => true
  | _ => false

end Kind

namespace Node

mutual

/-- A node and all nodes below it with what is around them, each before its parts. -/
def visits (parent : Node) (grandparent : Option Node) (inLoop ownScope : Bool) :
    Node → List Visit
  | mk i r k s cs =>
    ⟨mk i r k s cs, parent, grandparent, inLoop, ownScope⟩
      :: visitsAll (mk i r k s cs) (some parent) (inLoop || k.isLoop) (ownScope && !k.isFunction) cs

def visitsAll (parent : Node) (grandparent : Option Node) (inLoop ownScope : Bool) :
    List Node → List Visit
  | [] => []
  | c :: cs =>
    visits parent grandparent inLoop ownScope c ++ visitsAll parent grandparent inLoop ownScope cs

end

/-- The nodes of a function's body with what is around them. -/
def bodyVisits (n : Node) : List Visit :=
  n.bodyParts.flatMap (visits n none false true)

/-- An argument of a call by its place, unless it is starred. -/
def argument? (call : Node) (index : Nat) : Option Node :=
  match (call.parts .argument)[index]? with
  | some a => if a.kind == .starred then none else some a
  | none => none

/-- What a call hands over to be gathered: its arguments, and the elements of lists and tuples
that are written out. -/
def gathered (call : Node) : List Node :=
  (call.parts .argument).flatMap fun a =>
    let value := if a.kind == .starred then (a.part? .value).getD a else a
    if value.kind == .list || value.kind == .tuple then value.parts .element
    else if a.kind == .starred then [] else [a]

/-- A lambda expression that does nothing with its arguments. -/
def isEmptyHandler (n : Node) : Bool :=
  match n.kind, (n.part? .body).map Node.kind with
  | .lambda, some (.constant .none) | .lambda, some (.constant .ellipsis) => true
  | _, _ => false

/-- The name of the method that a call calls. -/
def methodName? (call : Node) : Option String :=
  match (call.part? .func).map Node.kind with
  | some (.member name _) => some name
  | _ => none

end Node

namespace Visit

/-- Whether something takes care of the result of a call: the construct around it, or a handler
that is attached to it at once. -/
def isConsumed (v : Visit) : Bool :=
  v.parent.kind.consumes ||
    match v.parent.kind, v.grandparent.map Node.kind with
    | .member name _, some .call => Library.chainMethods.contains name && v.parent.role == .func
    | _, _ => false

/-- A `try` statement that handles errors. -/
def isBoundary (v : Visit) : Bool :=
  match v.node.kind with
  | .tryStmt _ => (v.node.part? .handler).isSome
  | _ => false

end Visit

/-- What a walk notes about a function. -/
inductive Note where
  | hazard (h : Hazard)
  | suspends
  | boundary
  | callsAwaitable
  | awaitableCallee (id : String)
  deriving DecidableEq, Repr, Inhabited

namespace Project

/-- The argument of a call that is called back for each item. -/
def iterationCallback? (call : Node) (qualified : Option String) : Option Node :=
  match qualified.bind (Library.iterationCalls.lookup ·) with
  | some index => call.argument? index
  | none =>
    if (call.methodName?.map Library.iterationMethods.contains).getD false then call.argument? 0
    else none

/-- The argument of a call that is registered as a handler. -/
def listener? (call : Node) (qualified : Option String) : Option Node :=
  match qualified.bind (Library.listenerCalls.lookup ·) with
  | some index => call.argument? index
  | none => (call.methodName?.bind (Library.listenerMethods.lookup ·)).bind call.argument?

/-- Whether something that may be there is a function whose calls can be awaited. -/
def isAsyncHandler (P : Project) (file : Nat) (n : Option Node) : Analysis Bool :=
  match n with
  | some n => P.isAsyncCallable file n
  | none => .ok false

/-- Whether one of the nodes denotes something that can be awaited, looked at from the left. -/
def anyAwaitable (P : Project) (file : Nat) : List Node → Analysis Bool
  | [] => .ok false
  | n :: ns => do
    if ← P.isAwaitable file n then return true else P.anyAwaitable file ns

/-- What a call shows, step by step. -/
def callNotes (P : Project) (functions : List Function) (f : Function) (v : Visit) :
    List (Analysis (List Note)) :=
  let call := v.node
  let awaitable := P.isAwaitable f.file call
  let qualified : Analysis (Option String) :=
    match call.part? .func with
    | some func => P.qualifiedName f.file func
    | none => .ok none
  let noteIf (h : Hazard) (b : Bool) : List Note := if b then [.hazard h] else []
  let isOpenGather : Analysis Bool := do
    return ((← qualified).map Library.gatherCalls.contains).getD false && !v.isConsumed
  [ do
      if ← awaitable then
        return .callsAwaitable :: (if v.isConsumed then []
          else [.hazard (if v.inLoop then .floatingInLoop else .floating)])
      else return [],
    do
      if ← awaitable then
        return ((← P.calleeId functions f.file call).map Note.awaitableCallee).toList
      else return [],
    do return noteIf .unawaitedGather (← isOpenGather),
    do
      if ← isOpenGather then
        return noteIf .gatherUnhandled (← P.anyAwaitable f.file call.gathered)
      else return [],
    do return noteIf .iterationCallback
        (← P.isAsyncHandler f.file (iterationCallback? call (← qualified))),
    do return noteIf .listener (← P.isAsyncHandler f.file (listener? call (← qualified))),
    .ok (noteIf .errorSwallowed
      ((((call.methodName?.bind (Library.rejectionMethods.lookup ·)).bind call.argument?).map
        Node.isEmptyHandler).getD false)) ]

/-- What a node of a function's body shows, step by step. -/
def noteSteps (P : Project) (functions : List Function) (f : Function) (v : Visit) :
    List (Analysis (List Note)) :=
  .ok ((if v.ownScope && v.node.kind.suspends then [Note.suspends] else []) ++
      if v.ownScope && v.isBoundary then [.boundary] else [])
    :: if v.node.isCall then P.callNotes functions f v else []

/-- What the body of a function shows. -/
def notes (P : Project) (functions : List Function) (f : Function) : Analysis (List Note) :=
  findingsOf (f.node.bodyVisits.flatMap (P.noteSteps functions f))

/-- Whether a coroutine waits for something and handles no error. -/
def lacksBoundary (f : Function) (notes : List Note) : Bool :=
  f.isAsync && notes.contains .suspends && !notes.contains .boundary

/-- The hazards that the notes tell of, each once. -/
def hazardsOf (f : Function) (notes : List Note) : List Hazard :=
  let found := notes.filterMap fun
    | .hazard h => some h
    | _ => none
  found.eraseDups ++ if lacksBoundary f notes then [.missingBoundary] else []

/-- The hazards in a function by itself, and whether it calls anything that can be awaited. -/
structure AsyncFlow where
  result : AsyncResult
  callsAwaitable : Bool
  deriving Inhabited

def localFlow (P : Project) (functions : List Function) (f : Function) : Analysis AsyncFlow := do
  let notes ← P.notes functions f
  let callees := notes.filterMap fun
    | .awaitableCallee id => some id
    | _ => none
  return {
    result :=
      { label := f.label
        issues := (hazardsOf f notes).map (·.issue)
        awaitableCalls := callees.eraseDups }
    callsAwaitable := notes.contains .callsAwaitable }

end Project

end EffectGraph
