/-
Side effects in the body of a function.

The body is read node by node, nested functions included, each node before its
parts. What a node shows is decided from the node alone, its scope, and what
its parts denote.
-/
import EffectGraph.Finding.Library
import EffectGraph.Finding.Result

namespace EffectGraph

/-- What makes a function impure. -/
inductive Effect where
  | mutatesParameter (name : String)
  | mutatesParameterVia (name method : String)
  | writesOuterScope (name : String)
  | mutatesReceiver (receiver path : String)
  | accessesGlobal (name : String)
  | accessesEnvironment
  | writesConsole
  | callsNondeterministic (name : String)
  | readsCurrentTime (name : String)
  | swallowsError
  deriving DecidableEq, Repr, Inhabited

def Effect.message : Effect → String
  | mutatesParameter name => s!"Mutates parameter `{name}`"
  | mutatesParameterVia name method => s!"Mutates parameter `{name}` via `{method}()`"
  | writesOuterScope name => s!"Writes to outer scope `{name}`"
  | mutatesReceiver receiver path => s!"Mutates `{receiver}.{path}`"
  | accessesGlobal name => s!"Accesses global `{name}`"
  | accessesEnvironment => "Accesses `os.environ` (non-deterministic)"
  | writesConsole => "Writes to console"
  | callsNondeterministic name => s!"Calls {name}() (non-deterministic)"
  | readsCurrentTime name => s!"Instantiates {name} (non-deterministic)"
  | swallowsError => "Empty except block (error swallowed)"

namespace Node

mutual

/-- The name at the left end of a chain of members, subscripts and stars. -/
def rootName? : Node → Option Node
  | mk i r k s cs =>
    match k with
    | .member .. | .subscript | .starred => rootNameOfFirst cs
    | .name .. => some (mk i r k s cs)
    | _ => none

def rootNameOfFirst : List Node → Option Node
  | [] => none
  | c :: _ => c.rootName?

end

mutual

/-- The names of a chain of members from the left; subscripts do not count. -/
def memberPath? : Node → Option (List String)
  | mk _ _ k _ cs =>
    match k with
    | .member name _ => (memberPathOfFirst cs).map (· ++ [name.text])
    | .subscript => memberPathOfFirst cs
    | .name id _ => some [id]
    | _ => none

def memberPathOfFirst : List Node → Option (List String)
  | [] => none
  | c :: _ => c.memberPath?

end

mutual

/-- The single targets in a target: tuples, lists and stars are taken apart. -/
def singleTargets : Node → List Node
  | mk i r k s cs =>
    match k with
    | .tuple | .list | .starred => singleTargetsAll cs
    | _ => [mk i r k s cs]

def singleTargetsAll : List Node → List Node
  | [] => []
  | c :: cs => c.singleTargets ++ singleTargetsAll cs

end

/-- The targets that a construct writes to. -/
def writtenTargets (n : Node) : List Node :=
  match n.kind with
  | .assign | .augAssign | .deleteStmt | .forLoop _ => n.parts .target
  | .annAssign => if (n.part? .value).isSome then n.parts .target else []
  | .withItem => n.parts .captured
  | _ => []

/-- A statement that does nothing. -/
def isPlaceholder (n : Node) : Bool :=
  match n.kind, (n.part? .value).map Node.kind with
  | .passStmt, _ => true
  | .exprStmt, some (.constant .ellipsis) => true
  | _, _ => false

end Node

namespace Project

/-- The parameters of a function without its receiver. -/
def ownParameters (f : Function) : List Node :=
  f.node.parameters.filter fun a => some a.argName != f.receiver

/-- Whether a name in the body of a function means one of its parameters. A name that is bound
nowhere counts as the parameter of that name. -/
def isParameter (P : Project) (f : Function) (n : Node) : Bool :=
  match n.kind with
  | .name id _ =>
    (ownParameters f).any (·.argName == id) &&
      match P.symbol? f.file n.index id with
      | none => true
      | some s => s.declarations.any fun d => (ownParameters f).any (·.index == d.node.index)
  | _ => false

/-- Writing to a name whose declarations all lie outside of the function. -/
def nameWriteEffects (P : Project) (f : Function) (n : Node) (name : String) : List Effect :=
  match P.symbol? f.file n.index name with
  | none => []
  | some s =>
    if s.declarations.all fun d => !f.node.encloses d.node then [.writesOuterScope name] else []

/-- Writing to a single target. -/
def writeEffects (P : Project) (f : Function) (target : Node) : List Effect :=
  let root := target.rootName?
  let onParameter := match root.map (fun r => (r, r.kind)) with
    | some (r, .name id _) => if P.isParameter f r then [Effect.mutatesParameter id] else []
    | _ => []
  let onName := match target.kind, root.map Node.kind, target.memberPath? with
    | .name id _, _, _ => P.nameWriteEffects f target id
    | _, some (.name id _), some (receiver :: attr :: rest) =>
      if some id.text == f.receiver then
        [Effect.mutatesReceiver receiver (".".intercalate (attr :: rest))]
      else []
    | _, _, _ => []
  onParameter ++ onName

/-- Using something that reaches outside of the program. -/
def referenceEffects (qualified : Option String) : List Effect :=
  match qualified with
  | none => []
  | some q =>
    (if Library.environment.contains q then [Effect.accessesEnvironment] else []) ++
      (if Library.consoleStreams.any fun stream =>
          q == stream || (stream ++ ".").toList.isPrefixOf q.toList
        then [.writesConsole] else [])

def globalEffects (qualified : Option String) : List Effect :=
  ((qualified.bind (Library.globalObjects.lookup ·)).map Effect.accessesGlobal).toList

/-- Calling something outside of the program. -/
def callEffects (qualified : Option String) : List Effect :=
  match qualified with
  | none => []
  | some q =>
    (if Library.consoleCalls.contains q then [Effect.writesConsole] else []) ++
      (if Library.environmentCalls.contains q then [.accessesEnvironment] else []) ++
      (if Library.nondeterministicCalls.contains q then [.callsNondeterministic q] else []) ++
      ((Library.currentTimeConstructors.lookup q).map Effect.readsCurrentTime).toList

/-- Calling a method that changes a parameter. -/
def methodEffects (P : Project) (f : Function) (func : Node) : List Effect :=
  match func.kind, (func.part? .value).bind Node.rootName? with
  | .member method _, some root =>
    match root.kind with
    | .name id _ =>
      if Library.mutatingMethods.contains method && P.isParameter f root then
        [.mutatesParameterVia id method]
      else []
    | _ => []
  | _, _ => []

/-- The effects that a node of a function's body shows, step by step. -/
def effectSteps (P : Project) (f : Function) (n : Node) : List (Analysis (List Effect)) :=
  let writes := (n.writtenTargets.flatMap Node.singleTargets).flatMap (P.writeEffects f)
  match n.kind with
  | .namedExpr =>
    [.ok ((n.parts .target).flatMap fun t =>
      match t.kind with
      | .name id _ => P.nameWriteEffects f t id
      | _ => [])]
  | .importStmt | .importFrom .. =>
    [.ok ((n.parts .importAlias).flatMap fun a =>
      match n.kind, a.kind with
      | .importStmt, .importAlias name asName => P.nameWriteEffects f a (Node.importedName name asName).1
      | _, .importAlias name asName =>
        if name == "*" then [] else P.nameWriteEffects f a (asName.getD name)
      | _, _ => [])]
  | .name _ .read =>
    [do
      let qualified ← P.qualifiedName f.file n
      return globalEffects qualified ++ referenceEffects qualified]
  | .member _ .read => [do return referenceEffects (← P.qualifiedName f.file n)]
  | .call =>
    match n.part? .func with
    | some func =>
      [.ok (P.methodEffects f func), do return callEffects (← P.qualifiedName f.file func)]
    | none => []
  | .exceptHandler name =>
    [.ok ((name.map (P.nameWriteEffects f n)).getD [] ++
      if n.bodyParts.all Node.isPlaceholder then [.swallowsError] else [])]
  | _ => [.ok writes]

/-- The effects of a function's body. -/
def effects (P : Project) (f : Function) : Analysis (List Effect) :=
  findingsOf ((f.node.bodyParts.flatMap Node.preorder).flatMap (P.effectSteps f))

/-- Whether a function is pure by itself. -/
def localPurity (P : Project) (f : Function) : Analysis PurityResult := do
  let reasons := ((← P.effects f).map (·.message)).eraseDups
  return { label := f.label, isPure := reasons.isEmpty, reasons }

end Project

end EffectGraph
