/-
The functions of a project.

A function is a `def`, an `async def`, or a lambda expression that is the value
of an annotated assignment or of an assignment with one target. A walk over the
tree of a file finds them in the order of the text. An id is made of the path,
the place and the name, so that it names one function of the project.
-/
import EffectGraph.Model.Query
import EffectGraph.Syntax.Descent

namespace EffectGraph

/-- What reports say about a function. -/
structure Label where
  id : String
  name : String
  path : String
  line : Nat
  character : Nat
  deriving DecidableEq, Repr, Inhabited

structure Function where
  label : Label
  parameters : List String
  receiver : Option String
  isAsync : Bool
  definition : Definition
  deriving Inhabited

namespace Function

def id (f : Function) : String := f.label.id

def node (f : Function) : Node := f.definition.node

def file (f : Function) : Nat := f.definition.file

end Function

/-- A function in a tree: its node, the name that the text gives it, and whether it stands directly
in a class. -/
structure FoundFunction where
  node : Node
  name : Option Identifier
  inClass : Bool
  deriving Inhabited

namespace Node

/-- The name that an assignment gives to its value. -/
def targetName? (n : Node) : Option Identifier :=
  match n.kind with
  | .name id _ => some id
  | .member name _ => some name
  | _ => none

/-- The function that a statement introduces. -/
def introduced? (n : Node) (inClass : Bool) : Option FoundFunction :=
  match n.kind, n.parts .target, n.part? .value with
  | .functionDef name _, _, _ => some ⟨n, some name, inClass⟩
  | .assign, [target], some value | .annAssign, [target], some value =>
    if value.kind == .lambda then some ⟨value, target.targetName?, inClass⟩ else none
  | _, _, _ => none

/-- Whether a part of a node stands directly in a class. -/
def partInClass (n : Node) (inClass : Bool) (r : Role) : Bool :=
  match n.kind with
  | .functionDef .. | .lambda => false
  | .classDef _ => r == .body
  | _ => inClass

end Node

/-- How the walk for functions goes on from a construct: into all parts in their order, or into the
parts in some roles and no others. The numbers say how many calls this takes. -/
inductive Route where
  | all (calls : Nat)
  | only (roles : List (Role × Nat))

namespace Route

def order {α : Type} (parts : List (Role × α)) : Route → List α
  | all _ => parts.map (·.2)
  | only roles => roles.flatMap fun x => (parts.filter (·.1 == x.1)).map (·.2)

def calls? (r : Role) : Route → Option Nat
  | all n => some n
  | only roles => roles.lookup r

end Route

namespace Node

/-- A class is read from its body on and without its keywords. An assignment that introduces a
function is read from the function on and without its hint. -/
def route (n : Node) : Route :=
  match n.kind with
  | .functionDef .. | .lambda => .all 4
  | .classDef _ => .only [(.body, 2), (.decorator, 3), (.base, 3)]
  | .assign | .annAssign =>
    if (n.introduced? false).isSome then .only [(.value, 0), (.target, 2)] else .all 3
  | _ => .all 2

mutual

/-- The functions of a tree, in the order of the walk. -/
def functions (inClass : Bool) : Node → List FoundFunction
  | mk i r k s cs =>
    ((mk i r k s cs).introduced? inClass).toList ++
      ((mk i r k s cs).route.order (partFunctions (mk i r k s cs) inClass cs)).flatten

def partFunctions (n : Node) (inClass : Bool) : List Node → List (Role × List FoundFunction)
  | [] => []
  | c :: cs => (c.role, functions (n.partInClass inClass c.role) c) :: partFunctions n inClass cs

end

/-- The way down of the walk for functions. -/
def functionDescent : Descent Unit := fun _ n r => (n.route.calls? r).map (·, ())

end Node

namespace FoundFunction

/-- The id of a function. -/
def idOf (path : String) (offset : Nat) (name : String) : String :=
  s!"{path}:{offset}:{name}"

def toFunction (found : FoundFunction) (f : SourceFile) (file : Nat) : Function :=
  let (line, character) := f.position found.node
  let name := (found.name.map (·.text)).getD (anonymousName (line, character))
  { label := ⟨idOf f.path (f.offset found.node) name, name, f.path, line, character⟩
    parameters := found.node.parameters.map (·.argName)
    receiver := found.node.receiverName found.inClass
    isAsync :=
      match found.node.kind with
      | .functionDef _ isAsync => isAsync
      | _ => false
    definition := ⟨file, found.node⟩ }

end FoundFunction

namespace Project

/-- Whether one of the patterns occurs in a path. Empty patterns match nothing. -/
def isIgnored (ignore : List String) (path : String) : Bool :=
  (ignore.filter (!·.isEmpty)).any fun p =>
    Text.occursIn (SourcePath.forward p).toList (SourcePath.forward path).toList

/-- Whether the functions of a file are analysed. -/
def isAnalyzed (ignore : List String) (f : SourceFile) : Bool :=
  f.isProject && !isIgnored ignore f.path

/-- The functions of the project's own files that no pattern matches. -/
def functions (P : Project) (ignore : List String) : List Function :=
  P.files.zipIdx.flatMap fun (f, i) =>
    if isAnalyzed ignore f.source then
      (f.source.tree.root.functions false).map (·.toFunction f.source i)
    else []

/-- Whether the walk for functions gets to the end of a file. -/
def isWalkable (f : SourceFile) : Bool := f.tree.root.calls Node.functionDescent () ≤ maxCalls

/-- The functions of the project, unless one of the files nests too deeply for the walk. -/
def collect (P : Project) (ignore : List String) : Analysis (List Function) :=
  if P.files.all fun f => !isAnalyzed ignore f.source || isWalkable f.source then
    .ok (P.functions ignore)
  else .error .tooDeep

end Project

end EffectGraph
