/-
The files of a project and what its modules are called.

Files stand in the order of their paths, so a project does not depend on the
order in which they were given. A file that nests too deeply to be analysed is
left out and reported like one that cannot be read.
-/
import EffectGraph.Scope.Table
import EffectGraph.Syntax.Descent

namespace EffectGraph

/-- The calls from a construct to a part of it in the walk that builds scopes. Signatures, items of
`with` and clauses of comprehensions are read with the construct that they belong to. -/
def Kind.callsTo (k : Kind) (r : Role) : Nat :=
  match k, r with
  | .functionDef .., .signature | .withStmt _, .item | .listComp, .generator | .setComp, .generator
  | .dictComp, .generator | .generatorExp, .generator | .arguments, .default
  | .arguments, .kwDefault => 3
  | .lambda, .signature | .comprehension _, .condition => 2
  | .arguments, _ | .arg _, _ | .withItem, _ | .comprehension _, _ => 1
  | .module, _ | .functionDef .., .returns | .classDef _, _ | .forLoop _, .iter | .forLoop _, .target
  | .exceptHandler _, .body | .matchAs _, _ | .matchMapping _, _ => 4
  | .functionDef .., _ | .forLoop _, _ | .withStmt _, _ | .listComp, _ | .setComp, _ | .dictComp, _
  | .generatorExp, _ => 5
  | _, _ => 3

/-- The way down of the walk that builds scopes. It keeps in mind whether names are bound where it
is: there a tuple, a list or a star takes one call, and everything else one more than elsewhere. -/
def Node.scopeDescent : Descent Manner := fun m n r =>
  let number :=
    match m, n.kind with
    | .target .., .tuple | .target .., .list | .target .., .starred => 1
    | .target .., k => k.callsTo r + 1
    | _, k => k.callsTo r
  some (number, n.mannerOf default m false r)

/-- The scopes of a file, unless it nests too deeply. -/
def ScopeTable.ofFile? (f : SourceFile) : Option ScopeTable :=
  if f.tree.root.calls Node.scopeDescent .plain > maxCalls then none else some (.ofFile f)

/-- A file with its scopes. -/
structure ScopedFile where
  source : SourceFile
  scopes : ScopeTable
  deriving Inhabited

/-- The files of a project in the order of their paths, and the files that are left out. The rest
is what the files' names say: the file of each module, the names of the packages, and how many
nodes there are. -/
structure Project where
  files : List ScopedFile
  skipped : List Skipped
  modules : List (String × Nat)
  packages : List String
  size : Nat
  deriving Inhabited

namespace Project

/-- The proper beginnings of a dotted name. -/
def packagesOf (module : String) : List String :=
  let parts := Text.split '.' module
  (List.range (parts.length - 1)).map fun i => ".".intercalate (parts.take (i + 1))

/-- The file of each module: the first one that implements it, otherwise the first one that
declares it. -/
def modulesOf (files : List SourceFile) : List (String × Nat) :=
  let named := files.zipIdx.map fun (f, i) => (f, (f.module, i))
  (named.filter (!·.1.isStub)).map (·.2) ++ (named.filter (·.1.isStub)).map (·.2)

/-- The project of some files, with the files that were left out before. -/
def ofFiles (sources : List SourceFile) (skipped : List Skipped) : Project :=
  let sorted := sources.mergeSort fun a b => !(b.path < a.path)
  let files := sorted.filterMap fun f => (ScopeTable.ofFile? f).map (⟨f, ·⟩)
  let deep := sorted.filter fun f => (ScopeTable.ofFile? f).isNone
  { files
    skipped := skipped ++ deep.map fun f => ⟨f.path, .tooDeepToAnalyze⟩
    modules := modulesOf (files.map (·.source))
    packages := files.flatMap fun f => packagesOf f.source.module
    size := Node.sizeAll (files.map (·.source.tree.root)) }

/-- The files among some results of reading. -/
def readFiles (results : List (Except FileError SourceFile)) : List SourceFile :=
  results.filterMap fun
    | .ok f => some f
    | .error _ => none

/-- The files that were left out in reading. -/
def readSkipped (results : List (Except FileError SourceFile)) : List Skipped :=
  results.filterMap fun
    | .error (.skipped s) => some s
    | _ => none

/-- The project of some results of reading. A path that names nothing breaks it off. -/
def ofResults (results : List (Except FileError SourceFile)) : Except EmptyName Project :=
  let unnamed := results.findSome? fun
    | .error (.emptyName e) => some e
    | _ => none
  match unnamed with
  | some e => .error e
  | none => .ok (ofFiles (readFiles results) (readSkipped results))

/-- The project of some texts with their paths. -/
def ofTexts (texts : List (String × String)) (roots : List String) : Except EmptyName Project :=
  ofResults (texts.map fun (path, text) => SourceFile.ofText path text roots)

def file? (P : Project) (i : Nat) : Option ScopedFile := P.files[i]?

/-- How many nodes a file has. -/
def nodeCount (P : Project) (file : Nat) : Nat :=
  ((P.file? file).map (·.source.tree.size)).getD 0

/-- The file of a module. -/
def module? (P : Project) (name : String) : Option Nat :=
  (P.modules.find? (·.1 == name)).map (·.2)

/-- Whether a dotted name is a module or a package of the project. -/
def hasModule (P : Project) (name : String) : Bool :=
  (P.module? name).isSome || P.packages.contains name

/-- The scope that a node of a file belongs to, with the scopes around it. -/
def chainOf? (P : Project) (file node : Nat) : Option Chain :=
  match P.file? file with
  | some f => f.scopes.chainOf? node
  | none => none

/-- The scope that a node of a file opens, with the scopes around it. -/
def openedChain? (P : Project) (file node : Nat) : Option Chain :=
  match P.file? file with
  | some f => (f.scopes.opened? node).map f.scopes.chain
  | none => none

end Project

end EffectGraph
