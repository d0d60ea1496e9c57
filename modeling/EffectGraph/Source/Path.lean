/-
Paths with forward slashes, and the dotted module names they stand for.
-/
import EffectGraph.Text.Pieces

namespace EffectGraph

/-- A path: the slashes at its front, if it is absolute, and its names. -/
structure Path where
  root : String
  names : List String
  deriving DecidableEq, Repr, Inhabited

namespace Path

/-- Reads a path. Empty names and single dots do not count; exactly two slashes at the front are
a root of their own. -/
def ofString (s : String) : Path where
  root :=
    match s.toList with
    | '/' :: '/' :: '/' :: _ => "/"
    | '/' :: '/' :: _ => "//"
    | '/' :: _ => "/"
    | _ => ""
  names := (Text.split '/' s).filter fun n => n != "" && n != "."

/-- The parts of a path; the root is a part of its own. -/
def parts (p : Path) : List String :=
  if p.root.isEmpty then p.names else p.root :: p.names

def toString (p : Path) : String :=
  if p.root.isEmpty && p.names.isEmpty then "." else p.root ++ "/".intercalate p.names

/-- A name up to its last dot, if the dot is neither first nor last. -/
def stemOf (name : String) : String :=
  let cs := name.toList
  let suffix := (cs.reverse.takeWhile (· != '.')).reverse
  let stem := cs.take (cs.length - suffix.length - 1)
  if suffix.length = cs.length || suffix.isEmpty || stem.isEmpty then name else String.ofList stem

def stem (p : Path) : String :=
  stemOf (p.names.getLast?.getD "")

/-- The path without the suffix of its last name. A path without names has none to change. -/
def withoutSuffix? (p : Path) : Option Path :=
  match p.names.getLast? with
  | some name => some { p with names := p.names.dropLast ++ [stemOf name] }
  | none => none

end Path

/-- A path that ends in no name. -/
structure EmptyName where
  path : Path
  deriving DecidableEq, Repr

def EmptyName.message (e : EmptyName) : String :=
  s!"PurePosixPath('{e.path.toString}') has an empty name"

namespace SourcePath

/-- Backslashes separate names too. -/
def forward (path : String) : String := Text.replace '\\' '/' path

/-- Directories that are never part of a project: environments, caches, build output. -/
def prunedNames : List String :=
  ["__pycache__", "site-packages", "dist-packages", "node_modules", "__pypackages__", "venv",
   "build", "dist"]

/-- Directories of code that others wrote: read, but not part of the project. -/
def vendorNames : List String := ["vendor", "_vendor", "vendored", "third_party"]

def isPruned (name : String) : Bool :=
  prunedNames.contains name || ".egg-info".toList.isSuffixOf name.toList

def isHidden (name : String) : Bool :=
  ".".toList.isPrefixOf name.toList

/-- Whether a directory takes the files below it out of the project. -/
def isForeign (name : String) : Bool :=
  isPruned name || vendorNames.contains name || (isHidden name && name != "." && name != "..")

/-- Whether a file lies below such a directory. -/
def isDependency (path : String) : Bool :=
  (Path.ofString (forward path)).parts.dropLast.any isForeign

/-- A text without the slashes at its ends. -/
def trimSlashes (s : String) : List Char :=
  ((s.toList.dropWhile (· == '/')).reverse.dropWhile (· == '/')).reverse

/-- The path below the longest source root that contains it; among roots of one length the first
one counts. -/
def belowRoot (path : List Char) (roots : List String) : List Char :=
  let starts := (roots.mergeSort fun a b => b.length ≤ a.length).map fun r => trimSlashes r ++ ['/']
  match starts.find? fun start => start != ['/'] && start.isPrefixOf path with
  | some start => path.drop start.length
  | none => path

/-- The dotted name of the module in a file. A package has the name of its directory. -/
def moduleName (path : String) (roots : List String) : Except EmptyName String :=
  let p := Path.ofString (String.ofList (belowRoot (forward path).toList roots))
  match p.withoutSuffix? with
  | none => .error ⟨p⟩
  | some q =>
    let parts := q.parts
    .ok (".".intercalate (if parts.getLast? == some "__init__" then parts.dropLast else parts))

/-- Whether the file is the module of a package. -/
def isPackage (path : String) : Bool := (Path.ofString path).stem == "__init__"

/-- Whether the file only declares types. -/
def isStub (path : String) : Bool := ".pyi".toList.isSuffixOf path.toList

/-- The module that an import in a module means. Level 0 is absolute; level 1 is the package of the
importing module, and each further level one package up. -/
def importedModule (importer : String) (isPackage : Bool) (level : Nat) (name : String) : String :=
  if level = 0 then name
  else
    let parts := if importer.isEmpty then [] else Text.split '.' importer
    let package := if isPackage then parts else parts.dropLast
    let above := package.take (package.length - (level - 1))
    ".".intercalate (if name.isEmpty then above else above ++ [name])

end SourcePath

end EffectGraph
