/-
Parsed files of a project.
-/
import EffectGraph.Source.Path
import EffectGraph.Syntax.Parse
import EffectGraph.Text.Lines

namespace EffectGraph

/-- A parsed file: its path in the project, its module's dotted name, its text and its tree. -/
structure SourceFile where
  path : String
  module : String
  lines : Text.Lines
  tree : Tree
  deriving Inhabited

/-- What a function without a name is called, after its line and character. -/
def anonymousName (position : Nat × Nat) : String :=
  s!"<anonymous@{position.1}:{position.2}>"

/-- Why a file is left out. -/
inductive SkipReason where
  | malformed
  | tooDeepToParse
  | tooDeepToAnalyze
  | unreadable
  deriving DecidableEq, Repr, Inhabited

/-- A file that is left out. -/
structure Skipped where
  path : String
  reason : SkipReason
  deriving DecidableEq, Repr, Inhabited

def Skipped.message (s : Skipped) : String :=
  match s.reason with
  | .malformed => s!"Syntax error in {s.path}"
  | .tooDeepToParse => s!"Nesting too deep to parse in {s.path}"
  | .tooDeepToAnalyze => s!"Nesting too deep to analyze in {s.path}"
  | .unreadable => s!"Cannot read {s.path}"

/-- What can go wrong with one file: it is left out, or its path names nothing. -/
inductive FileError where
  | skipped (file : Skipped)
  | emptyName (error : EmptyName)
  deriving DecidableEq, Repr

namespace SourceFile

def ofText (path text : String) (roots : List String) : Except FileError SourceFile :=
  match Tree.parse text with
  | .error .malformed => .error (.skipped ⟨path, .malformed⟩)
  | .error .tooDeep | .error .overflow => .error (.skipped ⟨path, .tooDeepToParse⟩)
  | .ok tree =>
    match SourcePath.moduleName path roots with
    | .error e => .error (.emptyName e)
    | .ok module => .ok { path, module, lines := .ofText text, tree }

def isStub (f : SourceFile) : Bool := SourcePath.isStub f.path

def isDependency (f : SourceFile) : Bool := SourcePath.isDependency f.path

def isPackage (f : SourceFile) : Bool := SourcePath.isPackage f.path

/-- Whether the file implements part of the project. -/
def isProject (f : SourceFile) : Bool := !f.isStub && !f.isDependency

/-- The line and character of a node. -/
def position (f : SourceFile) (n : Node) : Nat × Nat := f.lines.position n.start

/-- The number of characters before a node. -/
def offset (f : SourceFile) (n : Node) : Nat := f.lines.offset n.start

end SourceFile

end EffectGraph
