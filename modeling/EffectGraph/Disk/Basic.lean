/-
A snapshot of a disk, and the source files of a project on it.

Directories are walked from the top: first the files of a directory by name,
then its subdirectories by name. Hidden directories and directories that are
never part of a project are not entered.
-/
import EffectGraph.Source.Path

namespace EffectGraph

/-- The names on the way from the top of a disk to a file or directory. -/
abbrev Location := List String

/-- Files with their contents, and directories, which matter only where nothing is in them. -/
structure Disk where
  files : List (Location × List UInt8)
  directories : List Location
  deriving Inhabited

namespace Disk

def isFile (d : Disk) (place : Location) : Bool := d.files.any (·.1 == place)

def read? (d : Disk) (place : Location) : Option (List UInt8) := d.files.lookup place

def isDirectory (d : Disk) (place : Location) : Bool :=
  place.isEmpty || d.directories.any (place.isPrefixOf ·) ||
    d.files.any fun f => place.isPrefixOf f.1 && place != f.1

/-- The location that a path means, seen from a directory, whether it exists or not. -/
def resolve (cwd : Location) (p : Path) : Location :=
  p.names.foldl (fun place name => if name == ".." then place.dropLast else place ++ [name])
    (if p.root.isEmpty then cwd else [])

/-- Goes to a location step by step; each step needs a directory. -/
def follow (d : Disk) : List String → Location → Option Location
  | [], place => some place
  | name :: names, place =>
    if !d.isDirectory place then none
    else d.follow names (if name == ".." then place.dropLast else place ++ [name])

/-- The file that a path leads to. -/
def fileAt? (d : Disk) (cwd : Location) (p : Path) : Option Location :=
  (d.follow p.names (if p.root.isEmpty then cwd else [])).filter d.isFile

/-- Whether a walk enters a directory. -/
def isEntered (name : String) : Bool :=
  !SourcePath.isHidden name && !SourcePath.isPruned name

def isSource (name : String) : Bool :=
  ".py".toList.isSuffixOf name.toList || ".pyi".toList.isSuffixOf name.toList

/-- Whether a walk finds a file, given by its location below the start. -/
def isFound (below : Location) : Bool :=
  match below.getLast? with
  | some name => isSource name && below.dropLast.all isEntered
  | none => false

/-- The order of a walk. -/
def walkBefore : Location → Location → Bool
  | [], _ => true
  | _, [] => false
  | [a], [b] => !(b < a)
  | [_], _ => true
  | _, [_] => false
  | a :: as, b :: bs => if a == b then walkBefore as bs else a < b

/-- The source files below a directory, in the order of a walk, by their locations below it. -/
def sources (d : Disk) (root : Location) : List Location :=
  let below := d.files.filterMap fun f =>
    if root.isPrefixOf f.1 then some (f.1.drop root.length) else none
  (below.filter isFound).mergeSort walkBefore

end Disk

end EffectGraph
