/-
The project on a disk.
-/
import EffectGraph.Config.Settings
import EffectGraph.Disk.Encoding
import EffectGraph.Model.Project

namespace EffectGraph.Project

/-- Reads a source file. -/
def readSource (d : Disk) (root below : Location) (roots : List String) :
    Except FileError SourceFile :=
  let path := "/".intercalate below
  match (d.read? (root ++ below)).bind Encoding.read? with
  | some text => SourceFile.ofText path text roots
  | none => .error (.skipped ⟨path, .unreadable⟩)

/-- Reads all source files below the root of a project. -/
def load (d : Disk) (s : Settings) : Except EmptyName Project :=
  ofResults ((d.sources s.root).map fun below => readSource d s.root below s.sourceRoots)

end EffectGraph.Project
