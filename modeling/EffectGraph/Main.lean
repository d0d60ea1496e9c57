/-
The program. The files of the project are named on standard input, one a line;
a name that ends in a slash is a directory.
-/
import EffectGraph.Cli.Standard

namespace EffectGraph.Cli

/-- Adds what a line of standard input names to a snapshot. -/
def addListed (cwd : Location) (d : Disk) (name : String) : IO Disk := do
  let place := Disk.resolve cwd (Path.ofString name)
  if name.endsWith "/" then return { d with directories := d.directories ++ [place] }
  let bytes ← IO.FS.readBinFile name
  return { d with files := d.files ++ [(place, bytes.toList)] }

/-- Runs the command line on the listed files and says how it ends. -/
def runListed (args : List String) : IO UInt32 := do
  let cwd := Disk.resolve [] (Path.ofString ((← IO.getEnv "PWD").getD "/"))
  let names := (Text.split '\n' (← (← IO.getStdin).readToEnd)).filter (· != "")
  let disk ← names.foldlM (addListed cwd) ⟨[], [cwd]⟩
  match run .standard disk cwd args with
  | .ok outcome =>
    IO.print outcome.output
    if let some message := outcome.message then IO.eprint message
    return outcome.exit.toUInt32
  | .error _ =>
    IO.eprintln "The analysis broke off"
    return 1

end EffectGraph.Cli

def main (args : List String) : IO UInt32 := EffectGraph.Cli.runListed args
