/-
A run of the command line on the snapshot of a disk.

Telling arguments apart and printing are not the program's own work: they come
with the frontend. What a run does with them is the same for every frontend.
-/
import EffectGraph.Disk.Load
import EffectGraph.Report.Document
import EffectGraph.Report.Text

namespace EffectGraph.Cli

/-- What an analysis is asked for. -/
structure Options where
  path : String
  config : Option String
  ignore : List String
  severity : Option String
  json : Bool
  failOnImpure : Bool
  failOnAsync : Bool
  deriving DecidableEq, Repr, Inhabited

inductive Command where
  | version
  | analyze (options : Options)
  deriving DecidableEq, Repr

/-- How a run ends. There is a message only for wrong settings. -/
structure Outcome where
  exit : Nat
  output : String
  message : Option String
  deriving DecidableEq, Repr, Inhabited

/-- What the command line is built on. Arguments give a command, or end the run by themselves as a
request for help and misuse do. Escaping is for texts that go into markup. -/
structure Frontend extends Console where
  command : List String → Except Outcome Command
  escape : String → String

/-- What breaks a run off. -/
inductive Failure where
  | load (error : LoadError)
  | emptyName (error : EmptyName)
  | abort (abort : Abort)
  | markup
  deriving Inhabited

variable (F : Frontend)

/-- What is printed of a text with markup. -/
def printed (text : String) : Except Failure String :=
  match F.marked? text with
  | some out => .ok (out ++ "\n")
  | none => .error .markup

def version : String := "callograph 0.1.0"

/-- The line about settings that cannot be used. -/
def errorLine (e : ConfigError) : String := "[red]Error:[/red] " ++ F.escape e.message

/-- The settings cannot be used. -/
def refused (e : ConfigError) : Except Failure Outcome := do
  return ⟨2, "", some (← printed F (errorLine F e))⟩

def overrides (o : Options) : Settings.Overrides where
  ignore := o.ignore
  severity := o.severity
  failOnImpure := o.failOnImpure
  failOnAsync := o.failOnAsync

/-- The project with some settings, and its report. -/
def analyzed (d : Disk) (s : Settings) : Except Failure (Project × Report) :=
  match Project.load d s with
  | .error e => .error (.emptyName e)
  | .ok P =>
    match P.analyze s.ignore with
    | .error a => .error (.abort a)
    | .ok r => .ok (P, r)

/-- Whether a report fails the run. -/
def fails (s : Settings) (r : Report) : Bool :=
  (s.failOnImpure && !r.impure.isEmpty) ||
    (s.failOnAsync && !(r.asyncAtLeast s.severity).isEmpty)

/-- The line that tells which project is being analysed. -/
def progressLine (s : Settings) : String :=
  let name := s.root.getLast?.getD ""
  s!"[progress.description]Analyzing [cyan]{name}[/]"

/-- The output of a report. -/
def output (json : Bool) (s : Settings) (r : Report) : Except Failure String :=
  if json then .ok ((Document.ofReport r s.severity).render 0 ++ "\n")
  else
    match r.text? F.toConsole s.severity with
    | some text => .ok text
    | none => .error .markup

/-- Runs an analysis. Progress is shown only where the output is a text. -/
def runAnalyze (d : Disk) (cwd : Location) (o : Options) : Except Failure Outcome := do
  match Settings.loadWith d cwd o.path o.config (overrides o) with
  | .error (.config e) => refused F e
  | .error e => throw (.load e)
  | .ok s =>
    if !o.json then
      let _ ← printed F (progressLine s)
    let (_, r) ← analyzed d s
    return ⟨if fails s r then 1 else 0, ← output F o.json s r, none⟩

/-- Runs the command that the arguments give. -/
def run (d : Disk) (cwd : Location) (args : List String) : Except Failure Outcome :=
  match F.command args with
  | .error outcome => .ok outcome
  | .ok .version => do return ⟨0, ← printed F version, none⟩
  | .ok (.analyze o) => runAnalyze F d cwd o

end EffectGraph.Cli
