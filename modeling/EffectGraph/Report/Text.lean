/-
Reports as text.

The program leaves printing to a console. Names and paths stand in the lines as
they are, so a bracket in them is markup; findings are printed without markup.
-/
import EffectGraph.Report.Basic

namespace EffectGraph

/-- What prints the lines of a report. A text with markup has no output if its tags have no
meaning. -/
structure Console where
  marked? : String → Option String
  plain : String → String

namespace Report

/-- A piece of a report. -/
inductive Line where
  | marked (text : String)
  /-- The next piece goes on in the same line. -/
  | begun (text : String)
  | plain (text : String)
  deriving DecidableEq, Repr

def Line.printed? (c : Console) : Line → Option String
  | marked text => (c.marked? text).map (· ++ "\n")
  | begun text => c.marked? text
  | plain text => some (c.plain text ++ "\n")

/-- A function and its place. -/
def place (l : Label) : String := s!"[cyan]{l.name}[/] [dim]({l.path}:{l.line})[/]"

/-- The calls between listed functions. -/
def graphLines (r : Report) : List Line :=
  .marked (s!"[bold]Call graph[/] [dim]({r.functions.length} functions, " ++
      s!"{r.graph.edgeCount} edges)[/]") ::
    r.graph.edges.filterMap fun (caller, callee) =>
      match r.function? caller, r.function? callee with
      | some a, some b => some (.marked s!"  {place a} -> {place b}")
      | _, _ => none

def purityLines (r : Report) : List Line :=
  let found := r.impure.flatMap fun p =>
    .marked ("  " ++ place p.label) :: p.reasons.map fun reason => .plain ("    - " ++ reason)
  .marked s!"\n[bold]Purity[/] [dim]({r.impure.length} impure)[/]" ::
    if r.impure.isEmpty then [.marked "  [green]All functions are pure[/]"] else found

/-- The color of a severity. -/
def style : Severity → String
  | .error => "red"
  | .warning => "yellow"
  | .info => "blue"

def issueLines (i : AsyncIssue) : List Line :=
  [.begun s!"    [{style i.severity}]{i.severity.name}[/]: ", .plain i.message]

def asyncLines (results : List AsyncResult) : List Line :=
  let count := (results.flatMap (·.issues)).length
  let found := results.flatMap fun a =>
    .marked ("  " ++ place a.label) :: a.issues.flatMap issueLines
  .marked s!"\n[bold]Async safety[/] [dim]({count} issues)[/]" ::
    if results.isEmpty then [.marked "  [green]No async issues[/]"] else found

def errorLines (errors : List String) : List Line :=
  if errors.isEmpty then []
  else
    .marked s!"\n[red]Skipped files: {errors.length}[/red]" ::
      errors.map fun e => .plain ("  " ++ e)

/-- The lines of a report, with the hazards that are serious enough. -/
def lines (r : Report) (threshold : Severity) : List Line :=
  graphLines r ++ purityLines r ++ asyncLines (r.asyncAtLeast threshold) ++ errorLines r.errors

/-- The text of a report, unless markup in a name or path has no meaning. -/
def text? (c : Console) (r : Report) (threshold : Severity) : Option String :=
  ((lines r threshold).mapM (Line.printed? c)).map String.join

end Report

end EffectGraph
