/-
What is found about a function.

A reason or an issue is recorded once, at the place of its first record.
-/
import EffectGraph.Finding.Severity
import EffectGraph.Function.Inventory

namespace EffectGraph

/-- Whether a function is pure, and why not. -/
structure PurityResult where
  label : Label
  isPure : Bool
  reasons : List String
  deriving DecidableEq, Repr, Inhabited

namespace PurityResult

def id (r : PurityResult) : String := r.label.id

/-- Records a reason, and says whether it is new. -/
def addReason (r : PurityResult) (reason : String) : Bool × PurityResult :=
  if reason ∈ r.reasons then (false, r)
  else (true, { r with isPure := false, reasons := r.reasons ++ [reason] })

end PurityResult

/-- A hazard of asynchronous code. -/
structure AsyncIssue where
  message : String
  severity : Severity
  deriving DecidableEq, Repr, Inhabited

/-- The hazards in a function, and the functions it calls whose results can be awaited. -/
structure AsyncResult where
  label : Label
  issues : List AsyncIssue
  awaitableCalls : List String
  deriving DecidableEq, Repr, Inhabited

namespace AsyncResult

def id (r : AsyncResult) : String := r.label.id

def hasIssue (r : AsyncResult) (message : String) : Bool :=
  r.issues.any (·.message == message)

def hasSeverity (r : AsyncResult) (severity : Severity) : Bool :=
  r.issues.any (·.severity == severity)

/-- Records an issue unless one with the same message is there, and says whether it is new. -/
def addIssue (r : AsyncResult) (issue : AsyncIssue) : Bool × AsyncResult :=
  if r.hasIssue issue.message then (false, r)
  else (true, { r with issues := r.issues ++ [issue] })

/-- The result with only the issues that are serious enough. -/
def atLeast (r : AsyncResult) (threshold : Severity) : AsyncResult :=
  { r with issues := r.issues.filter (·.severity.atLeast threshold) }

/-- The results that have issues that are serious enough, with these issues. -/
def filter (results : List AsyncResult) (threshold : Severity) : List AsyncResult :=
  (results.map (·.atLeast threshold)).filter (!·.issues.isEmpty)

end AsyncResult

/-- What a walk over a body gives: findings step by step, until one step breaks off. -/
def collectFindings {α : Type} : List (Analysis (List α)) → List α × Option Abort
  | [] => ([], none)
  | .error e :: _ => ([], some e)
  | .ok found :: rest =>
    let (more, stop) := collectFindings rest
    (found ++ more, stop)

/-- The findings of a walk. If it broke off because something nests too deeply, what was found
before stays; any other reason breaks off the analysis. -/
def findingsOf {α : Type} (steps : List (Analysis (List α))) : Analysis (List α) :=
  match collectFindings steps with
  | (found, none) | (found, some .tooDeep) => .ok found
  | (_, some e) => .error e

end EffectGraph
