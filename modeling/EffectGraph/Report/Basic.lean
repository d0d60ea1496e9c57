/-
The analysis of a project and its report.
-/
import EffectGraph.Finding.Effect
import EffectGraph.Graph.Propagation

namespace EffectGraph

/-- Everything that an analysis gives. -/
structure Report where
  functions : List Label
  graph : CallGraph
  purity : List PurityResult
  async : List AsyncResult
  errors : List String

namespace Report

def impure (r : Report) : List PurityResult := r.purity.filter (!·.isPure)

/-- The function with an id. -/
def function? (r : Report) (id : String) : Option Label :=
  lastWith Label.id r.functions id

/-- The hazards that are serious enough. -/
def asyncAtLeast (r : Report) (threshold : Severity) : List AsyncResult :=
  AsyncResult.filter r.async threshold

def description (r : Report) : String :=
  s!"AnalysisReport(functions={r.functions.length}, edges={r.graph.edgeCount}, " ++
    s!"impure={r.impure.length}, errors={r.errors.length})"

/-- The numbers that sum up a report. -/
structure Summary where
  functions : Nat
  edges : Nat
  impure : Nat
  asyncIssues : Nat
  skippedFiles : Nat
  deriving DecidableEq, Repr

def summary (r : Report) (threshold : Severity) : Summary where
  functions := r.functions.length
  edges := r.graph.edgeCount
  impure := r.impure.length
  asyncIssues := ((r.asyncAtLeast threshold).flatMap (·.issues)).length
  skippedFiles := r.errors.length

end Report

/-- The steps of an analysis. -/
inductive Phase where
  | load
  | collect
  | graph
  | effects
  | hazards
  | propagate
  deriving DecidableEq, Repr

namespace Phase

def all : List Phase := [load, collect, graph, effects, hazards, propagate]

def description : Phase → String
  | load => "Loading sources"
  | collect => "Collecting functions"
  | graph => "Building call graph"
  | effects => "Detecting side effects"
  | hazards => "Detecting async hazards"
  | propagate => "Propagating findings"

end Phase

namespace Project

/-- What the analyses find in each function by itself. -/
structure Findings where
  functions : List Function
  graph : CallGraph
  purity : List PurityResult
  flows : List AsyncFlow

def findings (P : Project) (ignore : List String) : Analysis Findings := do
  let functions ← P.collect ignore
  let graph ← P.callGraph functions
  let purity ← functions.mapM P.localPurity
  let flows ← functions.mapM (P.localFlow functions)
  return { functions, graph, purity, flows }

/-- The report of what was found, with what callers inherit. -/
def Findings.report (found : Findings) (errors : List String) : Report where
  functions := found.functions.map (·.label)
  graph := found.graph
  purity := PurityResult.propagate found.graph found.purity
  async :=
    AsyncResult.propagateReturns found.graph AsyncResult.awaitableMessages
      (AsyncResult.propagateRisk found.graph (found.flows.map (·.result)))
  errors

/-- Analyses a project. -/
def analyze (P : Project) (ignore : List String) : Analysis Report := do
  return (← P.findings ignore).report (P.skipped.map (·.message))

end Project

end EffectGraph
