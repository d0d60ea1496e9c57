/-
Findings that callers inherit.

Impurity and asynchronous risk go from a function to everything that calls it,
directly or not: `spread` follows the edges backwards from the functions that
have the finding, through functions that can still get it. Results are found by
id; of two results with one id the later one counts.
-/
import EffectGraph.Finding.Hazard
import EffectGraph.Graph.CallGraph

namespace EffectGraph

namespace CallGraph

/-- Goes backwards from the ids in a queue and gathers the callers that are accepted, each once. -/
def spreadFrom (g : CallGraph) (accepts : String → Bool) : Nat → List String → List String → List String
  | 0, _, reached => reached
  | _ + 1, [], reached => reached
  | n + 1, id :: queue, reached =>
    let fresh := (g.callers id).filter fun c => accepts c && !reached.contains c
    g.spreadFrom accepts n (queue ++ fresh) (reached ++ fresh)

/-- The accepted ids from which a start is reached through accepted ids. Each id enters the queue
at most once beside the starts, so there are no more rounds than starts and ids. -/
def spread (g : CallGraph) (accepts : String → Bool) (starts : List String) : List String :=
  g.spreadFrom accepts (starts.length + g.ids.length) starts []

end CallGraph

/-- The result for an id: the last one. -/
def lastWith {α : Type} (idOf : α → String) (results : List α) (id : String) : Option α :=
  results.reverse.find? (idOf · == id)

/-- Changes the results for some ids, of two results with one id only the last one. -/
def updateLast {α : Type} (idOf : α → String) (ids : List String) (update : α → α) : List α → List α
  | [] => []
  | r :: rest =>
    (if ids.contains (idOf r) && !rest.any (idOf · == idOf r) then update r else r)
      :: updateLast idOf ids update rest

namespace PurityResult

def callsImpure : String := "Calls impure function"

/-- Whether a result can still become impure. -/
def canChange (results : List PurityResult) (id : String) : Bool :=
  ((lastWith PurityResult.id results id).map (·.isPure)).getD false

/-- Every caller of an impure function, directly or not, is impure. -/
def propagate (g : CallGraph) (results : List PurityResult) : List PurityResult :=
  let starts := (results.filter (!·.isPure)).map (·.id)
  updateLast PurityResult.id (g.spread (canChange results) starts) (fun r => (r.addReason callsImpure).2)
    results

end PurityResult

namespace AsyncResult

def callsUnsafe : AsyncIssue := ⟨"Calls async-unsafe function", .error⟩

def callsAwaitable : AsyncIssue := ⟨"Calls awaitable-returning function without await", .error⟩

/-- Whether a result does not carry a message yet. -/
def lacks (message : String) (results : List AsyncResult) (id : String) : Bool :=
  ((lastWith AsyncResult.id results id).map fun r => !r.hasIssue message).getD false

/-- Every caller of a function with an error, directly or not, is at risk. -/
def propagateRisk (g : CallGraph) (results : List AsyncResult) : List AsyncResult :=
  let starts := (results.filter (·.hasSeverity .error)).map (·.id)
  updateLast AsyncResult.id (g.spread (lacks callsUnsafe.message results) starts)
    (fun r => (r.addIssue callsUnsafe).2) results

/-- The messages of the findings that leave something to await to the callers. -/
def awaitableMessages : List String := Hazard.awaitable.map (·.message)

/-- Looks at one edge: the caller of a function with one of the messages leaves something
unawaited. -/
def returnsStep (messages : List String) (results : List AsyncResult) (edge : String × String) :
    List AsyncResult :=
  match lastWith AsyncResult.id results edge.2 with
  | some callee =>
    if callee.issues.any fun i => messages.contains i.message then
      updateLast AsyncResult.id [edge.1] (fun r => (r.addIssue callsAwaitable).2) results
    else results
  | none => results

/-- Looks at all edges again and again until nothing changes. -/
def returnsRounds (messages : List String) (edges : List (String × String)) :
    Nat → List AsyncResult → List AsyncResult
  | 0, results => results
  | n + 1, results =>
    let next := edges.foldl (returnsStep messages) results
    if next = results then results else returnsRounds messages edges n next

/-- The callers of functions with one of the messages leave something unawaited. Each round but
the last changes a result for good, so there are no more rounds than results and one. -/
def propagateReturns (g : CallGraph) (messages : List String) (results : List AsyncResult) :
    List AsyncResult :=
  returnsRounds messages g.edges (results.length + 1) results

end AsyncResult

end EffectGraph
