/-
The call graph of a project.

An edge stands for a call in the body of a function, nested functions and
lambda expressions included, that runs another function of the inventory.
-/
import EffectGraph.Function.Inventory
import EffectGraph.Graph.CallGraph

namespace EffectGraph

namespace Node

def isCall (n : Node) : Bool := n.kind == .call

/-- Whether a node starts no later than another one. -/
def startsBefore (a b : Node) : Bool := a.start.le b.start

/-- The calls in the body of a function by their places. Calls at one place come in the order of a
walk that goes statement by statement and level by level. -/
def callsInBody (n : Node) : List Node :=
  ((n.bodyParts.flatMap levelOrder).filter isCall).mergeSort startsBefore

end Node

namespace Project

/-- Whether a construct stands in one of the project's own files. -/
def isOwn (P : Project) (d : Definition) : Bool :=
  match P.file? d.file with
  | some f => f.source.isProject
  | none => false

/-- The id of a construct in the inventory. -/
def idOf? (functions : List Function) (d : Definition) : Option String :=
  (functions.find? (·.definition.same d)).map (·.id)

/-- The id of the function that a call runs, if it is in the inventory. -/
def calleeId (P : Project) (functions : List Function) (file : Nat) (call : Node) :
    Analysis (Option String) := do
  match ← P.callee file call with
  | some d => return if P.isOwn d then idOf? functions d else none
  | none => return none

/-- The ids of the functions that a function calls, call by call. -/
def calleeIds (P : Project) (functions : List Function) (f : Function) : Analysis (List String) := do
  return (← f.node.callsInBody.mapM (P.calleeId functions f.file)).filterMap id

/-- The call graph over an inventory: all its functions first, then the calls. -/
def callGraph (P : Project) (functions : List Function) : Analysis CallGraph := do
  let callees ← functions.mapM (P.calleeIds functions)
  let vertices := functions.foldl (fun g f => g.addFunction f.id) .empty
  return (functions.zip callees).foldl (fun g (f, ids) => g.addCalls f.id ids) vertices

end Project

end EffectGraph
