/-
Expressions as targets. A target is written like an expression, so it is read
as one and then checked: names, members and items of containers may be bound,
and tuples and lists of targets.
-/
import EffectGraph.Syntax.Node

namespace EffectGraph.Node

/-- The node as the one target of an augmented or annotated assignment. -/
def asSingleTarget? : Node → Option Node
  | mk i r (.name id _) s cs => some (mk i r (.name id .write) s cs)
  | mk i r (.member name _) s cs => some (mk i r (.member name .write) s cs)
  | mk i r .subscript s cs => some (mk i r .subscript s cs)
  | _ => none

mutual

/-- The node as an assignment target. -/
def asTarget? : Node → Option Node
  | mk i r (.name id _) s cs => some (mk i r (.name id .write) s cs)
  | mk i r (.member name _) s cs => some (mk i r (.member name .write) s cs)
  | mk i r .subscript s cs => some (mk i r .subscript s cs)
  | mk i r .starred s cs => (asTargets? cs).map (mk i r .starred s)
  | mk i r .tuple s cs => (asTargets? cs).map (mk i r .tuple s)
  | mk i r .list s cs => (asTargets? cs).map (mk i r .list s)
  | _ => none

def asTargets? : List Node → Option (List Node)
  | [] => some []
  | c :: cs =>
    match asTarget? c, asTargets? cs with
    | some d, some ds => some (d :: ds)
    | _, _ => none

end

mutual

/-- The node as a target of a deletion: nothing may be starred there. -/
def asDeleted? : Node → Option Node
  | mk i r (.name id _) s cs => some (mk i r (.name id .write) s cs)
  | mk i r (.member name _) s cs => some (mk i r (.member name .write) s cs)
  | mk i r .subscript s cs => some (mk i r .subscript s cs)
  | mk i r .tuple s cs => (allDeleted? cs).map (mk i r .tuple s)
  | mk i r .list s cs => (allDeleted? cs).map (mk i r .list s)
  | _ => none

def allDeleted? : List Node → Option (List Node)
  | [] => some []
  | c :: cs =>
    match asDeleted? c, allDeleted? cs with
    | some d, some ds => some (d :: ds)
    | _, _ => none

end

end EffectGraph.Node
