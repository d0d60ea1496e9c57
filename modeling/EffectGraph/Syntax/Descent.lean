/-
How deep the calls of a walk nest.

A walk over a tree is made of functions that call each other on the way down:
from a construct to a part of it there are as many calls as the construct takes.
Only so many calls can be open at once, so whether a walk ends depends on which
constructs stand on the way down and not only on how many.
-/
import EffectGraph.Syntax.Node

namespace EffectGraph

/-- How a walk goes from a construct into the parts in a role: with how many calls, and with what it
then keeps in mind; or not at all. -/
abbrev Descent (σ : Type) := σ → Node → Role → Option (Nat × σ)

namespace Node

variable {σ : Type}

mutual

/-- How many calls a walk has open at its deepest point below a node. -/
def calls (d : Descent σ) (s : σ) : Node → Nat
  | mk i r k p cs => partCalls d s (mk i r k p cs) cs

def partCalls (d : Descent σ) (s : σ) (n : Node) : List Node → Nat
  | [] => 0
  | c :: cs =>
    let here := match d s n c.role with
      | some (number, s) => number + calls d s c
      | none => 0
    max here (partCalls d s n cs)

end

end Node

/-- How many calls of a walk can be open at once. -/
def maxCalls : Nat := 985

end EffectGraph
