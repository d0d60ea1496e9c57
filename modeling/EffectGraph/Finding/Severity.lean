/-
How serious a finding is.
-/

namespace EffectGraph

inductive Severity where
  | error
  | warning
  | info
  deriving DecidableEq, Repr, Inhabited

namespace Severity

def rank : Severity → Nat
  | error => 2
  | warning => 1
  | info => 0

def atLeast (s threshold : Severity) : Bool := threshold.rank ≤ s.rank

def name : Severity → String
  | error => "error"
  | warning => "warning"
  | info => "info"

/-- All of them, the most serious first. -/
def all : List Severity := [error, warning, info]

/-- The severity with a name. -/
def ofName? (name : String) : Option Severity :=
  all.find? (·.name == name)

end Severity

end EffectGraph
