/-
The passes that spread a finding, as loops over a queue that change results in
place.

A loop takes an id from the queue and looks at the results of its callers. A
result that can still take the finding on does so, and its id joins the queue.
The loop asks the results as they are at that moment, while `CallGraph.spread`
asks the results from before the pass and remembers what it has reached. The
two go the same way as long as a result that has taken the finding on says of
itself that it cannot do so again: then the results at each turn are those from
before, changed at the ids reached so far (`visitCaller_workAt`). So a loop
ends, after as many turns as `spread` has rounds, with the results that the pass
gives (`loop_ends`).
-/
import EffectGraph.Proofs.Graph.Propagation
import Mathlib.Computability.StateTransition

namespace EffectGraph

/-- What a loop works on: the ids that wait, and the results as they are so far. -/
structure Work (α : Type) where
  queue : List String
  results : List α

/-- A finding that results take on: which results can take it on, and how. -/
structure Spreading (α : Type) where
  idOf : α → String
  canTake : α → Bool
  take : α → α
  id_take : ∀ r, idOf (take r) = idOf r
  take_take : ∀ r, take (take r) = take r

namespace Spreading

variable {α : Type} (s : Spreading α) (g : CallGraph)

/-- Whether the result for an id can take the finding on. -/
def accepts (results : List α) (id : String) : Bool :=
  ((lastWith s.idOf results id).map s.canTake).getD false

/-- Looks at one caller. If its result can take the finding on, it does and the caller joins the
queue. -/
def visitCaller (w : Work α) (caller : String) : Work α :=
  if s.accepts w.results caller then
    ⟨w.queue ++ [caller], updateLast s.idOf [caller] s.take w.results⟩
  else w

/-- One turn of the loop: the first id leaves the queue, and its callers are looked at. -/
def turn : Work α → Option (Work α)
  | ⟨[], _⟩ => none
  | ⟨id :: queue, results⟩ => some ((g.callers id).foldl s.visitCaller ⟨queue, results⟩)

/-- The work after some ids were reached: they wait or have waited, and their results have changed. -/
def workAt (results : List α) (queue reached : List String) : Work α :=
  ⟨queue, updateLast s.idOf reached s.take results⟩

variable {s g} {results : List α}

/-! ## One turn -/

section Turn

variable (hdone : ∀ r ∈ results, s.canTake (s.take r) = false)

include hdone

/-- The results of the moment say what the results from before and the reached ids say. -/
theorem accepts_updateLast (reached : List String) (c : String) :
    s.accepts (updateLast s.idOf reached s.take results) c =
      (s.accepts results c && !reached.contains c) := by
  simp only [accepts, lastWith_updateLast s.id_take]
  cases hl : lastWith s.idOf results c with
  | none => rfl
  | some r =>
    have hr := hdone r (mem_of_lastWith hl).1
    cases hc : reached.contains c <;> simp [hr]

theorem visitCaller_workAt (queue reached : List String) (c : String) :
    s.visitCaller (s.workAt results queue reached) c =
      if s.accepts results c && !reached.contains c then
        s.workAt results (queue ++ [c]) (reached ++ [c])
      else s.workAt results queue reached := by
  unfold visitCaller workAt
  rw [accepts_updateLast hdone, updateLast_updateLast s.id_take s.take_take]

theorem foldl_visitCaller (callers : List String) (hcallers : callers.Nodup) :
    ∀ queue reached : List String, callers.foldl s.visitCaller (s.workAt results queue reached) =
      s.workAt results
        (queue ++ callers.filter fun c => s.accepts results c && !reached.contains c)
        (reached ++ callers.filter fun c => s.accepts results c && !reached.contains c) := by
  induction callers with
  | nil => intro queue reached; simp
  | cons c callers ih =>
    intro queue reached
    obtain ⟨hc, hcallers⟩ := List.nodup_cons.1 hcallers
    rw [List.foldl_cons, visitCaller_workAt hdone]
    by_cases hnew : (s.accepts results c && !reached.contains c) = true
    · -- The caller is looked at once, so that it is reached now changes nothing for the others.
      have hrest : (callers.filter fun d => s.accepts results d && !(reached ++ [c]).contains d) =
          callers.filter fun d => s.accepts results d && !reached.contains d := by
        refine List.filter_congr fun d hd => ?_
        have hne : d ≠ c := fun he => hc (he ▸ hd)
        simp [hne]
      rw [if_pos hnew, ih hcallers, hrest, List.filter_cons, if_pos hnew]
      simp
    · rw [if_neg hnew, ih hcallers, List.filter_cons, if_neg hnew]

theorem turn_workAt (id : String) (queue reached : List String) :
    s.turn g (s.workAt results (id :: queue) reached) =
      some (s.workAt results (queue ++ g.freshCallers (s.accepts results) reached id)
        (reached ++ g.freshCallers (s.accepts results) reached id)) :=
  congrArg some (foldl_visitCaller hdone (g.callers id) (g.nodup_callers id) queue reached)

/-! ## All turns -/

/-- While rounds are left for all ids that wait and all that may still join them, the loop ends
where the rounds end. -/
theorem reaches_workAt (n : Nat) : ∀ {queue reached : List String}, reached.Nodup →
    reached ⊆ g.ids → queue.length + g.ids.length ≤ n + reached.length →
    StateTransition.Reaches (s.turn g) (s.workAt results queue reached)
      (s.workAt results [] (g.spreadFrom (s.accepts results) n queue reached)) := by
  induction n with
  | zero =>
    intro queue reached hnodup hsub hlen
    have hle : reached.length ≤ g.ids.length := (List.subperm_of_subset hnodup hsub).length_le
    have hq : queue = [] := List.length_eq_zero_iff.1 (by omega)
    subst hq
    exact .refl
  | succ n ih =>
    intro queue reached hnodup hsub hlen
    cases queue with
    | nil => exact .refl
    | cons id queue =>
      rw [CallGraph.spreadFrom_succ]
      refine .head (turn_workAt hdone id queue reached) (ih ?_ ?_ ?_)
      · exact CallGraph.nodup_append_freshCallers hnodup
      · refine List.append_subset.2 ⟨hsub, fun c hc => ?_⟩
        exact (CallGraph.mem_freshCallers.1 hc).1.mem_ids.1
      · simp only [List.length_cons, List.length_append] at hlen ⊢
        omega

/-- The loop ends, and its results are those from before, changed where the finding spreads to. -/
theorem loop_ends (starts : List String) :
    ⟨[], updateLast s.idOf (g.spread (s.accepts results) starts) s.take results⟩ ∈
      StateTransition.eval (s.turn g) ⟨starts, results⟩ := by
  have hrun : StateTransition.Reaches (s.turn g) (s.workAt results starts [])
      (s.workAt results [] (g.spread (s.accepts results) starts)) :=
    reaches_workAt hdone _ List.nodup_nil (by simp) (by simp)
  have hstart : s.workAt results starts [] = ⟨starts, results⟩ := by simp [workAt, updateLast_nil]
  rw [hstart] at hrun
  exact StateTransition.mem_eval.2 ⟨hrun, rfl⟩

end Turn

end Spreading

end EffectGraph
