/-
Impurity and risk spread along paths among the functions with results.

The graph may have cycles and ids without a result. Such ids neither change nor
hand anything on. Impurity comes to a result once, because a pure result has no
reasons and so the reason it gets is new (`not_isPure_addReason`). The risk also
comes to functions that have errors themselves. Its message is an error, so a
second pass starts from more functions than the first. It finds nothing to do,
because whoever reaches one of the new starts reaches one of the old ones
(`propagateRisk_again`).
-/
import EffectGraph.Proofs.Graph.Worklist

namespace EffectGraph

open Relation

/-! ## Impurity -/

namespace PurityResult

theorem addReason_addReason (r : PurityResult) (reason : String) :
    ((r.addReason reason).2.addReason reason).2 = (r.addReason reason).2 := by
  unfold addReason
  by_cases h : reason ∈ r.reasons <;> simp [h]

/-- A reason that is there says that the result is impure, and a new one makes it so. -/
theorem not_isPure_addReason {r : PurityResult} (h : r.isPure = true ↔ r.reasons = [])
    (reason : String) : (r.addReason reason).2.isPure = false := by
  unfold addReason
  by_cases hmem : reason ∈ r.reasons
  · have hne : r.reasons ≠ [] := List.ne_nil_of_mem hmem
    have hnot : ¬ r.isPure = true := fun hp => hne (h.1 hp)
    simpa [hmem] using hnot
  · simp [hmem]

theorem addReason_of_pure {r : PurityResult} (h : r.reasons = []) (reason : String) :
    (r.addReason reason).2 = { r with isPure := false, reasons := [reason] } := by
  simp [addReason, h]

/-- Impurity as a finding that callers take on. -/
def impurity : Spreading PurityResult where
  idOf := id
  canTake := isPure
  take r := (r.addReason callsImpure).2
  id_take r := congrArg Label.id (label_addReason r callsImpure)
  take_take r := addReason_addReason r callsImpure

/-- The functions that are impure by themselves. -/
def impureIds (results : List PurityResult) : List String :=
  (results.filter (!·.isPure)).map id

variable {g : CallGraph} {results : List PurityResult}

theorem map_label_propagate (g : CallGraph) (results : List PurityResult) :
    (propagate g results).map (·.label) = results.map (·.label) :=
  map_updateLast (fun r => label_addReason r callsImpure) results

/-- A function is impure after the pass exactly if a path, which may be empty, leads from it to one
that was impure before. -/
theorem isPure_of_inherits (h : (results.map id).Nodup) {r : PurityResult} (hr : r ∈ results) :
    (r.isPure = false ∨ (r.isPure = true ∧ ∃ s ∈ results, s.isPure = false ∧
        TransGen (g.CallsAmong (results.map id)) r.id s.id)) ↔
      ∃ s ∈ results, s.isPure = false ∧ ReflTransGen (g.CallsAmong (results.map id)) r.id s.id := by
  constructor
  · rintro (hp | ⟨-, s, hs, hp, hpath⟩)
    · exact ⟨r, hr, hp, .refl⟩
    · exact ⟨s, hs, hp, hpath.to_reflTransGen⟩
  · rintro ⟨s, hs, hp, hpath⟩
    cases hpure : r.isPure with
    | false => exact .inl rfl
    | true =>
      refine .inr ⟨rfl, s, hs, hp, ?_⟩
      rcases reflTransGen_iff_eq_or_transGen.1 hpath with he | hpath
      · rw [List.inj_on_of_nodup_map h hs hr he, hpure] at hp
        cases hp
      · exact hpath

/-- **Impurity spreads backwards along the calls among the functions with results, and nowhere
else.** The loop over the queue ends with these results. A function is impure afterwards exactly if
a path leads from it to one that was impure before. What was impure stays as it is, and what becomes
impure gets one reason. An id without a result gets none and hands nothing on: the calls of such ids
make no difference. -/
theorem propagate_exact (hid : (results.map id).Nodup)
    (hpure : ∀ r ∈ results, r.isPure = true ↔ r.reasons = []) :
    ⟨[], propagate g results⟩ ∈ StateTransition.eval (impurity.turn g) ⟨impureIds results, results⟩ ∧
    (propagate g results).map id = results.map id ∧
    List.Forall₂
      (fun r r' =>
        (r'.isPure = false ↔ ∃ s ∈ results, s.isPure = false ∧
          ReflTransGen (g.CallsAmong (results.map id)) r.id s.id) ∧
        (r.isPure = false → r' = r) ∧ (r'.isPure = true → r' = r) ∧
        (r.isPure = true → r'.isPure = false →
          r' = { r with isPure := false, reasons := ["Calls impure function"] }))
      results (propagate g results) ∧
    ∀ g' : CallGraph, (∀ a b, g'.Calls a b ↔ g.CallsAmong (results.map id) a b) →
      propagate g' results = propagate g results := by
  obtain ⟨inherits, hpass, hinherits⟩ := propagate_eq_map (g := g) hid
  refine ⟨?_, ?_, ?_, fun g' hg' => ?_⟩
  · exact Spreading.loop_ends (s := impurity) (fun r hr => not_isPure_addReason (hpure r hr) _) _
  · have hlabels := congrArg (List.map Label.id) (map_label_propagate g results)
    rwa [List.map_map, List.map_map] at hlabels
  · rw [hpass, List.forall₂_map_right_iff, List.forall₂_same]
    intro r hr
    have hpath := (isPure_of_inherits (g := g) hid hr).symm
    rw [← hinherits r hr] at hpath
    rw [hpath]
    cases hp : r.isPure with
    | false =>
      have hnot : inherits r ≠ true := fun hi => by simp [((hinherits r hr).1 hi).1] at hp
      simp [hnot, hp]
    | true =>
      have hnone : r.reasons = [] := (hpure r hr).1 hp
      by_cases hi : inherits r = true
      · simp [hi, addReason_of_pure hnone, callsImpure]
      · simp [hi, hp]
  · obtain ⟨inherits', hpass', hinherits'⟩ := propagate_eq_map (g := g') hid
    -- A call among the ids stays one if all calls are among them.
    have hcalls : g'.CallsAmong (results.map id) = g.CallsAmong (results.map id) := by
      funext a b
      refine propext ⟨fun h => (hg' a b).1 h.2.2, fun h => ⟨h.1, h.2.1, (hg' a b).2 h⟩⟩
    rw [hpass, hpass']
    refine List.map_congr_left fun r hr => ?_
    have hsame : inherits' r = inherits r := by
      rw [Bool.eq_iff_iff, hinherits' r hr, hinherits r hr, hcalls]
    rw [hsame]

/-- Two functions that call each other, one that calls itself, and one that has no result. -/
def cyclicGraph : CallGraph :=
  .ofMapping [("a", ["b"]), ("b", ["a", "c"]), ("c", ["c"]), ("d", ["x"]), ("x", ["c"])]

def resultOf (id : String) (reasons : List String) : PurityResult :=
  ⟨⟨id, id, "m.py", 1, 1⟩, reasons.isEmpty, reasons⟩

def cyclicResults : List PurityResult :=
  [resultOf "a" [], resultOf "b" [], resultOf "c" ["Writes to console"], resultOf "d" []]

/-- Impurity goes round the cycle, and not through the id without a result. -/
theorem propagate_exact_cyclic :
    (cyclicResults.map id).Nodup ∧ (∀ r ∈ cyclicResults, r.isPure = true ↔ r.reasons = []) ∧
    propagate cyclicGraph cyclicResults =
      [resultOf "a" ["Calls impure function"], resultOf "b" ["Calls impure function"],
        resultOf "c" ["Writes to console"], resultOf "d" []] ∧
    ⟨[], propagate cyclicGraph cyclicResults⟩ ∈
      StateTransition.eval (impurity.turn cyclicGraph) ⟨["c"], cyclicResults⟩ ∧
    (∃ s ∈ cyclicResults, s.isPure = false ∧
      ReflTransGen (cyclicGraph.CallsAmong ["a", "b", "c", "d"]) "a" s.id) ∧
    ¬ ∃ s ∈ cyclicResults, s.isPure = false ∧
      ReflTransGen (cyclicGraph.CallsAmong ["a", "b", "c", "d"]) "d" s.id := by
  have hid : (cyclicResults.map id).Nodup := by decide +kernel
  have hpure : ∀ r ∈ cyclicResults, r.isPure = true ↔ r.reasons = [] := by decide +kernel
  have heval : propagate cyclicGraph cyclicResults =
      [resultOf "a" ["Calls impure function"], resultOf "b" ["Calls impure function"],
        resultOf "c" ["Writes to console"], resultOf "d" []] := by
    decide +kernel
  obtain ⟨hloop, -, hall, -⟩ := propagate_exact (g := cyclicGraph) hid hpure
  rw [heval] at hall
  obtain ⟨ha, hall⟩ := List.forall₂_cons.1 hall
  obtain ⟨-, hall⟩ := List.forall₂_cons.1 hall
  obtain ⟨-, hall⟩ := List.forall₂_cons.1 hall
  obtain ⟨hd, -⟩ := List.forall₂_cons.1 hall
  exact ⟨hid, hpure, heval, hloop, ha.1.1 rfl, fun hpath => Bool.noConfusion (hd.1.2 hpath)⟩

end PurityResult

/-! ## Risk -/

namespace AsyncResult

/-- The risk as a finding that callers take on. -/
def risk : Spreading AsyncResult where
  idOf := id
  canTake r := !r.hasIssue callsUnsafe.message
  take r := (r.addIssue callsUnsafe).2
  id_take r := id_addIssue r callsUnsafe
  take_take r := addIssue_addIssue r callsUnsafe

/-- The functions that have errors by themselves. -/
def erringIds (results : List AsyncResult) : List String :=
  (results.filter (·.hasSeverity .error)).map id

theorem addIf_of_lacks {r : AsyncResult} {issue : AsyncIssue} (h : r.hasIssue issue.message = false)
    (b : Bool) : r.addIf b issue = if b then { r with issues := r.issues ++ [issue] } else r := by
  cases b with
  | false => rfl
  | true => simp [addIf, addIssue, h]

theorem mem_issues_addIf {r : AsyncResult} {b : Bool} {issue i : AsyncIssue}
    (h : i ∈ (r.addIf b issue).issues) : i ∈ r.issues ∨ (b = true ∧ i = issue) := by
  cases b with
  | false => exact .inl h
  | true => exact (mem_issues_addIssue h).imp_right fun he => ⟨rfl, he⟩

theorem hasIssue_of_addIf {r : AsyncResult} {b : Bool} {issue : AsyncIssue}
    (h : (r.addIf b issue).hasIssue issue.message = false) :
    r.hasIssue issue.message = false ∧ b = false := by
  cases b with
  | false => exact ⟨h, rfl⟩
  | true =>
    have hnew : (r.addIf true issue).hasIssue issue.message = true := hasIssue_addIssue r issue
    rw [hnew] at h
    cases h

variable {g : CallGraph} {results : List AsyncResult}

/-- Where the first pass says which functions are at risk, a second one changes nothing: a function
without the message that reaches one with an error after the first pass reached one before it. -/
theorem propagateRisk_again (hid : (results.map id).Nodup)
    (herror : ∀ r ∈ results, ∀ i ∈ r.issues, i.message = callsUnsafe.message → i.severity = .error) :
    propagateRisk g (propagateRisk g results) = propagateRisk g results := by
  obtain ⟨atRisk, hpass, hatRisk⟩ := propagateRisk_eq_map (g := g) hid herror
  rw [hpass]
  have hids : (results.map fun r => r.addIf (atRisk r) callsUnsafe).map id = results.map id := by
    simp [Function.comp_def]
  have herror' : ∀ r ∈ results.map (fun r => r.addIf (atRisk r) callsUnsafe), ∀ i ∈ r.issues,
      i.message = callsUnsafe.message → i.severity = .error := by
    intro r' hr' i hi hmessage
    obtain ⟨r, hr, rfl⟩ := List.mem_map.1 hr'
    rcases mem_issues_addIf hi with hi | ⟨-, rfl⟩
    · exact herror r hr i hi hmessage
    · rfl
  obtain ⟨again, hagain, hiff⟩ := propagateRisk_eq_map (g := g) (hids ▸ hid) herror'
  rw [hagain]
  refine (List.map_congr_left fun r' hr' => ?_).trans (List.map_id _)
  have hnot : again r' ≠ true := by
    intro hgains
    obtain ⟨hlacks, s', hs', hsevere, hpath⟩ := (hiff r' hr').1 hgains
    obtain ⟨r, hr, rfl⟩ := List.mem_map.1 hr'
    obtain ⟨s, hs, rfl⟩ := List.mem_map.1 hs'
    obtain ⟨hlacks, hnot⟩ := hasIssue_of_addIf hlacks
    rw [hids, id_addIf, id_addIf] at hpath
    have hrisk : atRisk r = true := by
      rw [hatRisk r hr]
      refine ⟨hlacks, ?_⟩
      -- The error was there before, or it is the message and a path leads on from there.
      simp only [hasSeverity, List.any_eq_true, beq_iff_eq] at hsevere
      obtain ⟨i, hi, hi'⟩ := hsevere
      rcases mem_issues_addIf hi with hi | ⟨hs', -⟩
      · refine ⟨s, hs, ?_, hpath⟩
        simp only [hasSeverity, List.any_eq_true, beq_iff_eq]
        exact ⟨i, hi, hi'⟩
      · obtain ⟨-, t, ht, herr, hfurther⟩ := (hatRisk s hs).1 hs'
        exact ⟨t, ht, herr, hpath.trans hfurther⟩
    rw [hrisk] at hnot
    cases hnot
  have hfalse : again r' = false := by simpa using hnot
  simp [hfalse, addIf]

open scoped Classical in
/-- **The risk spreads backwards along the calls among the functions with results, and once.** Where
its message is an error wherever it stands, the loop over the queue ends with these results. A
result gains the message at its end exactly if it lacked it and a path leads from its function to
one that had an error. Nothing else changes, and a second pass changes nothing. -/
theorem propagateRisk_exact (hid : (results.map id).Nodup)
    (herror : ∀ r ∈ results, ∀ i ∈ r.issues,
      i.message = "Calls async-unsafe function" → i.severity = .error) :
    ⟨[], propagateRisk g results⟩ ∈ StateTransition.eval (risk.turn g) ⟨erringIds results, results⟩ ∧
    List.Forall₂
      (fun r r' => r' =
        if r.hasIssue "Calls async-unsafe function" = false ∧
            ∃ s ∈ results, (∃ i ∈ s.issues, i.severity = .error) ∧
              TransGen (g.CallsAmong (results.map id)) r.id s.id
        then { r with issues := r.issues ++ [⟨"Calls async-unsafe function", .error⟩] }
        else r)
      results (propagateRisk g results) ∧
    propagateRisk g (propagateRisk g results) = propagateRisk g results := by
  refine ⟨?_, ?_, propagateRisk_again hid herror⟩
  · refine Spreading.loop_ends (s := risk) (fun r _ => ?_) _
    simp [risk, hasIssue_addIssue]
  · obtain ⟨atRisk, hpass, hatRisk⟩ := propagateRisk_eq_map (g := g) hid herror
    rw [hpass, List.forall₂_map_right_iff, List.forall₂_same]
    intro r hr
    have hiff := hatRisk r hr
    simp only [hasSeverity, List.any_eq_true, beq_iff_eq] at hiff
    split
    · next hgains =>
      rw [addIf_of_lacks hgains.1, if_pos (hiff.2 hgains)]
      rfl
    · next hgains =>
      have hnot : atRisk r = false := by simpa using fun h => hgains (hiff.1 h)
      simp [hnot, addIf]

/-- Two functions that call each other, one that calls itself, and one that has no result. -/
def riskyGraph : CallGraph :=
  .ofMapping [("a", ["b"]), ("b", ["a"]), ("c", ["c"]), ("d", ["x"]), ("x", ["b"]), ("e", ["c"])]

def resultOf (id : String) (issues : List AsyncIssue) : AsyncResult :=
  ⟨⟨id, id, "m.py", 1, 1⟩, issues, []⟩

def riskyResults : List AsyncResult :=
  [resultOf "a" [], resultOf "b" [⟨"Floating awaitable", .error⟩],
    resultOf "c" [callsUnsafe], resultOf "d" [], resultOf "e" []]

/-- An error comes back to its function through the cycle, and what has the message passes it on. -/
theorem propagateRisk_exact_cyclic :
    (riskyResults.map id).Nodup ∧
    (∀ r ∈ riskyResults, ∀ i ∈ r.issues,
      i.message = "Calls async-unsafe function" → i.severity = .error) ∧
    propagateRisk riskyGraph riskyResults =
      [resultOf "a" [callsUnsafe], resultOf "b" [⟨"Floating awaitable", .error⟩, callsUnsafe],
        resultOf "c" [callsUnsafe], resultOf "d" [], resultOf "e" [callsUnsafe]] ∧
    ⟨[], propagateRisk riskyGraph riskyResults⟩ ∈
      StateTransition.eval (risk.turn riskyGraph) ⟨["b", "c"], riskyResults⟩ ∧
    (∃ s ∈ riskyResults, (∃ i ∈ s.issues, i.severity = .error) ∧
      TransGen (riskyGraph.CallsAmong ["a", "b", "c", "d", "e"]) "b" s.id) ∧
    propagateRisk riskyGraph (propagateRisk riskyGraph riskyResults) =
      propagateRisk riskyGraph riskyResults := by
  have hid : (riskyResults.map id).Nodup := by decide +kernel
  have herror : ∀ r ∈ riskyResults, ∀ i ∈ r.issues,
      i.message = "Calls async-unsafe function" → i.severity = .error := by
    decide +kernel
  have heval : propagateRisk riskyGraph riskyResults =
      [resultOf "a" [callsUnsafe], resultOf "b" [⟨"Floating awaitable", .error⟩, callsUnsafe],
        resultOf "c" [callsUnsafe], resultOf "d" [], resultOf "e" [callsUnsafe]] := by
    decide +kernel
  obtain ⟨hloop, hall, hagain⟩ := propagateRisk_exact (g := riskyGraph) hid herror
  refine ⟨hid, herror, heval, hloop, ?_, hagain⟩
  rw [heval] at hall
  obtain ⟨-, hall⟩ := List.forall₂_cons.1 hall
  obtain ⟨hb, -⟩ := List.forall₂_cons.1 hall
  -- The result has changed, so there is a path.
  by_contra hnone
  rw [if_neg fun h => hnone h.2] at hb
  have hlength := congrArg (·.issues.length) hb
  simp [resultOf] at hlength

end AsyncResult

end EffectGraph
