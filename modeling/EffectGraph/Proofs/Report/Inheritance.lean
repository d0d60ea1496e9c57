/-
What a report says about a function, from what the functions show by themselves
and the paths of the call graph.

The passes run one after the other, each over the results of the one before.
They do not get in each other's way: the risk pass starts from errors that the
functions have by themselves, the last pass looks for messages that neither it
nor the risk pass adds, and no message is recorded twice. So the result of all
of them is read off the local findings and the graph (`inheritance_exact`).
-/
import EffectGraph.Proofs.Graph.Propagation
import EffectGraph.Proofs.Report.Findings

namespace EffectGraph.Project

variable {P : Project} {ignore : List String} {functions : List Function}

/-- A function with a reason of its own to be impure. -/
def ImpureItself (P : Project) (f : Function) : Prop :=
  ∃ own, P.localPurity f = .ok own ∧ own.reasons ≠ []

/-- A function with an issue of its own that is an error. -/
def ErrorItself (P : Project) (functions : List Function) (f : Function) : Prop :=
  ∃ own, P.localFlow functions f = .ok own ∧ ∃ i ∈ own.result.issues, i.severity = .error

/-- A function with an issue of its own that leaves something to await to its callers. -/
def AwaitableItself (P : Project) (functions : List Function) (f : Function) : Prop :=
  ∃ own, P.localFlow functions f = .ok own ∧
    ∃ i ∈ own.result.issues, i.message ∈ AsyncResult.awaitableMessages

/-! ## Results and functions -/

theorem map_id_of_map_label {α : Type} {label : α → Label} {results : List α}
    (h : functions.map (·.label) = results.map label) :
    functions.map Function.id = results.map fun r => (label r).id := by
  have hids := congrArg (List.map Label.id) h
  rw [List.map_map, List.map_map] at hids
  exact hids

theorem mem_ids_of_mem_graph {g : CallGraph} (h : P.callGraph functions = .ok g) {x : String}
    (hx : x ∈ g.ids) : x ∈ functions.map Function.id := by
  rwa [ids_callGraph h, List.mem_eraseDups] at hx

/-- What some result shows is what its function shows by itself. -/
theorem exists_result_iff {α : Type} {ask : Function → Analysis α} {label : α → Label}
    (hlabel : ∀ {f a}, ask f = .ok a → label a = f.label) {results : List α}
    (h : List.Forall₂ (fun f r => ask f = .ok r) functions results) {Q : α → Prop} {R : String → Prop} :
    (∃ s ∈ results, Q s ∧ R (label s).id) ↔
      ∃ k ∈ functions, (∃ own, ask k = .ok own ∧ Q own) ∧ R k.id := by
  constructor
  · rintro ⟨s, hs, hQ, hR⟩
    obtain ⟨k, hk, hks⟩ := exists_of_mem_right h hs
    exact ⟨k, hk, ⟨s, hks, hQ⟩, by rw [hlabel hks] at hR; exact hR⟩
  · rintro ⟨k, hk, ⟨s, hks, hQ⟩, hR⟩
    obtain ⟨s', hs', hks'⟩ := exists_of_mem_left h hk
    obtain rfl : s = s' := Except.ok.inj (hks.symm.trans hks')
    exact ⟨s, hs', hQ, by rw [hlabel hks]; exact hR⟩

/-! ## Impurity -/

open scoped Classical in
/-- A function keeps its own reasons, and without any it is impure exactly if it reaches a function
that has some. -/
theorem purity_exact {g : CallGraph} {results : List PurityResult}
    (hg : P.callGraph functions = .ok g) (hid : (functions.map Function.id).Nodup)
    (h : List.Forall₂ (fun f r => P.localPurity f = .ok r) functions results) :
    List.Forall₂
      (fun f r => r.label = f.label ∧ (r.isPure = true ↔ r.reasons = []) ∧
        ∃ own, P.localPurity f = .ok own ∧
          r.reasons =
            if own.reasons ≠ [] then own.reasons
            else if ∃ k ∈ functions, P.ImpureItself k ∧ g.Reaches f.id k.id
              then [PurityResult.callsImpure]
            else [])
      functions (PurityResult.propagate g results) := by
  have hids : functions.map Function.id = results.map PurityResult.id :=
    map_id_of_map_label (map_label_purity h)
  have hall : ∀ x ∈ g.ids, x ∈ results.map PurityResult.id := fun x hx =>
    hids ▸ mem_ids_of_mem_graph hg hx
  obtain ⟨inherits, hpass, hinherits⟩ := PurityResult.propagate_eq_map (g := g) (hids ▸ hid)
  simp only [CallGraph.transGen_callsAmong_iff hall] at hinherits
  rw [hpass, List.forall₂_map_right_iff]
  refine (forall₂_and_mem h).imp ?_
  rintro f own ⟨hown, -, hmem⟩
  obtain ⟨hlabel, hpure⟩ := localPurity_eq_ok hown
  have himpure : (∃ s ∈ results, s.isPure = false ∧ g.Reaches own.id s.id) ↔
      ∃ k ∈ functions, P.ImpureItself k ∧ g.Reaches f.id k.id := by
    rw [show own.id = f.id from congrArg Label.id hlabel]
    refine Iff.trans ?_ (exists_result_iff (fun hr => (localPurity_eq_ok hr).1) h)
    refine exists_congr fun s => and_congr_right fun hs => and_congr_left' ?_
    obtain ⟨k, -, hks⟩ := exists_of_mem_right h hs
    rw [(localPurity_eq_ok hks).2, List.isEmpty_eq_false_iff]
  have hiff := hinherits own hmem
  rw [himpure] at hiff
  by_cases hnone : own.reasons = []
  · have hp : own.isPure = true := by rw [hpure, hnone]; rfl
    by_cases hk : ∃ k ∈ functions, P.ImpureItself k ∧ g.Reaches f.id k.id
    · rw [if_pos (hiff.2 ⟨hp, hk⟩)]
      simp only [PurityResult.addReason, hnone, List.not_mem_nil, if_false, List.nil_append]
      exact ⟨hlabel, by simp, own, hown, by simp [hnone, hk]⟩
    · rw [if_neg fun hi => hk (hiff.1 hi).2]
      exact ⟨hlabel, by simp [hp, hnone], own, hown, by simp [hnone, hk]⟩
  · have hp : own.isPure = false := by rw [hpure, List.isEmpty_eq_false_iff]; exact hnone
    rw [if_neg fun hi => by rw [(hiff.1 hi).1] at hp; cases hp]
    exact ⟨hlabel, by simp [hp, hnone], own, hown, by simp [hnone]⟩

/-! ## Hazards -/

/-- Where the issues of two passes are new, the passes add them at the end and no message twice. -/
theorem issues_addIf_addIf {r : AsyncResult} (hr : (r.issues.map (·.message)).Nodup)
    (hown : ∀ i ∈ r.issues, ∃ k : Hazard, i = k.issue) (atRisk leaves : Bool) :
    let r' := (r.addIf atRisk AsyncResult.callsUnsafe).addIf leaves AsyncResult.callsAwaitable
    (r'.issues.map (·.message)).Nodup ∧
      r'.issues = r.issues ++ (if atRisk then [AsyncResult.callsUnsafe] else []) ++
        (if leaves then [AsyncResult.callsAwaitable] else []) := by
  have hunsafe : ∀ i ∈ r.issues, i.message ≠ AsyncResult.callsUnsafe.message := by
    intro i hi
    obtain ⟨k, rfl⟩ := hown i hi
    exact k.message_ne_callsUnsafe
  have hawaitable : ∀ i ∈ r.issues, i.message ≠ AsyncResult.callsAwaitable.message := by
    intro i hi
    obtain ⟨k, rfl⟩ := hown i hi
    exact k.message_ne_callsAwaitable
  have hne : AsyncResult.callsUnsafe.message ≠ AsyncResult.callsAwaitable.message := by decide
  have first := AsyncResult.issues_addIf hunsafe atRisk
  have hawaitable' : ∀ i ∈ (r.addIf atRisk AsyncResult.callsUnsafe).issues,
      i.message ≠ AsyncResult.callsAwaitable.message := by
    intro i hi
    rw [first, List.mem_append] at hi
    rcases hi with hi | hi
    · exact hawaitable i hi
    · split at hi
      · rw [List.mem_singleton.1 hi]
        exact hne
      · simp at hi
  have second := AsyncResult.issues_addIf hawaitable' leaves
  rw [first] at second
  refine ⟨?_, second⟩
  rw [second]
  cases atRisk <;> cases leaves <;> simp_all [List.nodup_append]

open scoped Classical in
/-- A function keeps its own issues. It inherits the risk exactly if it reaches a function with an
error of its own, and is told of an unawaited result exactly if it calls a function that leaves one. -/
theorem async_exact {g : CallGraph} {flows : List AsyncFlow}
    (hg : P.callGraph functions = .ok g) (hid : (functions.map Function.id).Nodup)
    (h : List.Forall₂ (fun f r => P.localFlow functions f = .ok r) functions flows) :
    List.Forall₂
      (fun f r => r.label = f.label ∧ (r.issues.map (·.message)).Nodup ∧
        ∃ own, P.localFlow functions f = .ok own ∧ r.awaitableCalls = own.result.awaitableCalls ∧
          r.issues = own.result.issues
            ++ (if ∃ k ∈ functions, P.ErrorItself functions k ∧ g.Reaches f.id k.id
                then [AsyncResult.callsUnsafe] else [])
            ++ (if ∃ k ∈ functions, P.AwaitableItself functions k ∧ g.Calls f.id k.id
                then [AsyncResult.callsAwaitable] else []))
      functions (AsyncResult.propagateReturns g AsyncResult.awaitableMessages
        (AsyncResult.propagateRisk g (flows.map (·.result)))) := by
  have hids : functions.map Function.id = (flows.map (·.result)).map AsyncResult.id :=
    map_id_of_map_label (map_label_flows h)
  have hall : ∀ x ∈ g.ids, x ∈ (flows.map (·.result)).map AsyncResult.id := fun x hx =>
    hids ▸ mem_ids_of_mem_graph hg hx
  have hfree : ∀ r ∈ flows.map (·.result), ∀ i ∈ r.issues,
      i.message ≠ AsyncResult.callsUnsafe.message := by
    intro r hr i hi
    obtain ⟨flow, hflow, rfl⟩ := List.mem_map.1 hr
    obtain ⟨f, -, hf⟩ := exists_of_mem_right h hflow
    obtain ⟨k, rfl⟩ := (localFlow_eq_ok hf).2.2 i hi
    exact k.message_ne_callsUnsafe
  obtain ⟨atRisk, hrisk, hatRisk⟩ := AsyncResult.propagateRisk_eq_map (g := g) (hids ▸ hid)
    fun r hr i hi he => absurd he (hfree r hr i hi)
  simp only [CallGraph.transGen_callsAmong_iff hall] at hatRisk
  have hids' : ((AsyncResult.propagateRisk g (flows.map (·.result))).map AsyncResult.id).Nodup := by
    simpa [hrisk, Function.comp_def, hids] using hid
  obtain ⟨leaves, hreturns, hleaves⟩ :=
    AsyncResult.propagateReturns_eq_map AsyncResult.callsAwaitable_notMem_awaitableMessages (g := g) hids'
  rw [hrisk] at hreturns hleaves
  rw [hrisk, hreturns, List.map_map, List.map_map, List.forall₂_map_right_iff]
  refine (forall₂_and_mem h).imp ?_
  rintro f own ⟨hf, -, hmem⟩
  have hmem : own.result ∈ flows.map (·.result) := List.mem_map_of_mem hmem
  obtain ⟨hlabel, hnodup, hown⟩ := localFlow_eq_ok hf
  have hfid : own.result.id = f.id := congrArg Label.id hlabel
  have hlabels : ∀ {k : Function} {flow : AsyncFlow}, P.localFlow functions k = .ok flow →
      flow.result.label = k.label := fun hk => (localFlow_eq_ok hk).1
  have hiffRisk : atRisk own.result = true ↔
      ∃ k ∈ functions, P.ErrorItself functions k ∧ g.Reaches f.id k.id := by
    have hlacks : own.result.hasIssue AsyncResult.callsUnsafe.message = false := by
      simpa [AsyncResult.hasIssue] using hfree _ hmem
    rw [hatRisk _ hmem, hfid, and_iff_right hlacks]
    refine Iff.trans ?_ (exists_result_iff hlabels h)
    simp [AsyncResult.hasSeverity, AsyncResult.id]
  have hiffLeaves : leaves (own.result.addIf (atRisk own.result) AsyncResult.callsUnsafe) = true ↔
      ∃ k ∈ functions, P.AwaitableItself functions k ∧ g.Calls f.id k.id := by
    rw [hleaves _ (List.mem_map_of_mem hmem), AsyncResult.id_addIf, hfid]
    refine Iff.trans ?_ (exists_result_iff hlabels h)
    simp only [List.mem_map, exists_exists_and_eq_and, AsyncResult.id_addIf,
      AsyncResult.carriesAny_addIf AsyncResult.callsUnsafe_notMem_awaitableMessages]
    simp [AsyncResult.carriesAny, AsyncResult.id]
  obtain ⟨hmessages, hissues⟩ := issues_addIf_addIf hnodup hown (atRisk own.result)
    (leaves (own.result.addIf (atRisk own.result) AsyncResult.callsUnsafe))
  refine ⟨by simpa using hlabel, hmessages, own, hf, by simp, ?_⟩
  rw [if_congr hiffRisk rfl rfl, if_congr hiffLeaves rfl rfl] at hissues
  exact hissues

/-! ## Reports -/

open scoped Classical in
/-- **Final results from local findings and the call graph.** With one id for each function, the
reasons of a function are its own, or one that says it calls an impure function if it reaches a
function with reasons of its own. Its issues are its own, then one for the errors it reaches, then
one for a direct callee that leaves something to await; no message occurs twice. -/
theorem inheritance_exact {report : Report} (h : P.analyze ignore = .ok report)
    (hid : ((P.functions ignore).map Function.id).Nodup) :
    report.functions = (P.functions ignore).map (·.label) ∧
    P.callGraph (P.functions ignore) = .ok report.graph ∧
    List.Forall₂
      (fun f r => r.label = f.label ∧ (r.isPure = true ↔ r.reasons = []) ∧
        ∃ own, P.localPurity f = .ok own ∧
          r.reasons =
            if own.reasons ≠ [] then own.reasons
            else if ∃ k ∈ P.functions ignore, P.ImpureItself k ∧ report.graph.Reaches f.id k.id
              then ["Calls impure function"]
            else [])
      (P.functions ignore) report.purity ∧
    List.Forall₂
      (fun f r => r.label = f.label ∧ (r.issues.map (·.message)).Nodup ∧
        ∃ own, P.localFlow (P.functions ignore) f = .ok own ∧
          r.awaitableCalls = own.result.awaitableCalls ∧
          r.issues = own.result.issues
            ++ (if ∃ k ∈ P.functions ignore,
                  P.ErrorItself (P.functions ignore) k ∧ report.graph.Reaches f.id k.id
                then [⟨"Calls async-unsafe function", .error⟩] else [])
            ++ (if ∃ k ∈ P.functions ignore,
                  P.AwaitableItself (P.functions ignore) k ∧ report.graph.Calls f.id k.id
                then [⟨"Calls awaitable-returning function without await", .error⟩] else []))
      (P.functions ignore) report.async := by
  obtain ⟨found, hfound, rfl⟩ := analyze_eq_ok h
  obtain ⟨hfunctions, hgraph, hpurity, hflows⟩ := findings_eq_ok hfound
  exact ⟨congrArg _ hfunctions, hgraph, purity_exact hgraph hid hpurity, async_exact hgraph hid hflows⟩

theorem inheritance_exact_sample :
    ∃ report, sample.analyze [] = .ok report ∧ ((sample.functions []).map Function.id).Nodup ∧
      report.purity.map (·.reasons) = [["Calls impure function"], ["Writes to console"], []] ∧
      sample.callGraph (sample.functions []) = .ok report.graph ∧
      List.Forall₂ (fun f r => r.label = f.label ∧ (r.issues.map (·.message)).Nodup)
        (sample.functions []) report.async := by
  have hid : ((sample.functions []).map Function.id).Nodup := by decide +kernel
  have heval : (sample.analyze []).toOption.map (·.purity.map (·.reasons)) =
      some [["Calls impure function"], ["Writes to console"], []] := by
    decide +kernel
  obtain ⟨report, h, hreasons⟩ := exists_ok_of_map_toOption heval
  obtain ⟨-, hgraph, -, hasync⟩ := inheritance_exact h hid
  exact ⟨report, h, hid, hreasons, hgraph, hasync.imp fun f r hr => ⟨hr.1, hr.2.1⟩⟩

end EffectGraph.Project
