/-
The summary of a report against its document.

The numbers of a summary come from a counter of edges, a flag that two passes
set and a filtered copy of the hazards, and the document lists everything once
more. `Totals` says that both agree. The flag is the part with a history: it is
off exactly where there is a reason, which holds of what is found in a function
by itself and is kept by everything that adds a reason (`mem_propagate_settled`).
-/
import EffectGraph.Proofs.Graph.Propagation
import EffectGraph.Proofs.Report.Findings
import EffectGraph.Report.Document

namespace EffectGraph

/-! ## Thresholds -/

/-- The more serious of two. -/
def Severity.higher (s t : Severity) : Severity := if t.atLeast s then t else s

theorem Severity.atLeast_higher (x s t : Severity) :
    x.atLeast (s.higher t) = (x.atLeast s && x.atLeast t) := by
  cases x <;> cases s <;> cases t <;> rfl

namespace AsyncResult

theorem atLeast_atLeast (r : AsyncResult) (s t : Severity) :
    (r.atLeast s).atLeast t = r.atLeast (s.higher t) := by
  simp only [atLeast, List.filter_filter, Severity.atLeast_higher]
  congr 2
  funext i
  exact Bool.and_comm _ _

theorem mem_filter {r : AsyncResult} {results : List AsyncResult} {t : Severity} :
    r ∈ filter results t ↔ (∃ r' ∈ results, r'.atLeast t = r) ∧ r.issues ≠ [] := by
  simp [filter]

theorem filter_cons (r : AsyncResult) (results : List AsyncResult) (t : Severity) :
    filter (r :: results) t =
      if (r.atLeast t).issues = [] then filter results t else r.atLeast t :: filter results t := by
  simp only [filter, List.map_cons, List.filter_cons]
  cases h : (r.atLeast t).issues <;> simp

/-- What is serious enough twice is as serious as the higher threshold asks. -/
theorem filter_filter (results : List AsyncResult) (s t : Severity) :
    filter (filter results s) t = filter results (s.higher t) := by
  induction results with
  | nil => rfl
  | cons r results ih =>
    rw [filter_cons r results s, filter_cons r results (s.higher t), ← atLeast_atLeast]
    by_cases h : (r.atLeast s).issues = []
    · -- A result that is dropped at first has nothing to keep afterwards.
      have hnone : ((r.atLeast s).atLeast t).issues = [] := by
        rw [atLeast, h]
        rfl
      rw [if_pos h, if_pos hnone, ih]
    · rw [if_neg h, filter_cons, ih]

end AsyncResult

/-! ## Purity and its reasons -/

theorem forall_mem_updateLast {α : Type} {idOf : α → String} {ids : List String} {update : α → α}
    {p : α → Prop} (hp : ∀ r, p r → p (update r)) {results : List α} (h : ∀ r ∈ results, p r) :
    ∀ r ∈ updateLast idOf ids update results, p r := by
  induction results with
  | nil => exact h
  | cons r results ih =>
    rw [List.forall_mem_cons] at h
    rw [updateLast, List.forall_mem_cons]
    refine ⟨?_, ih h.2⟩
    split
    · exact hp r h.1
    · exact h.1

namespace PurityResult

/-- The flag says whether there are reasons. -/
def Settled (r : PurityResult) : Prop := r.isPure = r.reasons.isEmpty

theorem Settled.addReason {r : PurityResult} (h : r.Settled) (reason : String) :
    (r.addReason reason).2.Settled := by
  unfold PurityResult.addReason
  split
  · exact h
  · simp [Settled]

theorem mem_propagate_settled {g : CallGraph} {results : List PurityResult}
    (h : ∀ r ∈ results, r.Settled) : ∀ r ∈ propagate g results, r.Settled :=
  forall_mem_updateLast (fun _ hr => hr.addReason callsImpure) h

end PurityResult

/-! ## Reports -/

namespace Project

variable {P : Project} {ignore : List String} {r : Report}

theorem settled_of_mem_purity (h : P.analyze ignore = .ok r) : ∀ p ∈ r.purity, p.Settled := by
  obtain ⟨found, hfound, rfl⟩ := analyze_eq_ok h
  obtain ⟨-, -, hpurity, -⟩ := findings_eq_ok hfound
  refine PurityResult.mem_propagate_settled fun p hp => ?_
  obtain ⟨f, -, hf⟩ := exists_of_mem_right hpurity hp
  exact (localPurity_eq_ok hf).2

theorem map_label_report_purity (h : P.analyze ignore = .ok r) :
    r.purity.map (·.label) = r.functions := by
  obtain ⟨found, hfound, rfl⟩ := analyze_eq_ok h
  obtain ⟨hfunctions, -, hpurity, -⟩ := findings_eq_ok hfound
  calc (PurityResult.propagate found.graph found.purity).map (·.label)
      = found.purity.map (·.label) := map_updateLast (fun p => PurityResult.label_addReason p _) _
    _ = (P.functions ignore).map (·.label) := (map_label_purity hpurity).symm
    _ = found.functions.map (·.label) := by rw [hfunctions]

/-- What the passes do not touch stays as the functions show it by themselves. -/
theorem map_report_async {β : Type} {k : AsyncResult → β}
    (hk : ∀ a issue, k (AsyncResult.addIssue a issue).2 = k a) (found : Findings) (errors : List String) :
    (found.report errors).async.map k = found.flows.map fun flow => k flow.result := by
  simp only [Findings.report, AsyncResult.propagateRisk]
  rw [AsyncResult.propagateReturns_eq AsyncResult.callsAwaitable_notMem_awaitableMessages,
    map_updateLast fun a => hk a _, map_updateLast fun a => hk a _, List.map_map]
  rfl

theorem map_label_report_async (h : P.analyze ignore = .ok r) :
    r.async.map (·.label) = r.functions := by
  obtain ⟨found, hfound, rfl⟩ := analyze_eq_ok h
  obtain ⟨hfunctions, -, -, hflows⟩ := findings_eq_ok hfound
  have hlabels := map_label_flows hflows
  rw [List.map_map, ← hfunctions] at hlabels
  rw [map_report_async AsyncResult.label_addIssue]
  exact hlabels.symm

end Project

/-! ## Documents -/

namespace Document

/-- The value of a field. -/
def field? : Document → String → Option Document
  | record fields, key => fields.lookup key
  | _, _ => none

/-- The items of a list. -/
def items : Document → List Document
  | list items => items
  | _ => []

def number? (doc : Document) (key : String) : Option Nat :=
  match doc.field? key with
  | some (number n) => some n
  | _ => none

def flag? (doc : Document) (key : String) : Option Bool :=
  match doc.field? key with
  | some (flag b) => some b
  | _ => none

def itemsOf (doc : Document) (key : String) : List Document := ((doc.field? key).map items).getD []

/-- The numbers of a summary are those of the lists that it sums up. -/
structure Totals (graph : List (String × Document)) (purity async errors : List Document)
    (summary : Document) : Prop where
  distinct : (graph.map (·.1)).Nodup
  functions : summary.number? "functions" = some purity.length
  edges : summary.number? "edges" = some (graph.map fun row => row.2.items.length).sum
  impure : summary.number? "impure" = some (purity.filter (·.flag? "isPure" == some false)).length
  reasons : ∀ p ∈ purity, ∃ isPure, p.flag? "isPure" = some isPure ∧
    (isPure = false ↔ p.itemsOf "reasons" ≠ [])
  asyncIssues : summary.number? "asyncIssues" =
    some (async.map fun a => (a.itemsOf "issues").length).sum
  serious : ∀ a ∈ async, a.itemsOf "issues" ≠ []
  skippedFiles : summary.number? "skippedFiles" = some errors.length

@[simp] theorem length_items_ofTexts (texts : List String) : (ofTexts texts).items.length = texts.length := by
  simp [ofTexts, items]

@[simp] theorem flag?_ofPurity (p : PurityResult) : (ofPurity p).flag? "isPure" = some p.isPure := rfl

@[simp] theorem itemsOf_ofPurity (p : PurityResult) :
    (ofPurity p).itemsOf "reasons" = p.reasons.map .text := rfl

@[simp] theorem length_itemsOf_ofAsync (a : AsyncResult) :
    ((ofAsync a).itemsOf "issues").length = a.issues.length :=
  List.length_map _

/-- The document of a report has a summary of its own lists. -/
theorem exists_totals {P : Project} {ignore : List String} {r : Report}
    (h : P.analyze ignore = .ok r) (t : Severity) :
    ∃ graph purity async errors, ofReport r t =
        .record [("graph", .record graph), ("purity", .list purity), ("async", .list async),
          ("errors", .list errors), ("summary", ofSummary (r.summary t))] ∧
      Totals graph purity async errors (ofSummary (r.summary t)) := by
  refine ⟨_, _, _, _, rfl, ?_⟩
  constructor
  case distinct =>
    rw [List.map_map]
    exact r.graph.forward.nodup_keys
  case functions =>
    have hlength := congrArg List.length (Project.map_label_report_purity h)
    rw [List.length_map] at hlength
    rw [List.length_map, hlength]
    rfl
  case edges =>
    have hcount : r.graph.edgeCount = (r.graph.toMapping.map (·.2.length)).sum :=
      r.graph.edgeCount_eq.trans r.graph.forward.length_pairs
    rw [List.map_map]
    simp only [Function.comp_def, length_items_ofTexts, ← hcount]
    rfl
  case impure =>
    rw [List.filter_map, List.length_map]
    have hflag : (fun p => (ofPurity p).flag? "isPure" == some false) = fun p => !p.isPure := by
      funext p
      rw [flag?_ofPurity]
      cases p.isPure <;> rfl
    simp only [Function.comp_def, hflag]
    rfl
  case reasons =>
    intro p hp
    obtain ⟨p, hmem, rfl⟩ := List.mem_map.1 hp
    refine ⟨p.isPure, flag?_ofPurity p, ?_⟩
    rw [Project.settled_of_mem_purity h p hmem, itemsOf_ofPurity]
    simp
  case asyncIssues =>
    rw [List.map_map]
    simp only [Function.comp_def, length_itemsOf_ofAsync, ← List.length_flatMap]
    rfl
  case serious =>
    intro a ha
    obtain ⟨a, hmem, rfl⟩ := List.mem_map.1 ha
    have hissues := (AsyncResult.mem_filter.1 hmem).2
    rw [← List.length_pos_iff, length_itemsOf_ofAsync]
    exact List.length_pos_iff.2 hissues
  case skippedFiles =>
    rw [List.length_map]
    rfl

end Document

end EffectGraph
