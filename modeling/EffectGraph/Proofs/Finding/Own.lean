/-
What the analyses find in a function by itself.

A result carries the label of its function. The issues of a function are
hazards, each once, and no two hazards have one message, nor has a hazard the
message of an issue that callers inherit. So the issues that a function has by
itself and those it inherits never get in each other's way.
-/
import EffectGraph.Finding.Effect
import EffectGraph.Graph.Propagation
import EffectGraph.Proofs.Graph.Growth
import EffectGraph.Proofs.Model.Analysis

namespace EffectGraph

theorem mem_collectFindings {α : Type} {x : α} :
    ∀ {steps : List (Analysis (List α))}, x ∈ (collectFindings steps).1 →
      ∃ found, .ok found ∈ steps ∧ x ∈ found
  | [], h => by simp [collectFindings] at h
  | .error e :: rest, h => by simp [collectFindings] at h
  | .ok found :: rest, h => by
    rw [collectFindings, List.mem_append] at h
    rcases h with h | h
    · exact ⟨found, by simp, h⟩
    · obtain ⟨more, hmore, hx⟩ := mem_collectFindings h
      exact ⟨more, by simp [hmore], hx⟩

/-- Every finding of a walk comes from one of its steps. -/
theorem mem_findingsOf {α : Type} {steps : List (Analysis (List α))} {all : List α}
    (h : findingsOf steps = .ok all) {x : α} (hx : x ∈ all) : ∃ found, .ok found ∈ steps ∧ x ∈ found := by
  refine mem_collectFindings ?_
  unfold findingsOf at h
  split at h <;> cases h <;> simp_all

/-! ## Hazards -/

namespace Hazard

theorem message_injective : Function.Injective message := by
  intro a b h
  cases a <;> cases b <;> first | rfl | simp [message] at h

theorem message_ne_callsUnsafe (h : Hazard) : h.message ≠ AsyncResult.callsUnsafe.message := by
  cases h <;> decide

theorem message_ne_callsAwaitable (h : Hazard) : h.message ≠ AsyncResult.callsAwaitable.message := by
  cases h <;> decide

end Hazard

namespace AsyncResult

theorem callsUnsafe_notMem_awaitableMessages : callsUnsafe.message ∉ awaitableMessages := by
  decide

theorem callsAwaitable_notMem_awaitableMessages : callsAwaitable.message ∉ awaitableMessages := by
  decide

end AsyncResult

/-- Whether a note tells of one call: that it is awaitable, or what is wrong with it. -/
def Note.isAboutCall : Note → Bool
  | .callsAwaitable => true
  | .hazard k => k != .missingBoundary
  | _ => false

namespace Project

variable {P : Project} {functions : List Function} {f : Function}

/-- The step that names the function an awaitable call runs. -/
def calleeNotes (P : Project) (functions : List Function) (f : Function) (v : Visit) :
    Analysis (List Note) := do
  if ← P.isAwaitable f.file v.node then
    return ((← P.calleeId functions f.file v.node).map Note.awaitableCallee).toList
  else return []

theorem mem_calleeNotes {v : Visit} {found : List Note} (h : P.calleeNotes functions f v = .ok found)
    {note : Note} (hnote : note ∈ found) : ∃ id, note = .awaitableCallee id := by
  obtain ⟨b, -, h⟩ := Analysis.bind_eq_ok.1 h
  cases b with
  | false =>
    cases h
    cases hnote
  | true =>
    obtain ⟨id, -, h⟩ := Analysis.bind_eq_ok.1 h
    cases h
    obtain ⟨id, -, rfl⟩ := Option.map_eq_some_iff.1 (Option.mem_toList.1 hnote)
    exact ⟨id, rfl⟩

/-- One step names the function that a call runs. The others do not look at the inventory, and give
notes about the call alone. -/
theorem callNotes_eq (P : Project) (f : Function) (v : Visit) : ∃ first rest,
    (∀ functions, P.callNotes functions f v = first :: P.calleeNotes functions f v :: rest) ∧
      ∀ step ∈ first :: rest, ∀ found, step = .ok found → ∀ note ∈ found, note.isAboutCall = true := by
  have noteIf : ∀ {k : Hazard} (b : Bool), k ≠ .missingBoundary →
      ∀ note ∈ (if b then [Note.hazard k] else []), note.isAboutCall = true := by
    intro k b hk note hnote
    cases b with
    | false => cases hnote
    | true =>
      obtain rfl := List.mem_singleton.1 hnote
      simpa [Note.isAboutCall] using hk
  refine ⟨_, _, fun functions => rfl, ?_⟩
  simp only [List.forall_mem_cons, List.not_mem_nil, false_implies, implies_true, and_true]
  refine ⟨fun found h => ?_, fun found h => ?_, fun found h => ?_, fun found h => ?_, fun found h => ?_,
    fun found h => ?_⟩
  · obtain ⟨b, -, h⟩ := Analysis.bind_eq_ok.1 h
    cases b with
    | false =>
      cases h
      simp
    | true =>
      cases h
      cases v.isConsumed <;> cases v.inLoop <;> simp [Note.isAboutCall]
  · obtain ⟨b, -, h⟩ := Analysis.bind_eq_ok.1 h
    cases h
    exact noteIf b (by decide)
  · obtain ⟨b, -, h⟩ := Analysis.bind_eq_ok.1 h
    cases b with
    | false =>
      cases h
      simp
    | true =>
      obtain ⟨c, -, h⟩ := Analysis.bind_eq_ok.1 h
      cases h
      exact noteIf c (by decide)
  · obtain ⟨q, -, h⟩ := Analysis.bind_eq_ok.1 h
    obtain ⟨b, -, h⟩ := Analysis.bind_eq_ok.1 h
    cases h
    exact noteIf b (by decide)
  · obtain ⟨q, -, h⟩ := Analysis.bind_eq_ok.1 h
    obtain ⟨b, -, h⟩ := Analysis.bind_eq_ok.1 h
    cases h
    exact noteIf b (by decide)
  · cases h
    exact noteIf _ (by decide)

theorem missingBoundary_notMem_callNotes {v : Visit} {found : List Note}
    (h : .ok found ∈ P.callNotes functions f v) : Note.hazard .missingBoundary ∉ found := by
  intro hnote
  obtain ⟨first, rest, hnotes, hothers⟩ := callNotes_eq P f v
  rw [hnotes, List.mem_cons, List.mem_cons] at h
  rcases h with h | h | h
  · cases hothers first (by simp) found h.symm _ hnote
  · obtain ⟨id, he⟩ := mem_calleeNotes h.symm hnote
    cases he
  · cases hothers (.ok found) (by simp [h]) found rfl _ hnote

/-- Every note of a body tells of a node: that it waits or handles errors, or what it calls. -/
theorem exists_visit_of_mem_notes {notes : List Note} (h : P.notes functions f = .ok notes) {note : Note}
    (hnote : note ∈ notes) :
    ∃ v ∈ f.node.bodyVisits,
      (note = .suspends ∧ v.ownScope = true ∧ v.node.kind.suspends = true ∨
        note = .boundary ∧ v.ownScope = true ∧ v.isBoundary = true) ∨
      v.node.kind = .call ∧ ∃ found, .ok found ∈ P.callNotes functions f v ∧ note ∈ found := by
  obtain ⟨found, hfound, hnote⟩ := mem_findingsOf h hnote
  obtain ⟨v, hv, hfound⟩ := List.mem_flatMap.1 hfound
  refine ⟨v, hv, ?_⟩
  rcases List.mem_cons.1 hfound with hfound | hfound
  · cases hfound
    left
    rcases List.mem_append.1 hnote with hnote | hnote <;> split at hnote <;> simp_all
  · split at hfound
    · next hcall => exact .inr ⟨eq_of_beq hcall, found, hfound, hnote⟩
    · cases hfound

/-- A missing boundary is told by a whole body, never by one of its nodes. -/
theorem missingBoundary_notMem_notes {notes : List Note} (h : P.notes functions f = .ok notes) :
    Note.hazard .missingBoundary ∉ notes := by
  intro hm
  obtain ⟨v, -, (⟨he, -⟩ | ⟨he, -⟩) | ⟨-, found, hfound, hm⟩⟩ := exists_visit_of_mem_notes h hm
  · cases he
  · cases he
  · exact missingBoundary_notMem_callNotes hfound hm

theorem mem_hazardsOf {notes : List Note} {k : Hazard} :
    k ∈ hazardsOf f notes ↔ .hazard k ∈ notes ∨ k = .missingBoundary ∧ lacksBoundary f notes = true := by
  unfold hazardsOf
  rw [List.mem_append, List.mem_eraseDups, List.mem_filterMap]
  refine or_congr ⟨?_, fun hnote => ⟨_, hnote, rfl⟩⟩ (by cases lacksBoundary f notes <;> simp)
  rintro ⟨note, hnote, he⟩
  cases note with
  | hazard k' =>
    cases he
    exact hnote
  | suspends | boundary | callsAwaitable | awaitableCallee => cases he

theorem nodup_hazardsOf {notes : List Note} (h : Note.hazard .missingBoundary ∉ notes) :
    (hazardsOf f notes).Nodup := by
  unfold hazardsOf
  refine List.nodup_append.2 ⟨CallGraph.nodup_eraseDups _, by split <;> simp, ?_⟩
  intro a ha b hb hab
  split at hb
  · rw [List.mem_singleton] at hb
    rw [List.mem_eraseDups, List.mem_filterMap] at ha
    obtain ⟨note, hnote, ha⟩ := ha
    cases note with
    | hazard k =>
      cases ha
      rw [hab, hb] at hnote
      exact h hnote
    | suspends | boundary | callsAwaitable | awaitableCallee => cases ha
  · simp at hb

/-! ## Results -/

theorem localPurity_eq_ok {r : PurityResult} (h : P.localPurity f = .ok r) :
    r.label = f.label ∧ r.isPure = r.reasons.isEmpty := by
  obtain ⟨effects, -, h⟩ := Analysis.bind_eq_ok.1 h
  cases h
  exact ⟨rfl, rfl⟩

/-- The issues of a function by itself are hazards, and no two have one message. -/
theorem localFlow_eq_ok {flow : AsyncFlow} (h : P.localFlow functions f = .ok flow) :
    flow.result.label = f.label ∧ (flow.result.issues.map (·.message)).Nodup ∧
      ∀ i ∈ flow.result.issues, ∃ k : Hazard, i = k.issue := by
  obtain ⟨notes, hnotes, h⟩ := Analysis.bind_eq_ok.1 h
  cases h
  refine ⟨rfl, ?_, fun i hi => ?_⟩
  · simp only [List.map_map]
    exact List.Nodup.map Hazard.message_injective (nodup_hazardsOf (missingBoundary_notMem_notes hnotes))
  · obtain ⟨k, -, rfl⟩ := List.mem_map.1 hi
    exact ⟨k, rfl⟩

end Project

end EffectGraph
