/-
More ignored files restrict a report and change nothing else in it.

Files that match a pattern are still read, so every question about the code has
the same answer; only the inventory is smaller. An id tells its path, so the
functions of an id stay or go together, and what a call runs is known by the
same id as long as it stays (`idOf?_restricted`). So the graph is the one
induced on the ids that stay, and what a function shows by itself stays, but
for the awaitable functions that it calls and that are left out. What callers
inherit can only become less (`Induced`).
-/
import EffectGraph.Proofs.Graph.Induced
import EffectGraph.Proofs.Report.Modularity

namespace EffectGraph.Project

variable {P : Project} {ignore more : List String}

/-! ## The inventory -/

theorem isIgnored_mono (h : ignore ⊆ more) {path : String} (hi : isIgnored ignore path = true) :
    isIgnored more path = true := by
  obtain ⟨p, hp, hoccurs⟩ := List.any_eq_true.1 hi
  obtain ⟨hp, hne⟩ := List.mem_filter.1 hp
  exact List.any_eq_true.2 ⟨p, List.mem_filter.2 ⟨h hp, hne⟩, hoccurs⟩

theorem functions_restricted (h : ignore ⊆ more) (P : Project) :
    P.functions more = (P.functions ignore).filter (!isIgnored more ·.label.path) := by
  rw [functions_eq, functions_eq, List.filter_flatMap]
  refine List.flatMap_congr fun x _ => ?_
  rw [filter_fileFunctions ignore (fun path => !isIgnored more path)]
  cases hmore : isIgnored more x.1.source.path with
  | true => simp [fileFunctions, isAnalyzed, hmore]
  | false =>
    have hignore : isIgnored ignore x.1.source.path = false := by
      by_contra hi
      rw [isIgnored_mono h (by simpa using hi)] at hmore
      cases hmore
    simp [fileFunctions, isAnalyzed, hmore, hignore]

/-- Whether an id is that of a function that stays. -/
def remains (P : Project) (ignore : List String) (id : String) : Bool :=
  ((P.functions ignore).map Function.id).contains id

theorem remains_iff {id : String} :
    P.remains ignore id = true ↔ ∃ f ∈ P.functions ignore, f.id = id := by
  rw [remains, List.contains_iff_mem, List.mem_map]

theorem remains_of_mem (h : ignore ⊆ more) {f : Function} (hf : f ∈ P.functions ignore) :
    P.remains more f.id = !isIgnored more f.label.path := by
  rw [Bool.eq_iff_iff, remains_iff, functions_restricted h]
  constructor
  · intro ⟨k, hk, hid⟩
    obtain ⟨hk, hpath⟩ := List.mem_filter.1 hk
    rwa [path_eq_of_id_eq hk hf hid] at hpath
  · intro hpath
    exact ⟨f, List.mem_filter.2 ⟨hf, hpath⟩, rfl⟩

/-! ## Calls -/

theorem idOf?_restricted (h : ignore ⊆ more) (d : Definition) :
    idOf? (P.functions more) d = (idOf? (P.functions ignore) d).filter (P.remains more) := by
  refine Option.ext fun id => ?_
  rw [idOf?_eq_some_iff, Option.filter_eq_some_iff, idOf?_eq_some_iff]
  constructor
  · intro ⟨f, hf, hsame, hid⟩
    refine ⟨⟨f, ?_, hsame, hid⟩, remains_iff.2 ⟨f, hf, hid⟩⟩
    rw [functions_restricted h] at hf
    exact (List.mem_filter.1 hf).1
  · intro ⟨⟨f, hf, hsame, hid⟩, hremains⟩
    refine ⟨f, ?_, hsame, hid⟩
    rw [← hid, remains_of_mem h hf] at hremains
    rw [functions_restricted h]
    exact List.mem_filter.2 ⟨hf, hremains⟩

theorem calleeId_restricted (h : ignore ⊆ more) (file : Nat) (call : Node) :
    Analysis.Related (fun id id' => id' = Option.filter (P.remains more) id)
      (P.calleeId (P.functions ignore) file call) (P.calleeId (P.functions more) file call) := by
  unfold calleeId
  refine (Analysis.Related.eq_iff.2 rfl).bind fun d d' hd => ?_
  subst hd
  cases d with
  | none => exact .done rfl
  | some d =>
    refine .done ?_
    cases P.isOwn d with
    | false => rfl
    | true => exact idOf?_restricted h d

theorem answer_restricted (h : ignore ⊆ more) (f : Function) (call : Node) :
    P.answer (P.functions more) f call = (P.answer (P.functions ignore) f call).filter (P.remains more) := by
  have hrelated := P.calleeId_restricted h f.file call
  unfold answer
  generalize P.calleeId (P.functions ignore) f.file call = x at hrelated
  generalize P.calleeId (P.functions more) f.file call = y at hrelated
  cases hrelated with
  | aborted e => rfl
  | done he => exact he

/-! ## The graph -/

section Graph

variable (h : ignore ⊆ more) {g g' : CallGraph} (hg : P.callGraph (P.functions ignore) = .ok g)
  (hg' : P.callGraph (P.functions more) = .ok g')

include h hg hg'

theorem ids_restricted : g'.ids = g.ids.filter (P.remains more) := by
  rw [ids_callGraph hg, ids_callGraph hg', ← CallGraph.eraseDups_filter, List.filter_map, functions_restricted h]
  refine congrArg (fun fs => (fs.map Function.id).eraseDups) (List.filter_congr fun f hf => ?_)
  exact (remains_of_mem h hf).symm

theorem callees_restricted {u : String} (hu : P.remains more u = true) :
    g'.callees u = (g.callees u).filter (P.remains more) := by
  -- All functions with the id stay.
  have hsame : (P.functions more).filter (·.id == u) = (P.functions ignore).filter (·.id == u) := by
    rw [functions_restricted h, List.filter_filter]
    refine List.filter_congr fun f hf => ?_
    cases hid : f.id == u with
    | false => rfl
    | true =>
      rw [← eq_of_beq hid, remains_of_mem h hf] at hu
      rw [hu]
      rfl
  rw [callees_callGraph hg, callees_callGraph hg', hsame, ← CallGraph.eraseDups_filter, List.filter_flatMap]
  refine congrArg List.eraseDups (List.flatMap_congr fun f _ => ?_)
  rw [List.filter_filterMap]
  exact List.filterMap_congr fun call _ => P.answer_restricted h f call

theorem toMapping_restricted :
    g'.toMapping = (g.toMapping.filter fun row => P.remains more row.1).map
      fun row => (row.1, row.2.filter (P.remains more)) := by
  have hrows : ∀ g : CallGraph, g.toMapping = g.ids.map fun id => (id, g.callees id) := by
    intro g
    rw [CallGraph.ids, Adjacency.keys, List.map_map]
    conv_lhs => rw [← List.map_id g.toMapping]
    refine List.map_congr_left fun row hrow => ?_
    exact Prod.ext rfl (Adjacency.row_of_mem hrow).symm
  rw [hrows g, hrows g', ids_restricted h hg hg', List.filter_map, List.map_map]
  refine List.map_congr_left fun id hid => ?_
  rw [callees_restricted h hg hg' (List.mem_filter.1 hid).2]
  rfl

theorem induced :
    Induced g g' (fun label => !isIgnored more label.path) ((P.functions ignore).map (·.label)) where
  separate := by
    intro a ha b hb hid hinside
    obtain ⟨f, hf, rfl⟩ := List.mem_map.1 ha
    obtain ⟨k, hk, rfl⟩ := List.mem_map.1 hb
    rwa [← path_eq_of_id_eq hf hk hid]
  calls := by
    have hhas : ∀ id, Part.Has (fun label => !isIgnored more label.path)
        ((P.functions ignore).map (·.label)) id ↔ P.remains more id = true := by
      intro id
      rw [remains_iff, functions_restricted h]
      constructor
      · intro ⟨label, hlabel, hinside, hid⟩
        obtain ⟨f, hf, rfl⟩ := List.mem_map.1 hlabel
        exact ⟨f, List.mem_filter.2 ⟨hf, hinside⟩, hid⟩
      · intro ⟨f, hf, hid⟩
        obtain ⟨hf, hinside⟩ := List.mem_filter.1 hf
        exact ⟨f.label, List.mem_map_of_mem hf, hinside, hid⟩
    intro a b ha
    rw [hhas] at ha ⊢
    rw [← CallGraph.mem_callees, callees_restricted h hg hg' ha, List.mem_filter, CallGraph.mem_callees]

end Graph

/-! ## What a function shows by itself -/

/-- Whether a note is not about a function that is left out. -/
def keepsNote (remains : String → Bool) : Note → Bool
  | .awaitableCallee id => remains id
  | _ => true

/-- The notes that do not tell of functions left out. -/
def Kept (remains : String → Bool) (notes notes' : List Note) : Prop :=
  notes' = notes.filter (keepsNote remains)

theorem kept_self {remains : String → Bool} {x : Analysis (List Note)}
    (h : ∀ notes, x = .ok notes → ∀ id, Note.awaitableCallee id ∉ notes) :
    Analysis.Related (Kept remains) x x := by
  cases x with
  | error e => exact .aborted e
  | ok notes =>
    refine .done (List.filter_eq_self.2 fun note hnote => ?_).symm
    cases note with
    | awaitableCallee id => exact absurd hnote (h notes rfl id)
    | hazard | suspends | boundary | callsAwaitable => rfl

theorem calleeNotes_restricted (h : ignore ⊆ more) (f : Function) (v : Visit) :
    Analysis.Related (Kept (P.remains more)) (P.calleeNotes (P.functions ignore) f v)
      (P.calleeNotes (P.functions more) f v) := by
  refine (Analysis.Related.eq_iff.2 rfl).bind fun b b' hb => ?_
  subst hb
  cases b with
  | false => exact .done rfl
  | true =>
    refine (P.calleeId_restricted h f.file v.node).bind fun id id' hid => .done ?_
    subst hid
    cases id with
    | none => rfl
    | some id => cases hr : P.remains more id <;> simp [Kept, keepsNote, hr, Option.filter]

theorem callNotes_restricted (h : ignore ⊆ more) (f : Function) (v : Visit) :
    List.Forall₂ (Analysis.Related (Kept (P.remains more)))
      (P.callNotes (P.functions ignore) f v) (P.callNotes (P.functions more) f v) := by
  obtain ⟨first, rest, hnotes, hothers⟩ := callNotes_eq P f v
  have hkept : ∀ step ∈ first :: rest, Analysis.Related (Kept (P.remains more)) step step :=
    fun step hstep => kept_self fun notes hok id hid => by cases hothers step hstep notes hok _ hid
  rw [List.forall_mem_cons] at hkept
  rw [hnotes, hnotes]
  exact .cons hkept.1 (.cons (calleeNotes_restricted h f v) (List.forall₂_same.2 hkept.2))

theorem findingsOf_kept {remains : String → Bool} {steps steps' : List (Analysis (List Note))}
    (h : List.Forall₂ (Analysis.Related (Kept remains)) steps steps') :
    Analysis.Related (Kept remains) (findingsOf steps) (findingsOf steps') := by
  have hcollected : (collectFindings steps').2 = (collectFindings steps).2 ∧
      Kept remains (collectFindings steps).1 (collectFindings steps').1 := by
    induction h with
    | nil => exact ⟨rfl, rfl⟩
    | cons hstep _ ih =>
      cases hstep with
      | aborted e => exact ⟨rfl, rfl⟩
      | done hkept =>
        refine ⟨ih.1, ?_⟩
        simp only [Kept, collectFindings, List.filter_append] at *
        rw [hkept, ih.2]
  obtain ⟨hstop, hkept⟩ := hcollected
  unfold findingsOf
  generalize collectFindings steps = found at *
  generalize collectFindings steps' = found' at *
  obtain ⟨notes, stop⟩ := found
  obtain ⟨notes', stop'⟩ := found'
  simp only at hstop hkept
  subst hstop
  cases stop' with
  | none => exact .done hkept
  | some e => cases e <;> first | exact .done hkept | exact .aborted _

theorem notes_restricted (h : ignore ⊆ more) (f : Function) :
    Analysis.Related (Kept (P.remains more)) (P.notes (P.functions ignore) f)
      (P.notes (P.functions more) f) := by
  refine findingsOf_kept ?_
  induction f.node.bodyVisits with
  | nil => exact .nil
  | cons v visits ih =>
    rw [List.flatMap_cons, List.flatMap_cons]
    refine List.rel_append (.cons (kept_self fun notes hnotes id => ?_) ?_) ih
    · cases hnotes
      split <;> split <;> simp
    · split
      · exact P.callNotes_restricted h f v
      · exact .nil

/-- What a function shows stays, but for the awaitable functions that are left out. -/
structure Restricted (remains : String → Bool) (flow flow' : AsyncFlow) : Prop where
  label : flow'.result.label = flow.result.label
  issues : flow'.result.issues = flow.result.issues
  callsAwaitable : flow'.callsAwaitable = flow.callsAwaitable
  awaitableCalls : flow'.result.awaitableCalls = flow.result.awaitableCalls.filter remains

theorem contains_filter_keepsNote {remains : String → Bool} {note : Note} (notes : List Note)
    (h : keepsNote remains note = true) :
    (notes.filter (keepsNote remains)).contains note = notes.contains note := by
  rw [Bool.eq_iff_iff, List.contains_iff_mem, List.contains_iff_mem, List.mem_filter]
  exact ⟨fun hn => hn.1, fun hn => ⟨hn, h⟩⟩

theorem hazardsOf_kept {remains : String → Bool} (f : Function) (notes : List Note) :
    hazardsOf f (notes.filter (keepsNote remains)) = hazardsOf f notes := by
  unfold hazardsOf lacksBoundary
  rw [contains_filter_keepsNote notes rfl, contains_filter_keepsNote notes rfl, List.filterMap_filter]
  refine congrArg (List.eraseDups · ++ _) (List.filterMap_congr fun note _ => ?_)
  cases note with
  | awaitableCallee id => cases hr : remains id <;> simp [keepsNote, hr]
  | hazard | suspends | boundary | callsAwaitable => rfl

theorem localFlow_restricted (h : ignore ⊆ more) {f : Function} {flow flow' : AsyncFlow}
    (hflow : P.localFlow (P.functions ignore) f = .ok flow)
    (hflow' : P.localFlow (P.functions more) f = .ok flow') :
    Restricted (P.remains more) flow flow' := by
  obtain ⟨notes, hnotes, hflow⟩ := Analysis.bind_eq_ok.1 hflow
  obtain ⟨notes', hnotes', hflow'⟩ := Analysis.bind_eq_ok.1 hflow'
  obtain ⟨_, he, hkept⟩ := (P.notes_restricted h f).of_ok hnotes
  cases hnotes'.symm.trans he
  cases hkept
  cases hflow
  cases hflow'
  refine ⟨rfl, ?_, contains_filter_keepsNote notes rfl, ?_⟩
  · simp only [hazardsOf_kept]
  · simp only [← CallGraph.eraseDups_filter, List.filterMap_filter, List.filter_filterMap]
    refine congrArg List.eraseDups (List.filterMap_congr fun note _ => ?_)
    cases note with
    | awaitableCallee id => cases hr : P.remains more id <;> simp [keepsNote, hr, Option.filter]
    | hazard | suspends | boundary | callsAwaitable => rfl

/-! ## Reports -/

/-- The results of the functions that stay, in both inventories. -/
theorem results_restricted {α : Type} (hsub : ignore ⊆ more) (label : α → Label)
    {ask ask' : Function → Analysis α} {R : α → α → Prop} (hlabel : ∀ {f a}, ask f = .ok a → label a = f.label)
    (hR : ∀ {f a a'}, ask f = .ok a → ask' f = .ok a' → R a a') {results results' : List α}
    (h : List.Forall₂ (fun f r => ask f = .ok r) (P.functions ignore) results)
    (h' : List.Forall₂ (fun f r => ask' f = .ok r) (P.functions more) results') :
    List.Forall₂ R (results.filter fun r => !isIgnored more (label r).path) results' := by
  have hfilter : List.Forall₂ (fun f r => ask f = .ok r)
      ((P.functions ignore).filter (!isIgnored more ·.label.path))
      (results.filter fun r => !isIgnored more (label r).path) :=
    List.rel_filter (fun f r hfr => by simp only [hlabel hfr]) h
  rw [← functions_restricted hsub] at hfilter
  exact forall₂_of_common hfilter h' fun _ _ _ ha ha' => hR ha ha'

theorem purity_restricted (hsub : ignore ⊆ more) {results results' : List PurityResult}
    (h : List.Forall₂ (fun f r => P.localPurity f = .ok r) (P.functions ignore) results)
    (h' : List.Forall₂ (fun f r => P.localPurity f = .ok r) (P.functions more) results') :
    results' = results.filter (!isIgnored more ·.label.path) := by
  have hsame := results_restricted hsub (·.label) (fun hr => (localPurity_eq_ok hr).1)
    (fun hr hr' => Except.ok.inj (hr.symm.trans hr')) h h'
  rw [List.forall₂_eq_eq_eq] at hsame
  exact hsame.symm

/-- The issues that a function has by itself are told by their messages, and none is inherited. -/
theorem tame_of_localFlow {functions : List Function} {f : Function} {flow : AsyncFlow}
    (h : P.localFlow functions f = .ok flow) :
    flow.result.Tame ∧ ∀ i ∈ flow.result.issues, i.message ≠ AsyncResult.callsUnsafe.message := by
  obtain ⟨-, -, hissues⟩ := localFlow_eq_ok h
  refine ⟨fun i hi k hk he => ?_, fun i hi => ?_⟩
  · obtain ⟨hazard, rfl⟩ := hissues i hi
    simp only [List.mem_cons, List.not_mem_nil, or_false] at hk
    rcases hk with rfl | rfl
    · exact absurd he hazard.message_ne_callsUnsafe
    · exact absurd he hazard.message_ne_callsAwaitable
  · obtain ⟨hazard, rfl⟩ := hissues i hi
    exact hazard.message_ne_callsUnsafe

theorem async_restricted (hsub : ignore ⊆ more) {g g' : CallGraph} {flows flows' : List AsyncFlow}
    (hg : P.callGraph (P.functions ignore) = .ok g) (hg' : P.callGraph (P.functions more) = .ok g')
    (hflows : List.Forall₂ (fun f r => P.localFlow (P.functions ignore) f = .ok r)
      (P.functions ignore) flows)
    (hrestricted : List.Forall₂ (Restricted (P.remains more))
      (flows.filter fun flow => !isIgnored more flow.result.label.path) flows') :
    List.Forall₂ AsyncResult.Fewer
      ((AsyncResult.propagateReturns g AsyncResult.awaitableMessages
        (AsyncResult.propagateRisk g (flows.map (·.result)))).filter (!isIgnored more ·.label.path))
      (AsyncResult.propagateReturns g' AsyncResult.awaitableMessages
        (AsyncResult.propagateRisk g' (flows'.map (·.result)))) := by
  have ind := induced hsub hg hg'
  rw [map_label_flows hflows] at ind
  have ind' := ind
  rw [← AsyncResult.map_label_propagateRisk g] at ind'
  have htame : ∀ flow ∈ flows,
      flow.result.Tame ∧ ∀ i ∈ flow.result.issues, i.message ≠ AsyncResult.callsUnsafe.message := by
    intro flow hflow
    obtain ⟨f, -, hf⟩ := exists_of_mem_right hflows hflow
    exact tame_of_localFlow hf
  have hown : List.Forall₂ AsyncResult.Fewer
      ((flows.map (·.result)).filter (!isIgnored more ·.label.path)) (flows'.map (·.result)) := by
    rw [List.filter_map, List.forall₂_map_left_iff, List.forall₂_map_right_iff]
    refine (forall₂_and_mem hrestricted).imp ?_
    intro flow flow' ⟨hr, hmem, _⟩
    refine ⟨hr.label, ?_, (htame flow (List.mem_filter.1 hmem).1).1⟩
    rw [hr.issues]
    exact List.Subset.refl _
  refine ind'.propagate_returns AsyncResult.callsAwaitable_notMem_awaitableMessages ?_
  refine ind.propagate_risk hown fun r hr => ?_
  obtain ⟨flow, hflow, rfl⟩ := List.mem_map.1 hr
  exact (htame flow hflow).2

end EffectGraph.Project
