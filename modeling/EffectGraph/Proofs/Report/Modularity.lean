/-
A file that no other file asks for does not touch what is found in the others.

A further file changes the places of the files after it, the inventory and the
graph. Its functions are told from the others by their ids, since an id tells
the path. No call in the other files leads to them, so the other functions are
a part of the graph that calls nothing outside, and every pass stays inside.
-/
import EffectGraph.Proofs.Function.Id
import EffectGraph.Proofs.Graph.Part
import EffectGraph.Proofs.Report.Findings

namespace EffectGraph.Project

variable {P Q : Project} {ignore : List String} {inside : String → Bool}

/-! ## The inventory -/

/-- The functions of a file at a place. -/
def fileFunctions (ignore : List String) (f : ScopedFile) (i : Nat) : List Function :=
  if isAnalyzed ignore f.source then
    (f.source.tree.root.functions false).map (·.toFunction f.source i)
  else []

theorem functions_eq (P : Project) (ignore : List String) :
    P.functions ignore = P.files.zipIdx.flatMap fun x => fileFunctions ignore x.1 x.2 := rfl

theorem path_of_mem_fileFunctions {f : ScopedFile} {i : Nat} {k : Function}
    (h : k ∈ fileFunctions ignore f i) : k.label.path = f.source.path := by
  unfold fileFunctions at h
  split at h
  · obtain ⟨found, -, rfl⟩ := List.mem_map.1 h
    rfl
  · simp at h

theorem map_moved_fileFunctions (place : Nat → Nat) (f : ScopedFile) (i : Nat) :
    (fileFunctions ignore f i).map (·.moved place) = fileFunctions ignore f (place i) := by
  unfold fileFunctions
  split
  · rw [List.map_map]
    rfl
  · rfl

theorem filter_fileFunctions (ignore : List String) (inside : String → Bool) (f : ScopedFile) (i : Nat) :
    (fileFunctions ignore f i).filter (inside ·.label.path) =
      if inside f.source.path then fileFunctions ignore f i else [] := by
  cases h : inside f.source.path with
  | true => exact List.filter_eq_self.2 fun k hk => by rw [path_of_mem_fileFunctions hk, h]
  | false => exact List.filter_eq_nil_iff.2 fun k hk => by simp [path_of_mem_fileFunctions hk, h]

/-- The functions of a project are those functions of a larger one whose paths are inside. -/
structure Embedding.Fills (E : Embedding P Q) (ignore : List String) (inside : String → Bool) :
    Prop where
  paths : ∀ f ∈ P.files, inside f.source.path = true
  functions : (Q.functions ignore).filter (inside ·.label.path) =
    (P.functions ignore).map (·.moved E.place)

theorem filter_functions_insert (inside : String → Bool) {before inserted after : List ScopedFile}
    (hp : P.files = before ++ after) (hq : Q.files = before ++ inserted ++ after)
    (hinside : ∀ f ∈ P.files, inside f.source.path = true)
    (hinserted : ∀ f ∈ inserted, inside f.source.path = false) :
    (Q.functions ignore).filter (inside ·.label.path) =
      (P.functions ignore).map (·.moved (insertedPlace before.length inserted.length)) := by
  rw [functions_eq, functions_eq, hp, hq, List.filter_flatMap, List.map_flatMap]
  simp only [filter_fileFunctions, map_moved_fileFunctions, List.zipIdx_append, List.flatMap_append,
    Nat.zero_add, List.length_append]
  have hkept : ∀ f ∈ before ++ after, inside f.source.path = true := hp ▸ hinside
  have hmem : ∀ {files : List ScopedFile} {k : Nat} {x : ScopedFile × Nat}, x ∈ files.zipIdx k →
      x.1 ∈ files := fun hx => List.fst_mem_of_mem_zipIdx hx
  have hbefore : (before.zipIdx.flatMap fun x =>
      if inside x.1.source.path then fileFunctions ignore x.1 x.2 else []) =
      before.zipIdx.flatMap fun x =>
        fileFunctions ignore x.1 (insertedPlace before.length inserted.length x.2) := by
    refine List.flatMap_congr fun x hx => ?_
    have hlt : x.2 < before.length := by simpa using (List.mem_zipIdx hx).2.1
    rw [if_pos (hkept x.1 (List.mem_append_left _ (hmem hx))), insertedPlace_of_lt hlt]
  have hnone : ((inserted.zipIdx before.length).flatMap fun x =>
      if inside x.1.source.path then fileFunctions ignore x.1 x.2 else []) = [] := by
    rw [List.flatMap_eq_nil_iff]
    intro x hx
    simp [hinserted x.1 (hmem hx)]
  have hafter : ((after.zipIdx (before.length + inserted.length)).flatMap fun x =>
      if inside x.1.source.path then fileFunctions ignore x.1 x.2 else []) =
      (after.zipIdx before.length).flatMap fun x =>
        fileFunctions ignore x.1 (insertedPlace before.length inserted.length x.2) := by
    rw [List.zipIdx_eq_map_add (i := before.length + inserted.length),
      List.zipIdx_eq_map_add (i := before.length), List.flatMap_map, List.flatMap_map]
    refine List.flatMap_congr ?_
    rintro ⟨f, j⟩ hx
    simp only [insertedPlace_add, hkept f (List.mem_append_right _ (hmem hx)), if_true]
  rw [hbefore, hnone, hafter, List.append_nil]

namespace Embedding.Fills

variable {E : Embedding P Q} (h : E.Fills ignore inside)

include h

theorem moved_mem {f : Function} (hf : f ∈ P.functions ignore) :
    f.moved E.place ∈ Q.functions ignore ∧ inside f.label.path = true := by
  have hmem : f.moved E.place ∈ (Q.functions ignore).filter (inside ·.label.path) := by
    rw [h.functions]
    exact List.mem_map_of_mem hf
  exact List.mem_filter.1 hmem

theorem exists_of_mem {f : Function} (hf : f ∈ Q.functions ignore) (hin : inside f.label.path = true) :
    ∃ k ∈ P.functions ignore, k.moved E.place = f := by
  have hmem : f ∈ (Q.functions ignore).filter (inside ·.label.path) := List.mem_filter.2 ⟨hf, hin⟩
  rw [h.functions] at hmem
  exact List.mem_map.1 hmem

/-- A construct of the smaller project has the same id in both inventories. -/
theorem idOf?_moved (d : Definition) :
    idOf? (Q.functions ignore) (d.moved E.place) = idOf? (P.functions ignore) d := by
  refine Option.ext fun id => ?_
  rw [idOf?_eq_some_iff, idOf?_eq_some_iff]
  constructor
  · rintro ⟨f, hf, hsame, rfl⟩
    -- The function stands in a file of the smaller project, so it is one of that project's.
    obtain ⟨i, file, hfile, ha, found, hfound, rfl⟩ := mem_functions.1 hf
    have hplace : i = E.place d.file := (Definition.same_iff.1 hsame).1
    rw [hplace, E.file] at hfile
    obtain ⟨k, hk, hmoved⟩ := h.exists_of_mem hf (h.paths file (List.mem_of_getElem? hfile))
    refine ⟨k, hk, ?_, ?_⟩
    · rw [← hmoved] at hsame
      exact (Definition.same_moved E.injective k.definition d).symm.trans hsame
    · rw [← hmoved]
      rfl
  · rintro ⟨f, hf, hsame, rfl⟩
    refine ⟨f.moved E.place, (h.moved_mem hf).1, ?_, rfl⟩
    exact (Definition.same_moved E.injective f.definition d).trans hsame

/-- Results of the functions inside are the results in the smaller project. -/
theorem filter_results {α : Type} {ask ask' : Function → Analysis α} {label : α → Label}
    (hlabel : ∀ {f a}, ask' f = .ok a → label a = f.label)
    (hask : ∀ f ∈ P.functions ignore, ask' (f.moved E.place) = ask f) {results results' : List α}
    (hr : List.Forall₂ (fun f r => ask f = .ok r) (P.functions ignore) results)
    (hr' : List.Forall₂ (fun f r => ask' f = .ok r) (Q.functions ignore) results') :
    results'.filter (fun r => inside (label r).path) = results := by
  have hfilter : List.Forall₂ (fun f r => ask' f = .ok r)
      ((Q.functions ignore).filter (inside ·.label.path))
      (results'.filter fun r => inside (label r).path) :=
    List.rel_filter (fun f r hfr => by simp only [hlabel hfr]) hr'
  rw [h.functions, List.forall₂_map_left_iff, ← Analysis.mapM_eq_ok, Analysis.mapM_congr hask,
    Analysis.mapM_eq_ok.2 hr] at hfilter
  exact (Except.ok.inj hfilter).symm

/-! ## The graph -/

variable {g g' : CallGraph} (hg : P.callGraph (P.functions ignore) = .ok g)
  (hg' : Q.callGraph (Q.functions ignore) = .ok g')

include hg hg'

theorem callees_eq {f : Function} (hf : f ∈ P.functions ignore) : g'.callees f.id = g.callees f.id := by
  have hsame : (Q.functions ignore).filter (·.id == f.id) =
      ((P.functions ignore).filter (·.id == f.id)).map (·.moved E.place) := by
    have hin : ∀ k ∈ Q.functions ignore, (k.id == f.id) = (k.id == f.id && inside k.label.path) := by
      intro k hk
      cases hid : k.id == f.id with
      | false => simp
      | true =>
        have hpath := path_eq_of_id_eq hk (h.moved_mem hf).1 (eq_of_beq hid)
        rw [hpath, show (f.moved E.place).label.path = f.label.path from rfl, (h.moved_mem hf).2]
        rfl
    rw [List.filter_congr hin, ← List.filter_filter, h.functions, List.filter_map]
    rfl
  rw [callees_callGraph hg, callees_callGraph hg', hsame, List.flatMap_map]
  refine congrArg List.eraseDups (List.flatMap_congr fun k hk => ?_)
  have hholds := holds_of_mem_functions (List.mem_filter.1 hk).1
  refine List.filterMap_congr fun call hcall => ?_
  have hid := E.calleeId_place (fun d _ => h.idOf?_moved d)
    (holds_of_mem_bodyNodes hholds (Node.mem_callsInBody.1 hcall).1)
  unfold answer
  rw [show (k.moved E.place).file = E.place k.file from rfl, hid]

theorem part : Part g g' (fun label => inside label.path) ((Q.functions ignore).map (·.label)) where
  separate := by
    intro a ha b hb hid hin
    obtain ⟨f, hf, rfl⟩ := List.mem_map.1 ha
    obtain ⟨k, hk, rfl⟩ := List.mem_map.1 hb
    rwa [← path_eq_of_id_eq hf hk hid]
  callees := by
    intro a ha hin
    obtain ⟨f, hf, rfl⟩ := List.mem_map.1 ha
    obtain ⟨k, hk, rfl⟩ := h.exists_of_mem hf hin
    have hcallees := h.callees_eq hg hg' hk
    exact hcallees
  closed := by
    intro a ha hin v hv
    have hid := ((CallGraph.mem_callees.1 hv).mem_ids).2
    rw [ids_callGraph hg, List.mem_eraseDups] at hid
    obtain ⟨f, hf, rfl⟩ := List.mem_map.1 hid
    obtain ⟨hmem, hin⟩ := h.moved_mem hf
    exact ⟨f.label, List.mem_map.2 ⟨_, hmem, rfl⟩, hin, rfl⟩

end Embedding.Fills

/-! ## Reports -/

/-- What is reported of the functions inside is what is reported of the smaller project. -/
theorem report_inside {E : Embedding P Q} (hE : E.Fills ignore inside) {report report' : Report}
    (h : P.analyze ignore = .ok report) (h' : Q.analyze ignore = .ok report') :
    report.functions = report'.functions.filter (inside ·.path) ∧
      (∀ f ∈ report.functions, report'.graph.callees f.id = report.graph.callees f.id) ∧
      report.purity = report'.purity.filter (inside ·.label.path) ∧
      report.async = report'.async.filter (inside ·.label.path) := by
  obtain ⟨found, hfound, rfl⟩ := analyze_eq_ok h
  obtain ⟨found', hfound', rfl⟩ := analyze_eq_ok h'
  obtain ⟨hfunctions, hg, hpurity, hflows⟩ := findings_eq_ok hfound
  obtain ⟨hfunctions', hg', hpurity', hflows'⟩ := findings_eq_ok hfound'
  have part := hE.part hg hg'
  have hids : ∀ d, P.Holds d →
      idOf? (Q.functions ignore) (d.moved E.place) = idOf? (P.functions ignore) d :=
    fun d _ => hE.idOf?_moved d
  refine ⟨?_, ?_, ?_, ?_⟩
  · simp only [Findings.report, hfunctions, hfunctions']
    rw [List.filter_map]
    change _ = ((Q.functions ignore).filter (inside ·.label.path)).map (·.label)
    rw [hE.functions, List.map_map]
    rfl
  · intro label hlabel
    simp only [Findings.report, hfunctions] at hlabel
    obtain ⟨f, hf, rfl⟩ := List.mem_map.1 hlabel
    exact hE.callees_eq hg hg' hf
  · have hown : found'.purity.filter (inside ·.label.path) = found.purity :=
      hE.filter_results (fun hr => (localPurity_eq_ok hr).1)
        (fun f hf => E.localPurity_moved (holds_of_mem_functions hf)) hpurity hpurity'
    rw [map_label_purity hpurity'] at part
    simp only [Findings.report]
    rw [part.propagate_purity, hown]
  · have hown : (found'.flows.map (·.result)).filter (inside ·.label.path) =
        found.flows.map (·.result) := by
      rw [List.filter_map]
      refine congrArg (List.map _) ?_
      exact hE.filter_results (fun hr => (localFlow_eq_ok hr).1)
        (fun f hf => E.localFlow_moved hids (holds_of_mem_functions hf)) hflows hflows'
    rw [map_label_flows hflows'] at part
    have part' := part
    rw [← AsyncResult.map_label_propagateRisk found'.graph] at part'
    simp only [Findings.report]
    rw [part'.propagate_returns AsyncResult.callsAwaitable_notMem_awaitableMessages,
      part.propagate_risk, hown]

/-- The file that is there first: `f` calls `g`, which prints. -/
def sampleLibrary : SourceFile :=
  sampleFile "c.py" "c" [("os", "path")]
    [(nameF, false, nameG), (nameG, false, namePrint)]

/-- The further file, which comes before it: its own `g` calls the `f` that it imports. -/
def sampleClient : SourceFile :=
  sampleFile "b.py" "b" [("c", "f")] [(nameG, true, nameF)]

end EffectGraph.Project
