/-
A report depends on the valid texts alone.

The valid texts determine the files of a project, whatever the order of the
texts and whatever else comes with them, and everything that is found follows
from the files. Each text that is not valid is left out with one entry among
the errors (`perm_skipped`).
-/
import EffectGraph.Proofs.Report.Findings

namespace EffectGraph

namespace SourceFile

variable {path text : String} {roots : List String}

theorem path_of_ofText {f : SourceFile} (h : ofText path text roots = .ok f) : f.path = path :=
  (ofText_eq_ok h).1

theorem path_of_skipped {s : Skipped} (h : ofText path text roots = .error (.skipped s)) :
    s.path = path := by
  unfold ofText at h
  split at h
  · cases h
    rfl
  · cases h
    rfl
  · cases h
    rfl
  · split at h <;> cases h

theorem isSome_ofFile? (f : SourceFile) : (ScopeTable.ofFile? f).isSome = f.isShallow := by
  rw [ofFile?_eq]
  cases f.isShallow <;> rfl

end SourceFile

namespace Project

/-- Whether a text with its path becomes a file of a project: it can be parsed, and it does not
nest too deeply for its scopes. -/
def isValid (roots : List String) (x : String × String) : Bool :=
  match SourceFile.ofText x.1 x.2 roots with
  | .ok f => (ScopeTable.ofFile? f).isSome
  | .error _ => false

theorem readFiles_ok (f : SourceFile) (results : List (Except FileError SourceFile)) :
    readFiles (.ok f :: results) = f :: readFiles results := rfl

theorem readFiles_error (e : FileError) (results : List (Except FileError SourceFile)) :
    readFiles (.error e :: results) = readFiles results := rfl

theorem readSkipped_ok (f : SourceFile) (results : List (Except FileError SourceFile)) :
    readSkipped (.ok f :: results) = readSkipped results := rfl

theorem readSkipped_skipped (s : Skipped) (results : List (Except FileError SourceFile)) :
    readSkipped (.error (.skipped s) :: results) = s :: readSkipped results := rfl

/-- What reading some texts gives. -/
def readTexts (texts : List (String × String)) (roots : List String) :
    List (Except FileError SourceFile) :=
  texts.map fun x => SourceFile.ofText x.1 x.2 roots

variable {texts texts' : List (String × String)} {roots : List String} {P P' : Project}

theorem readTexts_cons (x : String × String) (texts : List (String × String)) (roots : List String) :
    readTexts (x :: texts) roots = SourceFile.ofText x.1 x.2 roots :: readTexts texts roots := rfl

theorem ofTexts_eq_ok (h : ofTexts texts roots = .ok P) :
    P = ofFiles (readFiles (readTexts texts roots)) (readSkipped (readTexts texts roots)) ∧
      ∀ x ∈ texts, ∀ e, SourceFile.ofText x.1 x.2 roots ≠ .error (.emptyName e) := by
  unfold ofTexts ofResults at h
  simp only at h
  split at h
  · cases h
  · next hnone =>
    refine ⟨(Except.ok.inj h).symm, fun x hx e he => ?_⟩
    rw [List.findSome?_eq_none_iff] at hnone
    have hx := hnone _ (List.mem_map_of_mem hx)
    simp [he] at hx

theorem mem_readFiles {f : SourceFile} :
    f ∈ readFiles (readTexts texts roots) ↔ ∃ x ∈ texts, SourceFile.ofText x.1 x.2 roots = .ok f := by
  simp only [readFiles, readTexts, List.mem_filterMap, List.mem_map]
  constructor
  · rintro ⟨_, ⟨x, hx, rfl⟩, h⟩
    split at h
    · next hf =>
      cases h
      exact ⟨x, hx, hf⟩
    · cases h
  · rintro ⟨x, hx, hf⟩
    exact ⟨_, ⟨x, hx, hf⟩, rfl⟩

theorem nodup_paths_readFiles (h : (texts.map (·.1)).Nodup) :
    ((readFiles (readTexts texts roots)).map (·.path)).Nodup := by
  refine List.Nodup.sublist ?_ h
  clear h
  induction texts with
  | nil => exact .slnil
  | cons x texts ih =>
    rw [readTexts_cons]
    cases hx : SourceFile.ofText x.1 x.2 roots with
    | ok f =>
      rw [readFiles_ok, List.map_cons, List.map_cons, SourceFile.path_of_ofText hx]
      exact ih.cons_cons _
    | error e =>
      rw [readFiles_error]
      exact ih.cons _

/-- The valid texts determine the files. -/
theorem files_of_valid (hpaths : (texts.map (·.1)).Nodup) (hpaths' : (texts'.map (·.1)).Nodup)
    (hvalid : ∀ x, isValid roots x = true → (x ∈ texts ↔ x ∈ texts'))
    (h : ofTexts texts roots = .ok P) (h' : ofTexts texts' roots = .ok P') : P'.files = P.files := by
  obtain ⟨rfl, -⟩ := ofTexts_eq_ok h
  obtain ⟨rfl, -⟩ := ofTexts_eq_ok h'
  refine files_eq (nodup_paths_readFiles hpaths') (nodup_paths_readFiles hpaths) fun f hf => ?_
  rw [mem_readFiles, mem_readFiles]
  refine exists_congr fun x => and_congr_left fun hx => ?_
  refine (hvalid x ?_).symm
  simp only [isValid, hx, SourceFile.isSome_ofFile?, hf]

/-- A text that is not valid is left out exactly once, and no other text is. -/
theorem perm_skipped (h : ofTexts texts roots = .ok P) :
    (P.skipped.map (·.path)).Perm ((texts.filter (!isValid roots ·)).map (·.1)) := by
  obtain ⟨rfl, hnamed⟩ := ofTexts_eq_ok h
  have hdeep : ((readFiles (readTexts texts roots)).mergeSort fun a b => !(b.path < a.path)).filter
      (fun f => (ScopeTable.ofFile? f).isNone) |>.Perm
      ((readFiles (readTexts texts roots)).filter fun f => (ScopeTable.ofFile? f).isNone) :=
    (List.mergeSort_perm _ _).filter _
  simp only [ofFiles, List.map_append, List.map_map]
  refine ((hdeep.map _).append_left _).trans ?_
  clear h hdeep
  induction texts with
  | nil => exact .nil
  | cons x texts ih =>
    have ih := ih fun y hy => hnamed y (by simp [hy])
    rw [readTexts_cons]
    cases hx : SourceFile.ofText x.1 x.2 roots with
    | ok f =>
      have hpath := SourceFile.path_of_ofText hx
      rw [readFiles_ok, readSkipped_ok]
      cases hf : ScopeTable.ofFile? f with
      | some scopes =>
        have hvalid : isValid roots x = true := by simp [isValid, hx, hf]
        simpa [hvalid, hf] using ih
      | none =>
        have hvalid : isValid roots x = false := by simp [isValid, hx, hf]
        simp only [List.filter_cons, hf, hvalid, Option.isNone_none, Bool.not_false, if_true,
          List.map_cons, Function.comp_apply, hpath]
        exact List.perm_middle.trans (ih.cons _)
    | error e =>
      cases e with
      | emptyName e => exact absurd hx (hnamed x (by simp) e)
      | skipped s =>
        have hvalid : isValid roots x = false := by simp [isValid, hx]
        simp only [readFiles_error, readSkipped_skipped, List.map_cons, List.cons_append,
          SourceFile.path_of_skipped hx, List.filter_cons, hvalid, Bool.not_false, if_true]
        exact ih.cons _

/-- **Only the valid texts count.** Two collections of texts with distinct paths that have the same
valid texts give the same files and the same functions, and their reports have the same graph, the
same purity and the same hazards. Each text that is not valid has one entry among the errors, and
no other text has one. -/
theorem report_of_valid_texts (hpaths : (texts.map (·.1)).Nodup)
    (hpaths' : (texts'.map (·.1)).Nodup)
    (hvalid : ∀ x, isValid roots x = true → (x ∈ texts ↔ x ∈ texts'))
    (h : ofTexts texts roots = .ok P) (h' : ofTexts texts' roots = .ok P') :
    P'.files = P.files ∧
      (∀ ignore, P'.functions ignore = P.functions ignore ∧
        ∀ report, P.analyze ignore = .ok report →
          report.errors = P.skipped.map (·.message) ∧
          ∃ report', P'.analyze ignore = .ok report' ∧ report'.functions = report.functions ∧
            report'.graph = report.graph ∧ report'.purity = report.purity ∧
            report'.async = report.async ∧ report'.errors = P'.skipped.map (·.message)) ∧
      (P.skipped.map (·.path)).Perm ((texts.filter (!isValid roots ·)).map (·.1)) ∧
      (P'.skipped.map (·.path)).Perm ((texts'.filter (!isValid roots ·)).map (·.1)) := by
  have hfiles := files_of_valid hpaths hpaths' hvalid h h'
  refine ⟨hfiles, fun ignore => ⟨?_, fun report hreport => ?_⟩, perm_skipped h, perm_skipped h'⟩
  · unfold functions
    rw [hfiles]
  · obtain ⟨found, hfound, rfl⟩ := analyze_eq_ok hreport
    have hsound : P.Sound := (ofTexts_eq_ok h).1 ▸ ofFiles_sound _ _
    have hsound' : P'.Sound := (ofTexts_eq_ok h').1 ▸ ofFiles_sound _ _
    refine ⟨rfl, found.report (P'.skipped.map (·.message)), ?_, rfl, rfl, rfl, rfl, rfl⟩
    rw [analyze, findings_congr hsound hsound' hfiles, hfound]
    rfl

/-- Two valid texts and one with a bracket that is never closed. -/
def sampleTexts : List (String × String) :=
  [("b.py", "def g(): print()\n"), ("c.py", "("), ("a.py", "def f(): g()\n")]

/-- The same valid texts in another order, and one with a bracket that is never opened. -/
def otherSampleTexts : List (String × String) :=
  [("a.py", "def f(): g()\n"), ("b.py", "def g(): print()\n"), ("d.py", ")")]

theorem report_of_valid_texts_sample :
    ∃ P P', ofTexts sampleTexts [] = .ok P ∧ ofTexts otherSampleTexts [] = .ok P' ∧
      P'.files = P.files ∧
      (∀ report, P.analyze [] = .ok report → ∃ report', P'.analyze [] = .ok report' ∧
        report'.functions = report.functions ∧ report'.graph = report.graph ∧
        report'.purity = report.purity ∧ report'.async = report.async) ∧
      (P.skipped.map (·.path)).Perm ["c.py"] ∧ (P'.skipped.map (·.path)).Perm ["d.py"] := by
  have hskipped : (sampleTexts.filter (!isValid [] ·)).map (·.1) = ["c.py"] := by decide +kernel
  have hskipped' : (otherSampleTexts.filter (!isValid [] ·)).map (·.1) = ["d.py"] := by decide +kernel
  have hread : (ofTexts sampleTexts []).toOption.map (fun _ => ()) = some () := by decide +kernel
  have hread' : (ofTexts otherSampleTexts []).toOption.map (fun _ => ()) = some () := by decide +kernel
  have hvalid : ∀ x, isValid [] x = true → (x ∈ sampleTexts ↔ x ∈ otherSampleTexts) := by
    intro x hx
    have hc : isValid [] ("c.py", "(") = false := by decide +kernel
    have hd : isValid [] ("d.py", ")") = false := by decide +kernel
    have hxc : x ≠ ("c.py", "(") := fun he => by rw [he, hc] at hx; cases hx
    have hxd : x ≠ ("d.py", ")") := fun he => by rw [he, hd] at hx; cases hx
    simp only [sampleTexts, otherSampleTexts, List.mem_cons, List.not_mem_nil, or_false, hxc, hxd,
      false_or]
    exact or_comm
  obtain ⟨P, h, -⟩ := exists_ok_of_map_toOption hread
  obtain ⟨P', h', -⟩ := exists_ok_of_map_toOption hread'
  obtain ⟨hfiles, hrest, hperm, hperm'⟩ := report_of_valid_texts (by decide) (by decide) hvalid h h'
  rw [hskipped] at hperm
  rw [hskipped'] at hperm'
  refine ⟨P, P', h, h', hfiles, fun report hreport => ?_, hperm, hperm'⟩
  obtain ⟨-, report', hreport', hfunctions, hgraph, hpurity, hasync, -⟩ := (hrest []).2 report hreport
  exact ⟨report', hreport', hfunctions, hgraph, hpurity, hasync⟩

end Project

end EffectGraph
