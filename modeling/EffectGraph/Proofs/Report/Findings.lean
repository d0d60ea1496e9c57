/-
What an analysis asks of a project's functions.

The findings of a project depend on its files alone: a project with the same
files has the same findings, whatever else was left out (`findings_congr`).
-/
import EffectGraph.Proofs.Finding.Embedding
import EffectGraph.Proofs.Finding.Own
import EffectGraph.Proofs.Model.Files
import EffectGraph.Report.Basic

namespace EffectGraph.Project

variable {P Q : Project} {ignore : List String} {functions : List Function}

/-- An analysis that ends has asked every function for its calls, its effects and its hazards. -/
theorem findings_eq_ok {found : Findings} (h : P.findings ignore = .ok found) :
    found.functions = P.functions ignore ∧
      P.callGraph (P.functions ignore) = .ok found.graph ∧
      List.Forall₂ (fun f r => P.localPurity f = .ok r) (P.functions ignore) found.purity ∧
      List.Forall₂ (fun f r => P.localFlow (P.functions ignore) f = .ok r) (P.functions ignore)
        found.flows := by
  obtain ⟨functions, hcollect, h⟩ := Analysis.bind_eq_ok.1 h
  obtain rfl := eq_functions_of_collect hcollect
  obtain ⟨graph, hgraph, h⟩ := Analysis.bind_eq_ok.1 h
  obtain ⟨purity, hpurity, h⟩ := Analysis.bind_eq_ok.1 h
  obtain ⟨flows, hflows, h⟩ := Analysis.bind_eq_ok.1 h
  cases h
  exact ⟨rfl, hgraph, Analysis.mapM_eq_ok.1 hpurity, Analysis.mapM_eq_ok.1 hflows⟩

theorem analyze_eq_ok {report : Report} (h : P.analyze ignore = .ok report) :
    ∃ found, P.findings ignore = .ok found ∧ report = found.report (P.skipped.map (·.message)) := by
  obtain ⟨found, hfound, h⟩ := Analysis.bind_eq_ok.1 h
  cases h
  exact ⟨found, hfound, rfl⟩

theorem map_label_purity {results : List PurityResult}
    (h : List.Forall₂ (fun f r => P.localPurity f = .ok r) functions results) :
    functions.map (·.label) = results.map (·.label) :=
  map_eq_map_of_forall₂ h fun _ _ hr => (localPurity_eq_ok hr).1.symm

theorem map_label_flows {flows : List AsyncFlow}
    (h : List.Forall₂ (fun f r => P.localFlow functions f = .ok r) functions flows) :
    functions.map (·.label) = (flows.map (·.result)).map (·.label) := by
  rw [List.map_map]
  exact map_eq_map_of_forall₂ h fun _ _ hr => (localFlow_eq_ok hr).1.symm

theorem findings_congr (hP : P.Sound) (hQ : Q.Sound) (h : Q.files = P.files) (ignore : List String) :
    Q.findings ignore = P.findings ignore := by
  have hfunctions : Q.functions ignore = P.functions ignore := by
    unfold Project.functions
    rw [h]
  have hp : P.files = P.files ++ [] := by simp
  have hq : Q.files = P.files ++ [] ++ [] := by simp [h]
  let E := Embedding.insert hP hQ hp hq (by simp)
  have hplace : E.place = id := by
    funext i
    change insertedPlace P.files.length 0 i = i
    simp [insertedPlace]
  have hmoved : ∀ f : Function, f.moved E.place = f := fun f => by rw [hplace]; rfl
  have hids : ∀ d, P.Holds d →
      idOf? (P.functions ignore) (d.moved E.place) = idOf? (P.functions ignore) d := by
    intro d _
    rw [hplace]
    rfl
  have hgraph : Q.callGraph (P.functions ignore) = P.callGraph (P.functions ignore) := by
    unfold callGraph
    rw [Analysis.mapM_congr fun f hf => ?_]
    rw [← E.calleeIds_moved hids (holds_of_mem_functions hf), hmoved]
  have hpurity : (P.functions ignore).mapM Q.localPurity = (P.functions ignore).mapM P.localPurity := by
    refine Analysis.mapM_congr fun f hf => ?_
    rw [← E.localPurity_moved (holds_of_mem_functions hf), hmoved]
  have hflows : (P.functions ignore).mapM (Q.localFlow (P.functions ignore)) =
      (P.functions ignore).mapM (P.localFlow (P.functions ignore)) := by
    refine Analysis.mapM_congr fun f hf => ?_
    rw [← E.localFlow_moved hids (holds_of_mem_functions hf), hmoved]
  have hcollect : Q.collect ignore = P.collect ignore := by
    unfold collect
    rw [h, hfunctions]
  unfold findings
  rw [hcollect]
  cases he : P.collect ignore with
  | error e => simp only [Analysis.error_bind]
  | ok functions =>
    obtain rfl := eq_functions_of_collect he
    simp only [Analysis.ok_bind, hgraph, hpurity, hflows]

end EffectGraph.Project
