/-
Questions about a node have the same answers in a project and in a larger one
that it lies in. Asked of the project itself, they never lead out of its trees
(`holds_of_callee`).
-/
import EffectGraph.Proofs.Model.Embedding

namespace EffectGraph.Project

variable {P Q : Project}

namespace Embedding

variable (E : Embedding P Q)

/-- What a name means at a node of the smaller project. -/
theorem symbol? (file node : Nat) (name : String) :
    Q.symbol? (E.place file) node name = (P.symbol? file node name).map fun s =>
      { s with declarations := s.declarations.map (·.moved E.place) } := by
  unfold Project.symbol?
  rw [E.chainOf?]
  cases ((P.chainOf? file node).bind (·.lookup name)).bind (·.head?) with
  | none => rfl
  | some owner => simp [Definition.moved, Function.comp_def]

theorem value_rel {file : Nat} {n : Node} (h : P.Holds ⟨file, n⟩) :
    E.SameAnswer (P.value file n) (Q.value (E.place file) n) := by
  unfold value valueBy
  rw [E.chainOf?]
  cases hc : P.chainOf? file n.index with
  | none => exact unknown
  | some chain =>
    exact (E.resolver_agrees maxSteps).expression (fits_of_chainOf? hc)
      (Reference.ofNode_within (P.closed_holds file) n h)

theorem calledFunctionBy_rel {v w : Option Value} (h : Option.Rel E.SameValue v w) :
    Analysis.Related (Option.Rel E.SameDefinition) (P.calledFunctionBy maxSteps v)
      (Q.calledFunctionBy maxSteps w) := by
  cases h with
  | none => exact .done .none
  | some hv =>
    cases hv with
    | function hd _ => exact .done (.some ⟨hd, rfl⟩)
    | classObject hc | instanceOf hc =>
      refine ((E.resolver_agrees maxSteps).classMember hc _).bindOption (.done .none) fun hv => ?_
      cases hv with
      | function hd _ => exact .done (.some ⟨hd, rfl⟩)
      | module | classObject | instanceOf | external | awaitable => exact .done .none
    | module | external | awaitable => exact .done .none

theorem callee_rel {file : Nat} {call : Node} (h : P.Holds ⟨file, call⟩) :
    Analysis.Related (Option.Rel E.SameDefinition) (P.callee file call)
      (Q.callee (E.place file) call) := by
  unfold callee calleeBy
  cases hf : call.part? .func with
  | none => exact .done .none
  | some func =>
    have hfunc := (P.closed_holds file).part? h hf
    exact Analysis.Related.bind (E.value_rel hfunc) fun v w hvw => E.calledFunctionBy_rel hvw

theorem qualifiedNameOf_eq {v w : Option Value} (h : Option.Rel E.SameValue v w) :
    Q.qualifiedNameOf w = P.qualifiedNameOf v := by
  cases h with
  | none => rfl
  | some hv => cases hv <;> simp [qualifiedNameOf, Definition.moved, E.file]

theorem qualifiedName_eq {file : Nat} {n : Node} (h : P.Holds ⟨file, n⟩) :
    Q.qualifiedName (E.place file) n = P.qualifiedName file n := by
  refine (Analysis.Related.eq_iff.1 ?_).symm
  refine Analysis.Related.bind (E.value_rel h) fun v w hvw => ?_
  exact .done (E.qualifiedNameOf_eq hvw).symm

theorem isAwaitable_eq {file : Nat} {n : Node} (h : P.Holds ⟨file, n⟩) :
    Q.isAwaitable (E.place file) n = P.isAwaitable file n := by
  refine (Analysis.Related.eq_iff.1 ?_).symm
  refine (E.value_rel h).bindOption (.done rfl) fun hv => ?_
  cases hv with
  | awaitable => exact .done rfl
  | instanceOf hc =>
    refine ((E.resolver_agrees maxSteps).classMember hc "__await__").bindOption ?_ fun _ => ?_
    · exact .done rfl
    · exact .done rfl
  | module | function | classObject | external => exact .done rfl

theorem isAsyncCallable_eq {file : Nat} {n : Node} (h : P.Holds ⟨file, n⟩) :
    Q.isAsyncCallable (E.place file) n = P.isAsyncCallable file n := by
  refine (Analysis.Related.eq_iff.1 ?_).symm
  refine (E.value_rel h).bindOption (.done rfl) fun hv => ?_
  cases hv with
  | @function d hd _ =>
    simp only [Definition.moved]
    split
    · next body _ hbody =>
      rw [E.isAwaitable_eq ((P.closed_holds d.file).part? hd hbody)]
      exact Analysis.Related.eq_iff.2 rfl
    · exact .done rfl
  | module | classObject | instanceOf | external | awaitable => exact .done rfl

/-- A sound project lies in itself. -/
def refl (h : P.Sound) : Embedding P P where
  place := id
  known _ := True
  sound := h
  injective := Function.injective_id
  file _ := rfl
  module _ := Option.map_id.symm ▸ rfl
  package _ := rfl
  size_le := Nat.le_refl _
  imports _ _ _ _ _ _ _ _ := trivial

end Embedding

theorem ofFiles_sound (sources : List SourceFile) (skipped : List Skipped) :
    (ofFiles sources skipped).Sound where
  within := by
    intro i f hf
    obtain ⟨source, -, hsource⟩ := List.mem_filterMap.1 (List.mem_of_getElem? hf)
    obtain ⟨scopes, hscopes, rfl⟩ := Option.map_eq_some_iff.1 hsource
    unfold ScopeTable.ofFile? at hscopes
    split at hscopes
    · cases hscopes
    · cases hscopes
      exact fun s hs => ScopeTable.ofFile_within hs
  modules_eq := rfl
  packages_eq := rfl
  size_eq := by
    simp only [ofFiles, Node.sizeAll_eq, List.map_map]
    rfl

/-- The function that a call runs stands in one of the project's trees. -/
theorem holds_of_callee (hP : P.Sound) {file : Nat} {call : Node} (h : P.Holds ⟨file, call⟩)
    {d : Definition} (hd : P.callee file call = .ok (some d)) : P.Holds d := by
  obtain ⟨d', -, hrel⟩ := ((Embedding.refl hP).callee_rel h).of_ok hd
  cases hrel with
  | some hsame => exact hsame.1

end EffectGraph.Project
