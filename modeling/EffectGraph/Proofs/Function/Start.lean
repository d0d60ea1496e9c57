/-
Where the functions of a tree start.

A definition starts where its node starts, and a lambda expression that is
assigned starts where the value of the assignment starts. The places do not
depend on what is a class and what is not, on numbers or on roles, and below an
expression there are none, because only statements introduce functions
(`functionStarts_eq_nil`).
-/
import EffectGraph.Proofs.Function.Inventory

namespace EffectGraph

namespace Node

/-- Where the node starts, if it is a lambda expression. -/
def lambdaStart (n : Node) : List Pos := if n.kind = .lambda then [n.start] else []

/-- Where the function starts that the node introduces. -/
def introducedStarts (n : Node) : List Pos :=
  match n.kind with
  | .functionDef .. => [n.start]
  | .assign | .annAssign =>
    if (n.parts .target).length = 1 then ((n.part? .value).map lambdaStart).getD [] else []
  | _ => []

/-- Where the functions of a node start, in the order of the inventory. -/
def functionStarts (n : Node) : List Pos := (n.functions false).map (·.node.start)

theorem lambdaStart_as (r : Role) (n : Node) : (n.as r).lambdaStart = n.lambdaStart := by
  simp [lambdaStart]

/-! ## One node -/

theorem map_start_introduced? (n : Node) (inClass : Bool) :
    (n.introduced? inClass).toList.map (·.node.start) = n.introducedStarts := by
  unfold introducedStarts introduced?
  rcases n.parts .target with _ | ⟨t, _ | ⟨u, ts⟩⟩ <;> rcases n.part? .value with _ | value <;>
    cases n.kind <;> simp [lambdaStart] <;> split <;> simp_all

theorem isSome_introduced? (n : Node) (inClass : Bool) :
    (n.introduced? inClass).isSome = !n.introducedStarts.isEmpty := by
  rw [← map_start_introduced? n inClass]
  cases n.introduced? inClass <;> rfl

theorem introducedStarts_of_not_introduces {n : Node} (h : n.kind.introduces = false) :
    n.introducedStarts = [] := by
  unfold introducedStarts
  split <;> simp_all [Kind.introduces]

/-- What an assignment introduces is its value. -/
theorem introducedStarts_assignment {n : Node} {L : List Pos} (hk : n.kind = .assign ∨ n.kind = .annAssign)
    (hv : ∀ value ∈ n.part? .value, value.lambdaStart.Sublist L) : n.introducedStarts.Sublist L := by
  have hvalue : (((n.part? .value).map lambdaStart).getD []).Sublist L := by
    cases h : n.part? .value with
    | none => simp
    | some value => exact hv value h
  unfold introducedStarts
  rcases hk with hk | hk <;> simp only [hk] <;> split <;> simp [hvalue]

/-- Two nodes that look alike from the outside. -/
def Alike (m n : Node) : Prop := n.role = m.role ∧ n.kind = m.kind ∧ n.start = m.start

theorem Alike.lambdaStart {m n : Node} (h : Alike m n) : n.lambdaStart = m.lambdaStart := by
  simp [Node.lambdaStart, h.2.1, h.2.2]

theorem forall₂_filter {α β : Type} {R : α → β → Prop} {p : α → Bool} {q : β → Bool} {xs : List α}
    {ys : List β} (h : List.Forall₂ R xs ys) (hpq : ∀ x y, R x y → q y = p x) :
    List.Forall₂ R (xs.filter p) (ys.filter q) := by
  induction h with
  | nil => exact .nil
  | @cons x y xs ys hxy _ ih =>
    rw [List.filter_cons, List.filter_cons, hpq x y hxy]
    cases p x with
    | true => exact .cons hxy ih
    | false => exact ih

theorem introducedStarts_congr {m n : Node} (hk : n.kind = m.kind) (hs : n.start = m.start)
    (hcs : List.Forall₂ Alike m.children n.children) : n.introducedStarts = m.introducedStarts := by
  have hparts : ∀ r, List.Forall₂ Alike (m.parts r) (n.parts r) := fun r =>
    forall₂_filter hcs fun c d hcd => by rw [hcd.1]
  have hhead : ∀ {cs ds : List Node}, List.Forall₂ Alike cs ds →
      ds.head?.map Node.lambdaStart = cs.head?.map Node.lambdaStart := by
    rintro _ _ (_ | ⟨hcd, -⟩)
    · rfl
    · simp [hcd.lambdaStart]
  have hvalue : (n.part? .value).map Node.lambdaStart = (m.part? .value).map Node.lambdaStart := by
    rw [part?, part?, ← List.head?_filter, ← List.head?_filter]
    exact hhead (hparts .value)
  rw [introducedStarts, introducedStarts, hk, hs, hvalue, (hparts .target).length_eq]

theorem introducedStarts_as (r : Role) (n : Node) : (n.as r).introducedStarts = n.introducedStarts := by
  refine introducedStarts_congr (by simp) (by simp) ?_
  rw [children_as]
  exact List.forall₂_same.2 fun c _ => ⟨rfl, rfl, rfl⟩

/-! ## Trees -/

theorem map_start_functions : ∀ (n : Node) (inClass : Bool),
    (n.functions inClass).map (·.node.start) = n.functionStarts := by
  refine induction fun n ih inClass => ?_
  have hparts : ∀ b : Bool, (n.walked.flatMap fun c =>
      (c.functions (n.partInClass b c.role)).map (·.node.start)) = n.walked.flatMap functionStarts :=
    fun b => List.flatMap_congr fun c hc => ih c (mem_children_of_mem_walked hc) _
  simp only [functionStarts, functions_eq n, List.map_append, List.map_flatMap, map_start_introduced?,
    hparts]

theorem functionStarts_walked (n : Node) :
    n.functionStarts = n.introducedStarts ++ n.walked.flatMap functionStarts := by
  rw [functionStarts, functions_eq, List.map_append, List.map_flatMap, map_start_introduced?]
  simp only [map_start_functions]

theorem functionStarts_eq {n : Node} {cat : Category} (hn : n.Is cat) :
    n.functionStarts = n.introducedStarts ++ n.children.flatMap functionStarts := by
  rw [functionStarts, functions_eq_children hn, List.map_append, List.map_flatMap, map_start_introduced?]
  simp only [map_start_functions]

theorem walked_as (r : Role) (n : Node) : (n.as r).walked = n.walked := by
  have hintroduced : ((n.as r).introduced? false).isSome = (n.introduced? false).isSome := by
    rw [isSome_introduced?, isSome_introduced?, introducedStarts_as]
  simp only [walked, route, kind_as, children_as, hintroduced]

@[simp] theorem functionStarts_as (r : Role) (n : Node) : (n.as r).functionStarts = n.functionStarts := by
  rw [functionStarts_walked, functionStarts_walked, introducedStarts_as, walked_as]

theorem forall₂_numberAll : ∀ (i : Nat) (cs : List Node),
    List.Forall₂ (fun c d => ∃ j, d = c.number j) cs (numberAll i cs)
  | _, [] => .nil
  | i, c :: cs => .cons ⟨i, rfl⟩ (forall₂_numberAll (i + c.size) cs)

theorem alike_number (i : Nat) (n : Node) : Alike n (n.number i) := by
  cases n
  exact ⟨rfl, rfl, rfl⟩

theorem Is.number {cat : Category} : ∀ (n : Node) (i : Nat), n.Is cat → (n.number i).Is cat := by
  suffices h : ∀ (n : Node) (i : Nat) (cat : Category), n.Is cat → (n.number i).Is cat from
    fun n i => h n i cat
  refine induction fun n ih i cat hn => ?_
  cases n with
  | mk j r k s cs =>
    refine is_iff.2 ⟨hn.category, hn.arranged.of_forall₂ ((forall₂_and_mem (forall₂_numberAll (i + 1) cs)).imp ?_)⟩
    rintro c d ⟨⟨j, rfl⟩, hc, -⟩
    exact ⟨(alike_number j c).1, ih c hc j⟩

theorem functionStarts_number : ∀ (n : Node) {cat : Category} (i : Nat), n.Is cat →
    (n.number i).functionStarts = n.functionStarts := by
  refine induction fun n ih cat i hn => ?_
  cases n with
  | mk j r k s cs =>
    have hcs := forall₂_numberAll (i + 1) cs
    have hintroduced : (number i (mk j r k s cs)).introducedStarts = (mk j r k s cs).introducedStarts := by
      refine introducedStarts_congr rfl rfl (hcs.imp ?_)
      rintro c d ⟨j, rfl⟩
      exact alike_number j c
    have hchildren : (numberAll (i + 1) cs).map functionStarts = cs.map functionStarts := by
      refine (map_eq_map_of_forall₂ (forall₂_and_mem hcs) ?_).symm
      rintro c d ⟨⟨j, rfl⟩, hc, -⟩
      obtain ⟨part, -, -, hcIs⟩ := hn.arranged.exists_part c hc
      exact (ih c hc j hcIs).symm
    rw [functionStarts_eq (Is.number _ i hn), functionStarts_eq hn, hintroduced, List.flatMap_def, List.flatMap_def]
    exact congrArg (_ ++ ·.flatten) hchildren

/-! ## Where no functions are -/

theorem functionStarts_eq_nil (n : Node) {cat : Category} (hn : n.Is cat)
    (hcat : cat.holdsStatements = false) : n.functionStarts = [] := by
  rw [functionStarts, functions_eq_nil n hn hcat, List.map_nil]

theorem flatMap_functionStarts_eq_nil {cs : List Node} {cat : Category} (hcs : ∀ c ∈ cs, c.Is cat)
    (hcat : cat.holdsStatements = false) : cs.flatMap functionStarts = [] :=
  List.flatMap_eq_nil_iff.2 fun c hc => functionStarts_eq_nil c (hcs c hc) hcat

end Node

end EffectGraph
