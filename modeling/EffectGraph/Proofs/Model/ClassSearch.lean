/-
A search through classes needs no more steps than the bound it is given.

A class is expanded once, and expanding it puts its base classes on the stack.
So the stack together with the base classes that are still to be put on it
shrinks with every step, and all of them together are fewer than the nodes of
the project (`searchClasses_eq_of_le`).
-/
import EffectGraph.Proofs.Model.Analysis
import EffectGraph.Proofs.Scope.Content
import Mathlib.Algebra.Order.BigOperators.Group.List
import Mathlib.Algebra.Order.Ring.Nat

namespace EffectGraph

namespace Node

/-- Every node but the first is a child of one node. -/
theorem sum_children : ∀ n : Node, (n.preorder.map (·.children.length)).sum + 1 = n.size := by
  refine induction fun n ih => ?_
  have parts : ∀ cs : List Node,
      (∀ c ∈ cs, (c.preorder.map (·.children.length)).sum + 1 = c.size) →
      ((cs.flatMap preorder).map (·.children.length)).sum + cs.length = (cs.map size).sum := by
    intro cs
    induction cs with
    | nil => simp
    | cons c cs ihcs =>
      intro h
      have hc := h c (by simp)
      have hcs := ihcs fun d hd => h d (by simp [hd])
      simp only [List.flatMap_cons, List.map_append, List.sum_append, List.length_cons, List.map_cons,
        List.sum_cons]
      omega
  have hparts := parts n.children ih
  rw [preorder_eq, size_eq, List.map_cons, List.sum_cons]
  omega

end Node

namespace Project

variable {P : Project}

/-- A construct of one of the project's trees. -/
def Holds (P : Project) (d : Definition) : Prop :=
  ∃ f, P.file? d.file = some f ∧ d.node ∈ f.source.tree.nodes

/-- All constructs of a project. -/
def definitions (P : Project) : List Definition :=
  P.files.zipIdx.flatMap fun x => x.1.source.tree.nodes.map (Definition.mk x.2)

theorem mem_definitions {d : Definition} : d ∈ P.definitions ↔ P.Holds d := by
  simp only [definitions, List.mem_flatMap, Prod.exists, List.mem_zipIdx_iff_getElem?, Holds, file?,
    List.mem_map]
  constructor
  · rintro ⟨f, i, hi, n, hn, rfl⟩
    exact ⟨f, hi, hn⟩
  · rintro ⟨f, hf, hn⟩
    exact ⟨f, d.file, hf, d.node, hn, rfl⟩

/-- The base classes that a class lists. -/
def baseCount (d : Definition) : Nat := (d.node.parts .base).length

/-- How many base classes the constructs list that a search has not come to yet. -/
def unexpanded (P : Project) (seen : List Definition) : Nat :=
  ((P.definitions.filter fun d => !seen.any d.same).map baseCount).sum

theorem sum_filter_le {α : Type} {weight : α → Nat} {p q : α → Bool} (hqp : ∀ y, q y = true → p y = true)
    (l : List α) : ((l.filter q).map weight).sum ≤ ((l.filter p).map weight).sum := by
  have hsub : l.filter q = (l.filter p).filter q := by
    rw [List.filter_filter]
    exact List.filter_congr fun y _ => by cases hy : q y <;> simp [hy, hqp]
  rw [hsub]
  exact (List.filter_sublist.map weight).sum_le_sum fun _ _ => Nat.zero_le _

theorem sum_filter_add_le {α : Type} {weight : α → Nat} {p q : α → Bool} (hqp : ∀ y, q y = true → p y = true)
    {x : α} (hp : p x = true) (hq : q x = false) :
    ∀ {l : List α}, x ∈ l →
      ((l.filter q).map weight).sum + weight x ≤ ((l.filter p).map weight).sum := by
  intro l
  induction l with
  | nil => simp
  | cons y l ih =>
    intro hx
    rcases List.mem_cons.1 hx with rfl | hx
    · have hle : ((l.filter q).map weight).sum ≤ ((l.filter p).map weight).sum := sum_filter_le hqp l
      simp only [List.filter_cons, hp, hq, if_true, List.map_cons, List.sum_cons, Bool.false_eq_true,
        if_false]
      omega
    · have hl := ih hx
      cases hqy : q y with
      | true =>
        simp only [List.filter_cons, hqy, hqp y hqy, if_true, List.map_cons, List.sum_cons]
        omega
      | false =>
        cases hpy : p y with
        | true =>
          simp only [List.filter_cons, hqy, hpy, if_true, List.map_cons, List.sum_cons,
            Bool.false_eq_true, if_false]
          omega
        | false => simpa only [List.filter_cons, hqy, hpy, Bool.false_eq_true, if_false] using hl

/-- The more classes a search has come to, the fewer are left. -/
theorem unexpanded_append_le (more seen : List Definition) :
    P.unexpanded (more ++ seen) ≤ P.unexpanded seen := by
  refine sum_filter_le (fun d hd => ?_) P.definitions
  rw [List.any_append, Bool.not_or, Bool.and_eq_true] at hd
  exact hd.2

theorem unexpanded_cons {c : Definition} (hc : P.Holds c) {seen : List Definition}
    (h : seen.any c.same = false) : P.unexpanded (c :: seen) + baseCount c ≤ P.unexpanded seen := by
  refine sum_filter_add_le (fun d hd => ?_) (by simp [h]) ?_ (mem_definitions.2 hc)
  · simp only [List.any_cons, Bool.not_or, Bool.and_eq_true] at hd
    exact hd.2
  · simp [Definition.same]

theorem unexpanded_nil_le :
    P.unexpanded [] ≤ (P.files.map fun f => f.source.tree.root.size).sum := by
  have tree : ∀ (i : Nat) (f : ScopedFile),
      ((f.source.tree.nodes.map (Definition.mk i)).map baseCount).sum ≤ f.source.tree.root.size := by
    intro i f
    rw [List.map_map, ← Node.sum_children]
    refine Nat.le_succ_of_le (List.sum_le_sum fun n _ => ?_)
    exact List.length_filter_le _ _
  have files : ∀ (fs : List ScopedFile) (k : Nat),
      (((fs.zipIdx k).flatMap fun x => x.1.source.tree.nodes.map (Definition.mk x.2)).map
        baseCount).sum ≤ (fs.map fun f => f.source.tree.root.size).sum := by
    intro fs
    induction fs with
    | nil => simp
    | cons f fs ih =>
      intro k
      have hf := tree k f
      have hfs := ih (k + 1)
      simp only [List.zipIdx_cons, List.flatMap_cons, List.map_append, List.sum_append, List.map_cons,
        List.sum_cons]
      omega
  have hall : (P.definitions.filter fun d => !([] : List Definition).any d.same) = P.definitions := by
    simp
  rw [unexpanded, hall]
  exact files P.files 0

/-- With enough steps for the stack and for what can still come onto it, more steps change
nothing. -/
theorem searchClasses_eq_of_le {α : Type} {bases : Definition → Analysis (List Definition)}
    {find : Definition → Analysis (Option α)}
    (hbases : ∀ {c bs}, P.Holds c → bases c = .ok bs →
      bs.length ≤ baseCount c ∧ ∀ b ∈ bs, P.Holds b) :
    ∀ {n m : Nat} {stack seen : List Definition}, (∀ c ∈ stack, P.Holds c) →
      stack.length + P.unexpanded seen < n → n ≤ m →
      searchClasses bases find m stack seen = searchClasses bases find n stack seen
  | 0, _, _, _, _, h, _ => absurd h (Nat.not_lt_zero _)
  | n + 1, 0, _, _, _, _, h => absurd h (Nat.not_succ_le_zero n)
  | n + 1, m + 1, [], _, _, _, _ => by rw [searchClasses, searchClasses]
  | n + 1, m + 1, c :: stack, seen, hstack, hn, hm => by
    have hc := hstack c (by simp)
    have hrest : ∀ d ∈ stack, P.Holds d := fun d hd => hstack d (by simp [hd])
    rw [List.length_cons] at hn
    rw [searchClasses, searchClasses]
    split
    · exact searchClasses_eq_of_le hbases hrest (by omega) (by omega)
    · next hseen =>
      have hless := unexpanded_cons hc (by simpa using hseen)
      refine congrArg _ (funext fun found => ?_)
      cases found with
      | some a => rfl
      | none =>
        cases hb : bases c with
        | error e => rfl
        | ok bs =>
          obtain ⟨hlength, hholds⟩ := hbases hc hb
          refine searchClasses_eq_of_le hbases ?_ ?_ (by omega)
          · intro d hd
            rcases List.mem_append.1 hd with hd | hd
            · exact hholds d hd
            · exact hrest d hd
          · rw [List.length_append]
            omega

end Project

end EffectGraph
