/-
Walks over syntax trees.

A node stands below another one if it is met on a walk over it. The two walks,
node before children and level by level, meet the same nodes, and in a tree the
number of a node names it.
-/
import EffectGraph.Graph.Calls
import Mathlib.Algebra.Ring.Nat
import Mathlib.Data.List.Nodup
import Mathlib.Data.List.Pairwise

namespace EffectGraph

namespace Node

mutual

/-- What holds of a node whenever it holds of its children holds of all nodes. -/
theorem induction {motive : Node → Prop} (step : ∀ n, (∀ c ∈ n.children, motive c) → motive n) :
    ∀ n, motive n
  | mk i r k s cs => step (mk i r k s cs) (inductionAll step cs)

theorem inductionAll {motive : Node → Prop} (step : ∀ n, (∀ c ∈ n.children, motive c) → motive n) :
    ∀ cs : List Node, ∀ c ∈ cs, motive c
  | [] => by simp
  | c :: cs => by
    have hc := induction step c
    have hcs := inductionAll step cs
    intro d hd
    rcases List.mem_cons.1 hd with rfl | hd
    · exact hc
    · exact hcs d hd

end

theorem preorderAll_eq (cs : List Node) : preorderAll cs = cs.flatMap preorder := by
  induction cs with
  | nil => rfl
  | cons c cs ih => rw [preorderAll, ih, List.flatMap_cons]

theorem preorder_eq (n : Node) : n.preorder = n :: n.children.flatMap preorder := by
  cases n with
  | mk i r k s cs => rw [preorder, preorderAll_eq]; rfl

theorem sizeAll_eq (cs : List Node) : sizeAll cs = (cs.map size).sum := by
  induction cs with
  | nil => rfl
  | cons c cs ih => rw [sizeAll, ih, List.map_cons, List.sum_cons]

theorem size_eq (n : Node) : n.size = (n.children.map size).sum + 1 := by
  cases n with
  | mk i r k s cs => rw [size, sizeAll_eq]; rfl

/-! ## Below a node -/

theorem mem_preorder_self (n : Node) : n ∈ n.preorder := by
  rw [preorder_eq]
  exact List.mem_cons_self

theorem mem_preorder_of_child {n c m : Node} (hc : c ∈ n.children) (hm : m ∈ c.preorder) :
    m ∈ n.preorder := by
  rw [preorder_eq]
  exact List.mem_cons_of_mem _ (List.mem_flatMap.2 ⟨c, hc, hm⟩)

theorem mem_preorder_child {n c : Node} (hc : c ∈ n.children) : c ∈ n.preorder :=
  mem_preorder_of_child hc c.mem_preorder_self

theorem mem_preorder_trans {k m : Node} (hk : k ∈ m.preorder) :
    ∀ n : Node, m ∈ n.preorder → k ∈ n.preorder := by
  refine induction fun n ih hm => ?_
  rw [preorder_eq, List.mem_cons, List.mem_flatMap] at hm
  rcases hm with rfl | ⟨c, hc, hm⟩
  · exact hk
  · exact mem_preorder_of_child hc (ih c hc hm)

theorem mem_children_of_mem_parts {n c : Node} {r : Role} (h : c ∈ n.parts r) : c ∈ n.children :=
  (List.mem_filter.1 h).1

theorem mem_children_of_part? {n c : Node} {r : Role} (h : n.part? r = some c) : c ∈ n.children :=
  List.mem_of_find?_eq_some h

theorem role_of_part? {n c : Node} {r : Role} (h : n.part? r = some c) : c.role = r := by
  have hrole := List.find?_some h
  exact eq_of_beq hrole

theorem mem_preorder_parts {n c : Node} {r : Role} (h : c ∈ n.parts r) : c ∈ n.preorder :=
  mem_preorder_child (mem_children_of_mem_parts h)

/-- The nodes of the body of a function. -/
def bodyNodes (n : Node) : List Node := n.bodyParts.flatMap preorder

theorem mem_preorder_of_mem_bodyNodes {n m : Node} (h : m ∈ n.bodyNodes) : m ∈ n.preorder := by
  obtain ⟨c, hc, hm⟩ := List.mem_flatMap.1 h
  exact mem_preorder_of_child (mem_children_of_mem_parts hc) hm

theorem mem_bodyNodes_of_mem_preorder {n m k : Node} (hm : m ∈ n.bodyNodes) (hk : k ∈ m.preorder) :
    k ∈ n.bodyNodes := by
  obtain ⟨b, hb, hm⟩ := List.mem_flatMap.1 hm
  exact List.mem_flatMap.2 ⟨b, hb, mem_preorder_trans hk b hm⟩

theorem mem_preorder_parameters {n a : Node} (h : a ∈ n.parameters) : a ∈ n.preorder := by
  unfold parameters at h
  split at h
  · simp at h
  · next s hs =>
    refine mem_preorder_of_child (mem_children_of_part? hs) ?_
    simp only [List.mem_append] at h
    rcases h with (((h | h) | h) | h) | h <;> exact mem_preorder_parts h

/-! ## Calls of a walk -/

theorem partCalls_le {σ : Type} {d : Descent σ} {s : σ} {n : Node} {bound : Nat} :
    ∀ {cs : List Node}, partCalls d s n cs ≤ bound ↔
      ∀ c ∈ cs, ∀ number s', d s n c.role = some (number, s') → number + c.calls d s' ≤ bound
  | [] => by simp [partCalls]
  | c :: cs => by
    rw [partCalls, Nat.max_le, partCalls_le, List.forall_mem_cons]
    refine and_congr_left fun _ => ?_
    cases d s n c.role with
    | none => simp
    | some x => cases x; simp

/-- A walk that may go below a node with some calls may go below each of its parts with the calls
that are then left. -/
theorem calls_le {σ : Type} {d : Descent σ} {s : σ} {n : Node} {bound : Nat} :
    n.calls d s ≤ bound ↔
      ∀ c ∈ n.children, ∀ number s', d s n c.role = some (number, s') → number + c.calls d s' ≤ bound := by
  cases n with
  | mk i r k p cs =>
    rw [calls]
    exact partCalls_le

theorem calls_child_le {σ : Type} {d : Descent σ} {s s' : σ} {n c : Node} {number : Nat}
    (hc : c ∈ n.children) (h : d s n c.role = some (number, s')) :
    number + c.calls d s' ≤ n.calls d s :=
  calls_le.1 (Nat.le_refl _) c hc number s' h

/-! ## Level by level -/

theorem flatten_joinLevels (xs ys : List (List Node)) :
    (joinLevels xs ys).flatten.Perm (xs.flatten ++ ys.flatten) := by
  induction xs generalizing ys with
  | nil => simp [joinLevels]
  | cons x xs ih =>
    cases ys with
    | nil => simp [joinLevels]
    | cons y ys =>
      simp only [joinLevels, List.flatten_cons, List.append_assoc]
      refine (((ih ys).append_left y).trans ?_).append_left x
      exact List.perm_append_comm_assoc y xs.flatten ys.flatten

/-- A walk level by level meets what a walk with each node before its children meets. -/
theorem levelOrder_perm_preorder : ∀ n : Node, n.levelOrder.Perm n.preorder := by
  refine induction fun n ih => ?_
  cases n with
  | mk i r k s cs =>
    have hcs : (levelsAll cs).flatten.Perm (cs.flatMap preorder) := by
      replace ih : ∀ c ∈ cs, c.levelOrder.Perm c.preorder := ih
      induction cs with
      | nil => simp [levelsAll]
      | cons c cs ihcs =>
        rw [levelsAll, List.flatMap_cons]
        refine (flatten_joinLevels _ _).trans ((ih c (by simp)).append (ihcs fun d hd => ?_))
        exact ih d (by simp [hd])
    rw [levelOrder, levels, preorder_eq, List.flatten_cons]
    exact hcs.cons _

/-! ## Numbers -/

/-- Where no two nodes below a node have one number, no two children share a number. -/
theorem nodup_children {n : Node} (h : (n.preorder.map index).Nodup) :
    n.index ∉ n.children.flatMap (·.preorder.map index) ∧
      (∀ c ∈ n.children, (c.preorder.map index).Nodup) ∧
      n.children.Pairwise fun a b =>
        List.Disjoint (a.preorder.map index) (b.preorder.map index) := by
  rw [preorder_eq, List.map_cons, List.nodup_cons, List.map_flatMap, List.nodup_flatMap] at h
  exact h

theorem child_eq_of_mem {n a b : Node} (h : (n.preorder.map index).Nodup) (ha : a ∈ n.children)
    (hb : b ∈ n.children) {i : Nat} (hia : i ∈ a.preorder.map index)
    (hib : i ∈ b.preorder.map index) : a = b := by
  by_contra hne
  have : Std.Symm fun a b : Node =>
      List.Disjoint (a.preorder.map index) (b.preorder.map index) :=
    ⟨fun _ _ hab _ hb ha => hab ha hb⟩
  exact (nodup_children h).2.2.forall ha hb hne hia hib

theorem children_nodup {n : Node} (h : (n.preorder.map index).Nodup) : n.children.Nodup := by
  refine (nodup_children h).2.2.imp fun {a b} hab he => ?_
  subst he
  exact hab (List.mem_map_of_mem a.mem_preorder_self) (List.mem_map_of_mem a.mem_preorder_self)

theorem nodup_of_mem_preorder {m : Node} :
    ∀ n : Node, (n.preorder.map index).Nodup → m ∈ n.preorder → (m.preorder.map index).Nodup := by
  refine induction fun n ih h hm => ?_
  rw [preorder_eq, List.mem_cons, List.mem_flatMap] at hm
  rcases hm with rfl | ⟨c, hc, hm⟩
  · exact h
  · exact ih c hc ((nodup_children h).2.1 c hc) hm

/-- No node has a part above it. -/
theorem notMem_preorder_of_child {b c : Node} (h : (c.preorder.map index).Nodup) (hb : c ∈ b.children) :
    b ∉ c.preorder := by
  intro hbc
  refine (nodup_children h).1 (List.mem_flatMap.2 ?_)
  rw [preorder_eq, List.mem_cons, List.mem_flatMap] at hbc
  rcases hbc with rfl | ⟨d, hd, hbd⟩
  · exact ⟨b, hb, List.mem_map_of_mem b.mem_preorder_self⟩
  · exact ⟨d, hd, List.mem_map_of_mem (mem_preorder_trans (mem_preorder_child hb) d hbd)⟩

/-- A node is a part of one other node at most. -/
theorem parent_eq {a b c : Node} (hac : c ∈ a.children) (hbc : c ∈ b.children) :
    ∀ root : Node, (root.preorder.map index).Nodup → a ∈ root.preorder → b ∈ root.preorder → a = b := by
  refine induction fun root ih h ha hb => ?_
  have hnodup := (nodup_children h).2.1
  -- A part of the root stands below no other part.
  have top : ∀ {d k : Node}, c ∈ root.children → d ∈ root.children → k ∈ d.preorder → c ∈ k.children →
      False := by
    intro d k hc hd hk hck
    have hcd : c ∈ d.preorder := mem_preorder_trans (mem_preorder_child hck) d hk
    obtain rfl := child_eq_of_mem h hc hd (List.mem_map_of_mem c.mem_preorder_self)
      (List.mem_map_of_mem hcd)
    exact notMem_preorder_of_child (hnodup c hc) hck hk
  rw [preorder_eq, List.mem_cons, List.mem_flatMap] at ha hb
  rcases ha with rfl | ⟨d, hd, ha⟩ <;> rcases hb with rfl | ⟨e, he, hb⟩
  · rfl
  · exact (top hac he hb hbc).elim
  · exact (top hbc hd ha hac).elim
  · obtain rfl := child_eq_of_mem h hd he
      (List.mem_map_of_mem (mem_preorder_trans (mem_preorder_child hac) d ha))
      (List.mem_map_of_mem (mem_preorder_trans (mem_preorder_child hbc) e hb))
    exact ih d hd (hnodup d hd) ha hb

end Node

namespace Tree

theorem nodup_index (t : Tree) : (t.root.preorder.map Node.index).Nodup := by
  rw [t.numbered]
  exact List.nodup_range

theorem size_root (t : Tree) : t.root.size = t.size := by
  rw [← Node.length_preorder, ← List.length_map (f := Node.index), t.numbered, List.length_range]

/-- The number of a node names it. -/
theorem eq_of_index {t : Tree} {m n : Node} (hm : m ∈ t.nodes) (hn : n ∈ t.nodes)
    (h : m.index = n.index) : m = n :=
  List.inj_on_of_nodup_map t.nodup_index hm hn h

theorem mem_nodes_trans {t : Tree} {m n : Node} (hn : n ∈ t.nodes) (hm : m ∈ n.preorder) :
    m ∈ t.nodes :=
  Node.mem_preorder_trans hm t.root hn

end Tree

end EffectGraph
