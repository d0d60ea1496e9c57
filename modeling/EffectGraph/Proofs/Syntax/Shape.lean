/-
Well-formed constructs.

A node is well formed if its children are laid out as its kind says, all the way
down (`Node.Is`). The nodes of a tree are (`Tree.is_file`). What the rest of the
library relies on is read off the layout: which roles the children of a node
can have, and which parts must be there.
-/
import EffectGraph.Proofs.Model.Analysis
import EffectGraph.Proofs.Syntax.Walk
import EffectGraph.Syntax.Tree
import Mathlib.Data.List.TakeWhile

namespace EffectGraph

mutual

/-- A well-formed construct of a category. -/
inductive Node.Is : Category → Node → Prop
  | mk {i r k s cs} : Arranged k.layout cs → Node.Is k.category (.mk i r k s cs)

/-- Nodes that are the parts of a construct, block by block. -/
inductive Arranged : List Slot → List Node → Prop
  | nil : Arranged [] []
  | cons {part parts block rest} : part.count.allows block.length = true →
    (∀ c ∈ block, c.role = part.role) → (∀ c ∈ block, Node.Is part.category c) →
    Arranged parts rest → Arranged (part :: parts) (block ++ rest)

end

namespace Node

variable {n : Node} {cat : Category}

@[simp] theorem role_as (r : Role) (n : Node) : (n.as r).role = r := by cases n; rfl

@[simp] theorem kind_as (r : Role) (n : Node) : (n.as r).kind = n.kind := by cases n; rfl

@[simp] theorem children_as (r : Role) (n : Node) : (n.as r).children = n.children := by cases n; rfl

@[simp] theorem start_as (r : Role) (n : Node) : (n.as r).start = n.start := by cases n; rfl

theorem is_iff : n.Is cat ↔ n.kind.category = cat ∧ Arranged n.kind.layout n.children := by
  constructor
  · rintro ⟨h⟩
    exact ⟨rfl, h⟩
  · rintro ⟨rfl, h⟩
    cases n
    exact .mk h

theorem Is.category (h : n.Is cat) : n.kind.category = cat := (is_iff.1 h).1

theorem Is.arranged (h : n.Is cat) : Arranged n.kind.layout n.children := (is_iff.1 h).2

@[simp] theorem as_is {r : Role} : (n.as r).Is cat ↔ n.Is cat := by
  simp [is_iff]

theorem new_is {k : Kind} {s : Span} {cs : List Node} (hk : k.category = cat)
    (h : Arranged k.layout cs) : (new k s cs).Is cat :=
  hk ▸ .mk h

end Node

namespace Arranged

variable {parts : List Slot} {cs : List Node} {c : Node} {r : Role} {cat : Category}

/-! ## Laying out parts -/

theorem one (hc : c.Is cat) (h : Arranged parts cs) :
    Arranged (Slot.one r cat :: parts) (c.as r :: cs) :=
  @cons _ _ [c.as r] _ rfl (by simp) (by simpa using hc) h

theorem present (hc : c.Is cat) (h : Arranged parts cs) :
    Arranged (Slot.optional r cat :: parts) (c.as r :: cs) :=
  @cons _ _ [c.as r] _ rfl (by simp) (by simpa using hc) h

theorem absent (h : Arranged parts cs) : Arranged (Slot.optional r cat :: parts) cs :=
  @cons _ _ [] _ rfl (by simp) (by simp) h

theorem none (h : Arranged parts cs) : Arranged (Slot.many r cat :: parts) cs :=
  @cons _ _ [] _ rfl (by simp) (by simp) h

theorem single {count : Count} (hcount : count.allows cs.length = true) (hrole : ∀ c ∈ cs, c.role = r)
    (hcs : ∀ c ∈ cs, c.Is cat) : Arranged [⟨r, count, cat⟩] cs := by
  simpa using cons hcount hrole hcs nil

theorem list (hcs : ∀ c ∈ cs, c.Is cat) : Arranged [Slot.many r cat] (cs.map (·.as r)) :=
  single rfl (by simp) (by simpa using hcs)

theorem option {o : Option Node} (ho : ∀ c ∈ o, c.Is cat) :
    Arranged [Slot.optional r cat] (o.toList.map (·.as r)) := by
  cases o with
  | none => exact absent nil
  | some c => exact present (ho c rfl) nil

theorem append : ∀ {parts cs later ds}, Arranged parts cs → Arranged later ds →
    Arranged (parts ++ later) (cs ++ ds)
  | _, _, _, _, nil, h => h
  | _, _, _, _, cons hcount hrole hblock hrest, h => by
    rw [List.append_assoc]
    exact cons hcount hrole hblock (append hrest h)

/-- A layout stays when every node stays in its role and category. -/
theorem of_forall₂ : ∀ {parts cs ds}, Arranged parts cs →
    List.Forall₂ (fun c d : Node => d.role = c.role ∧ ∀ cat, c.Is cat → d.Is cat) cs ds →
      Arranged parts ds
  | _, _, _, nil, h => by
    cases h
    exact nil
  | _, _, ds, @cons part parts block rest hcount hrole hblock hrest, h => by
    have hlen : block.length ≤ ds.length := by
      rw [← h.length_eq, List.length_append]
      omega
    have hfirst := List.forall₂_take block.length h
    have hlater := List.forall₂_drop block.length h
    rw [List.take_left] at hfirst
    rw [List.drop_left] at hlater
    have hkept : ∀ d ∈ ds.take block.length, d.role = part.role ∧ d.Is part.category := by
      intro d hd
      obtain ⟨c, hc, hcd⟩ := exists_of_mem_right hfirst hd
      exact ⟨hcd.1.trans (hrole c hc), hcd.2 _ (hblock c hc)⟩
    rw [← List.take_append_drop block.length ds]
    refine cons ?_ (fun d hd => (hkept d hd).1) (fun d hd => (hkept d hd).2) (of_forall₂ hrest hlater)
    rwa [List.length_take_of_le hlen]

/-! ## What a layout says -/

theorem exists_part : ∀ {parts cs}, Arranged parts cs → ∀ c ∈ cs,
    ∃ part ∈ parts, c.role = part.role ∧ c.Is part.category
  | _, _, nil => by simp
  | _, _, cons _ hrole hblock hrest => by
    intro c hc
    rcases List.mem_append.1 hc with hc | hc
    · exact ⟨_, by simp, hrole c hc, hblock c hc⟩
    · obtain ⟨part, hpart, h⟩ := exists_part hrest c hc
      exact ⟨part, by simp [hpart], h⟩

theorem of_single {count : Count} (h : Arranged [⟨r, count, cat⟩] cs) :
    ∀ c ∈ cs, c.role = r ∧ c.Is cat := by
  intro c hc
  obtain ⟨part, hpart, hc⟩ := exists_part h c hc
  obtain rfl := List.mem_singleton.1 hpart
  exact hc

theorem cons_list (hc : c.Is cat) (h : Arranged [Slot.many r cat] cs) :
    Arranged [Slot.many r cat] (c.as r :: cs) :=
  .single rfl (List.forall_mem_cons.2 ⟨by simp, fun d hd => (h.of_single d hd).1⟩)
    (List.forall_mem_cons.2 ⟨by simpa using hc, fun d hd => (h.of_single d hd).2⟩)

/-- In a role that no part has, there are no children. -/
theorem filter_role_eq_nil (h : Arranged parts cs) (hr : ∀ part ∈ parts, part.role ≠ r) :
    cs.filter (·.role == r) = [] := by
  rw [List.filter_eq_nil_iff]
  intro c hc
  obtain ⟨part, hpart, hrole, -⟩ := exists_part h c hc
  simp [hrole, hr part hpart]

/-- A part that must be there once and comes first is the first child. -/
theorem mem_filter_iff_head? (h : Arranged (Slot.one r cat :: parts) cs) (hr : ∀ part ∈ parts, part.role ≠ r) :
    c ∈ cs.filter (·.role == r) ↔ cs.head? = some c := by
  cases h with
  | @cons _ _ block rest hcount hrole _ hrest =>
    obtain ⟨d, rfl⟩ := List.length_eq_one_iff.1 (beq_iff_eq.1 hcount)
    have hd : d.role = r := hrole d (by simp)
    simp [hd, filter_role_eq_nil hrest hr, eq_comm]

/-- The children in the role of a part are as many as the part allows. -/
theorem count_allows : ∀ {parts cs}, Arranged parts cs → (parts.map (·.role)).Nodup →
    ∀ part ∈ parts, part.count.allows (cs.filter (·.role == part.role)).length = true
  | _, _, nil => by simp
  | _, _, @cons p parts block rest hcount hrole _ hrest => by
    intro hnodup part hpart
    rw [List.map_cons, List.nodup_cons] at hnodup
    rw [List.filter_append]
    rcases List.mem_cons.1 hpart with rfl | hpart
    · have hfirst : block.filter (·.role == part.role) = block :=
        List.filter_eq_self.2 fun c hc => by simp [hrole c hc]
      have hlater : rest.filter (·.role == part.role) = [] :=
        filter_role_eq_nil hrest fun q hq he => hnodup.1 (he ▸ List.mem_map_of_mem hq)
      rwa [hfirst, hlater, List.append_nil]
    · have hfirst : block.filter (·.role == part.role) = [] := by
        refine List.filter_eq_nil_iff.2 fun c hc => ?_
        have hne : p.role ≠ part.role := fun he => hnodup.1 (he ▸ List.mem_map_of_mem hpart)
        simp [hrole c hc, hne]
      rw [hfirst, List.nil_append]
      exact count_allows hrest hnodup.2 part hpart

end Arranged

/-- All nodes below a well-formed one are well formed. -/
theorem Node.Is.of_mem_preorder {m : Node} :
    ∀ (n : Node) {cat : Category}, n.Is cat → m ∈ n.preorder → m.Is m.kind.category := by
  refine induction fun n ih cat h hm => ?_
  rw [preorder_eq, List.mem_cons, List.mem_flatMap] at hm
  rcases hm with rfl | ⟨c, hc, hm⟩
  · rwa [h.category]
  · obtain ⟨part, -, -, hpart⟩ := h.arranged.exists_part c hc
    exact ih c hc hpart hm

theorem Kind.nodup_layout (k : Kind) : (k.layout.map (·.role)).Nodup := by
  cases k <;> simp [layout]

/-! ## The check -/

/-- In the layout of a construct no two parts have the same role, so a block ends where the role of the
next part begins. -/
theorem Arranged.head_role_ne {part : Slot} {parts : List Slot} {rest : List Node}
    (h : Arranged parts rest) (hparts : part.role ∉ parts.map (·.role)) :
    ∀ c ∈ rest.head?, (c.role == part.role) = false := by
  intro c hc
  obtain ⟨q, hq, hrole, -⟩ := h.exists_part c (List.mem_of_mem_head? hc)
  rw [beq_eq_false_iff_ne, hrole]
  exact fun he => hparts (he ▸ List.mem_map_of_mem hq)

theorem Arranged.areParts {parts : List Slot} {cs : List Node} (h : Arranged parts cs)
    (hnodup : (parts.map (·.role)).Nodup) : EffectGraph.areParts parts cs = true := by
  induction parts generalizing cs with
  | nil =>
    cases h
    rfl
  | cons part parts ih =>
    cases h with
    | @cons _ _ block rest hcount hrole hblock hrest =>
      rw [List.map_cons, List.nodup_cons] at hnodup
      have hrole' : ∀ c ∈ block, (c.role == part.role) = true := fun c hc => beq_iff_eq.2 (hrole c hc)
      have hhead := hrest.head_role_ne hnodup.1
      have htake : (block ++ rest).takeWhile (·.role == part.role) = block := by
        rw [List.takeWhile_append_of_pos hrole']
        cases rest <;> simp_all
      have hdrop : (block ++ rest).dropWhile (·.role == part.role) = rest := by
        rw [List.dropWhile_append_of_pos hrole']
        cases rest <;> simp_all
      simp only [EffectGraph.areParts, htake, hdrop, hcount, ih hrest hnodup.2, Bool.true_and,
        Bool.and_true, List.all_eq_true, beq_iff_eq]
      exact fun c hc => (hblock c hc).category

theorem arranged_of_areParts : ∀ {parts : List Slot} {cs : List Node}, areParts parts cs = true →
    (∀ c ∈ cs, c.Is c.kind.category) → Arranged parts cs
  | [], cs, h, _ => by
    obtain rfl := List.isEmpty_iff.1 h
    exact .nil
  | part :: parts, cs, h, hcs => by
    simp only [areParts, Bool.and_eq_true, List.all_eq_true, beq_iff_eq] at h
    obtain ⟨⟨hcount, hblock⟩, hrest⟩ := h
    rw [← List.takeWhile_append_dropWhile (p := (·.role == part.role)) (l := cs)]
    refine .cons hcount (fun c hc => ?_) (fun c hc => ?_) (arranged_of_areParts hrest fun c hc => ?_)
    · simpa using List.mem_takeWhile_imp hc
    · rw [← hblock c hc]
      exact hcs c ((List.takeWhile_prefix _).subset hc)
    · exact hcs c ((List.dropWhile_suffix _).subset hc)

theorem Node.areWellFormed_iff {cs : List Node} :
    areWellFormed cs = true ↔ ∀ c ∈ cs, c.isWellFormed = true := by
  induction cs with
  | nil => simp [areWellFormed]
  | cons c cs ih => simp [areWellFormed, ih]

theorem Node.isWellFormed_iff : ∀ n : Node, n.isWellFormed = true ↔ n.Is n.kind.category := by
  refine induction fun n ih => ?_
  cases n with
  | mk i r k s cs =>
    rw [isWellFormed, Bool.and_eq_true, areWellFormed_iff]
    constructor
    · rintro ⟨hparts, hcs⟩
      exact .mk (arranged_of_areParts hparts fun c hc => (ih c hc).1 (hcs c hc))
    · intro h
      refine ⟨h.arranged.areParts k.nodup_layout, fun c hc => (ih c hc).2 ?_⟩
      obtain ⟨part, -, -, hpart⟩ := h.arranged.exists_part c hc
      rwa [hpart.category]

theorem Node.isFile_iff {n : Node} : n.isFile = true ↔ n.Is .file := by
  rw [isFile, Bool.and_eq_true, beq_iff_eq, isWellFormed_iff]
  constructor
  · rintro ⟨hcat, h⟩
    rwa [hcat] at h
  · intro h
    exact ⟨h.category, by rwa [h.category]⟩

theorem Tree.is_file (t : Tree) : t.root.Is .file := Node.isFile_iff.1 t.isFile

end EffectGraph
