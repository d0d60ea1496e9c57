/-
The block structure of the language, and where the walk puts the nodes of a
tree.

`Node.BelongsTo` says by recursion on the tree which constructs that open
scopes stand around a node: the body of a function or a class and all of a
comprehension stand inside, what is evaluated when the construct is met stands
outside. `Node.Binds` says what binds a name in the scope of a construct. The
walk puts every node where it belongs (`exists_matching_meeting`).
-/
import EffectGraph.Proofs.Model.DottedName
import EffectGraph.Proofs.Scope.Walk

namespace EffectGraph

/-- The constructs that open a scope around some of their parts. -/
def Kind.opensScope : Kind → Bool
  | .functionDef .. | .lambda | .classDef _ | .listComp | .setComp | .dictComp | .generatorExp => true
  | _ => false

/-- Whether the parts of a construct in a role belong to the scope that the construct opens. -/
def Kind.opensFor (k : Kind) (r : Role) : Bool :=
  match k with
  | .functionDef .. | .lambda | .classDef _ => r == .body
  | .listComp | .setComp | .dictComp | .generatorExp => true
  | _ => false

/-- The constructs that bind the names of their targets. -/
def Kind.bindsTargets : Kind → Bool
  | .assign | .annAssign | .augAssign | .deleteStmt | .forLoop _ | .comprehension _ => true
  | _ => false

theorem Kind.isComprehension_of_isFunction {k : Kind} (h : k.isFunction = true) :
    k.isComprehension = false := by
  cases k <;> first | rfl | cases h

namespace Node

theorem fst_importedName (name : String) (asName : Option String) :
    (importedName name asName).1 = asName.getD (firstPart name) := by
  cases asName <;> rfl

/-- A node belongs to the scope of the first of these constructs, which stand around it from the
inside out. -/
inductive BelongsTo (root : Node) : Node → List Node → Prop
  | root : BelongsTo root root [root]
  /-- The body of a function or a class; the elements and the clauses of a comprehension. -/
  | inside {n c : Node} {scopes : List Node} : BelongsTo root n scopes → c ∈ n.children →
    n.kind.opensFor c.role = true → BelongsTo root c (n :: scopes)
  /-- Decorators, signatures with their defaults and declared types, base classes and keywords, and
  the parts of a construct that opens no scope. -/
  | outside {n c : Node} {scopes : List Node} : BelongsTo root n scopes → c ∈ n.children →
    n.kind.opensFor c.role = false → n.kind.category ≠ .clause → BelongsTo root c scopes
  /-- The parts of the clauses of a comprehension, but not its first iterable. -/
  | clause {n clause c : Node} {scopes : List Node} : BelongsTo root n scopes →
    n.kind.isComprehension = true → clause ∈ n.parts .generator → c ∈ clause.children →
    (c.role = .iter → (n.parts .generator).head? ≠ some clause) → BelongsTo root c (n :: scopes)
  | firstIterable {n clause c : Node} {scopes : List Node} : BelongsTo root n scopes →
    n.kind.isComprehension = true → (n.parts .generator).head? = some clause →
    c ∈ clause.parts .iter → BelongsTo root c scopes

/-- What is assigned to, deleted, or filled by a loop or by `with`, taken apart. -/
inductive IsTarget (root : Node) : Node → Prop
  | target {n c : Node} : n ∈ root.preorder → n.kind.bindsTargets = true → c ∈ n.parts .target →
    IsTarget root c
  | captured {n c : Node} : n ∈ root.preorder → n.kind = .withItem → c ∈ n.parts .captured →
    IsTarget root c
  | element {n c : Node} : IsTarget root n → n.kind = .tuple ∨ n.kind = .list →
    c ∈ n.parts .element → IsTarget root c
  | starred {n c : Node} : IsTarget root n → n.kind = .starred → c ∈ n.parts .value →
    IsTarget root c

/-- A construct binds a name at a node, in the scope that the construct belongs to. -/
inductive BindsAround (root n : Node) : String → Node → Prop
  | functionDef {name : Identifier} {isAsync : Bool} : n.kind = .functionDef name isAsync →
    BindsAround root n name n
  | classDef {name : Identifier} : n.kind = .classDef name → BindsAround root n name n
  | importModule {a : Node} {name : String} {asName : Option String} : n.kind = .importStmt →
    a ∈ n.parts .importAlias → a.kind = .importAlias name asName →
    BindsAround root n (asName.getD (firstPart name)) a
  | importFrom {a : Node} {module name : String} {level : Nat} {asName : Option String} :
    n.kind = .importFrom module level → a ∈ n.parts .importAlias →
    a.kind = .importAlias name asName → name ≠ "*" → BindsAround root n (asName.getD name) a
  | target {id : Identifier} {access : Access} : IsTarget root n → n.kind = .name id access →
    BindsAround root n id n
  | handler {name : String} : n.kind = .exceptHandler (some name) → BindsAround root n name n
  | pattern {name : String} : n.kind = .matchAs (some name) ∨ n.kind = .matchStar (some name) ∨
    n.kind = .matchMapping (some name) → BindsAround root n name n

/-- The scope of a construct binds a name at a node. -/
inductive Binds (root : Node) : Node → String → Node → Prop
  | around {n s m : Node} {outer : List Node} {x : String} : BelongsTo root n (s :: outer) →
    BindsAround root n x m → Binds root s x m
  | parameter {s a : Node} : s ∈ root.preorder → s.kind.isFunction = true → a ∈ s.parameters →
    Binds root s a.argName a
  /-- `:=` binds in the nearest scope that is no comprehension's. -/
  | named {n s t : Node} {scopes : List Node} {id : Identifier} {access : Access} :
    BelongsTo root n scopes → n.kind = .namedExpr → t ∈ n.parts .target → t.kind = .name id access →
    scopes.find? (!·.kind.isComprehension) = some s → Binds root s id t

/-- A statement that belongs to the scope of a construct declares a name there: `global` or
`nonlocal`, as the kind of the statement says. -/
def Declares (root s : Node) (statement : List String → Kind) (x : String) : Prop :=
  ∃ n outer names, BelongsTo root n (s :: outer) ∧ n.kind = statement names ∧ x ∈ names

variable {root : Node}

namespace BelongsTo

variable {n s : Node} {scopes outer : List Node}

theorem mem_preorder (h : BelongsTo root n scopes) : n ∈ root.preorder := by
  induction h with
  | root => exact root.mem_preorder_self
  | inside _ hc _ ih => exact mem_preorder_trans (mem_preorder_child hc) root ih
  | outside _ hc _ _ ih => exact mem_preorder_trans (mem_preorder_child hc) root ih
  | clause _ _ hclause hc _ ih =>
    exact mem_preorder_trans (mem_preorder_of_child (mem_children_of_mem_parts hclause)
      (mem_preorder_child hc)) root ih
  | firstIterable _ _ hclause hc ih =>
    exact mem_preorder_trans (mem_preorder_of_child
      (mem_children_of_mem_parts (List.mem_of_head? hclause)) (mem_preorder_parts hc)) root ih

theorem scopes_mem_preorder (h : BelongsTo root n scopes) : ∀ s ∈ scopes, s ∈ root.preorder := by
  induction h with
  | root => simpa using root.mem_preorder_self
  | inside hn _ _ ih => exact List.forall_mem_cons.2 ⟨hn.mem_preorder, ih⟩
  | outside _ _ _ _ ih => exact ih
  | clause hn _ _ _ _ ih => exact List.forall_mem_cons.2 ⟨hn.mem_preorder, ih⟩
  | firstIterable _ _ _ _ ih => exact ih

theorem root_mem (h : BelongsTo root n scopes) : root ∈ scopes := by
  induction h with
  | root => simp
  | inside _ _ _ ih => exact List.mem_cons_of_mem _ ih
  | outside _ _ _ _ ih => exact ih
  | clause _ _ _ _ _ ih => exact List.mem_cons_of_mem _ ih
  | firstIterable _ _ _ _ ih => exact ih

/-- The construct whose scope a node belongs to is the whole tree, or it opens a scope itself and
belongs to the scopes around. -/
theorem head (h : BelongsTo root n (s :: outer)) :
    (s = root ∧ outer = []) ∨ (s.kind.opensScope = true ∧ BelongsTo root s outer) := by
  generalize hs : s :: outer = scopes at h
  induction h with
  | root => exact .inl (by simpa using hs)
  | @inside n c scopes hn _ hopens _ =>
    obtain ⟨rfl, rfl⟩ := List.cons.inj hs
    refine .inr ⟨?_, hn⟩
    cases hk : s.kind <;> simp_all [Kind.opensFor, Kind.opensScope]
  | outside _ _ _ _ ih => exact ih hs
  | @clause n _ c scopes hn hk _ _ _ _ =>
    obtain ⟨rfl, rfl⟩ := List.cons.inj hs
    refine .inr ⟨?_, hn⟩
    cases hk' : s.kind <;> simp_all [Kind.opensScope, Kind.isComprehension]
  | firstIterable _ _ _ _ ih => exact ih hs

/-- The construct of each scope around a node stands where the scopes further out are. -/
theorem scope {inner : List Node} (h : BelongsTo root n (inner ++ s :: outer)) :
    (s = root ∧ outer = []) ∨ (s.kind.opensScope = true ∧ BelongsTo root s outer) := by
  induction inner generalizing n with
  | nil => exact h.head
  | cons u inner ih =>
    rcases h.head with ⟨-, hnil⟩ | ⟨-, hu⟩
    · simp at hnil
    · exact ih hu

/-- What belongs to the scope of a function, or to one further inside, stands in the body of the
function. -/
theorem mem_bodyNodes {inner : List Node} (h : BelongsTo root n (inner ++ s :: outer))
    (hk : s.kind.isFunction = true) (hroot : s ≠ root) : n ∈ s.bodyNodes := by
  generalize hscopes : inner ++ s :: outer = scopes at h
  induction h generalizing inner with
  | root =>
    cases inner with
    | nil => exact absurd (List.cons.inj hscopes).1 hroot
    | cons u inner => simp at hscopes
  | @inside p c scopes hp hc hopens ih =>
    cases inner with
    | nil =>
      obtain ⟨rfl, -⟩ := List.cons.inj hscopes
      have hrole : c.role = .body := by
        cases hkind : s.kind <;> simp_all [Kind.isFunction, Kind.opensFor]
      exact List.mem_flatMap.2 ⟨c, List.mem_filter.2 ⟨hc, by simp [hrole]⟩, mem_preorder_self c⟩
    | cons u inner => exact mem_bodyNodes_of_mem_preorder (ih (List.cons.inj hscopes).2) (mem_preorder_child hc)
  | outside _ hc _ _ ih => exact mem_bodyNodes_of_mem_preorder (ih hscopes) (mem_preorder_child hc)
  | @clause p clause c scopes hp hcomp hclause hc _ ih =>
    have hbelow : c ∈ p.preorder :=
      mem_preorder_of_child (mem_children_of_mem_parts hclause) (mem_preorder_child hc)
    cases inner with
    | nil =>
      obtain ⟨rfl, -⟩ := List.cons.inj hscopes
      rw [Kind.isComprehension_of_isFunction hk] at hcomp
      cases hcomp
    | cons u inner => exact mem_bodyNodes_of_mem_preorder (ih (List.cons.inj hscopes).2) hbelow
  | firstIterable _ _ hclause hc ih =>
    exact mem_bodyNodes_of_mem_preorder (ih hscopes) (mem_preorder_of_child
      (mem_children_of_mem_parts (List.mem_of_head? hclause)) (mem_preorder_parts hc))

end BelongsTo

theorem BindsAround.mem_preorder {n m : Node} {x : String} (h : BindsAround root n x m) : m ∈ n.preorder := by
  cases h with
  | importModule _ ha _ | importFrom _ ha _ => exact mem_preorder_parts ha
  | functionDef | classDef | target | handler | pattern => exact mem_preorder_self n

end Node

/-! ## Where the walk puts a node -/

/-- The scopes that are open at a place are those of these constructs. -/
def Place.Matches (p : Place) (scopes : List Node) : Prop :=
  List.Forall₂ (fun f s => f.id = s.index ∧ s.kind.scopeKind? = some f.kind) (p.here :: p.outer) scopes

namespace Node

variable {root n c : Node} {p : Place} {m : Manner} {r : Role}

/-- The place of a whole file. -/
def filePlace (root : Node) : Place := ⟨⟨root.index, .module, none⟩, []⟩

theorem placeOf_of_opensFor (h : n.kind.opensFor r = true) (p : Place) (m : Manner) :
    n.placeOf p m r = n.inside p := by
  unfold placeOf
  cases hk : n.kind <;> simp_all [Kind.opensFor, Kind.isComprehension]

theorem placeOf_of_not_opensFor (h : n.kind.opensFor r = false) (hclause : n.kind.category ≠ .clause)
    (p : Place) (m : Manner) : n.placeOf p m r = p := by
  unfold placeOf
  cases hk : n.kind <;> simp_all [Kind.opensFor, Kind.isComprehension, Kind.category]

theorem inside_matches {scopes : List Node} (h : p.Matches scopes) (hn : n.kind.scopeKind?.isSome = true) :
    (n.inside p).Matches (n :: scopes) := by
  obtain ⟨kind, hk⟩ := Option.isSome_iff_exists.1 hn
  unfold inside
  rw [hk]
  exact .cons ⟨rfl, hk⟩ h

theorem isSome_scopeKind?_of_opensFor (h : n.kind.opensFor r = true) : n.kind.scopeKind?.isSome = true := by
  cases hk : n.kind <;> simp_all [Kind.opensFor, Kind.scopeKind?]

theorem mannerOf_generator (n : Node) (p : Place) (m : Manner) (isFirst : Bool) :
    n.mannerOf p m isFirst .generator =
      if isFirst then .opening p (n.openedEvent p) else .plain := by
  unfold mannerOf
  cases n.kind <;> rfl

/-- Up to the first clause means that the clause is the first one. -/
theorem isFirst_iff {before after : List Node} (hn : n.children.Nodup)
    (h : n.children = before ++ c :: after) (hc : c.role = .generator) :
    before.all (·.role != .generator) = true ↔ (n.parts .generator).head? = some c := by
  rw [parts, h, List.filter_append]
  constructor
  · intro hbefore
    have hnone : before.filter (·.role == .generator) = [] := by
      refine List.filter_eq_nil_iff.2 fun d hd => ?_
      have := List.all_eq_true.1 hbefore d hd
      simpa using this
    simp [hnone, hc]
  · intro hhead
    cases hfirst : before.filter (·.role == .generator) with
    | nil =>
      refine List.all_eq_true.2 fun d hd => ?_
      have := List.filter_eq_nil_iff.1 hfirst d hd
      simpa using this
    | cons d ds =>
      rw [hfirst, List.cons_append, List.head?_cons] at hhead
      obtain rfl := Option.some.inj hhead
      have hd : d ∈ before := (List.mem_filter.1 (hfirst ▸ List.mem_cons_self)).1
      rw [h, List.nodup_append] at hn
      exact absurd rfl (hn.2.2 d hd d (by simp))

end Node

/-- Comprehensions and nothing else have clauses, in a role of their own. -/
theorem Kind.clause_layout (k : Kind) : ∀ slot ∈ k.layout,
    (slot.role = .generator ↔ slot.category = .clause) ∧
      (slot.role = .generator → k.isComprehension = true) := by
  cases k <;> simp [layout, isComprehension]

theorem Kind.eq_comprehension {k : Kind} (h : k.category = .clause) : ∃ isAsync, k = .comprehension isAsync := by
  cases k <;> simp_all [category]

theorem Kind.category_of_isComprehension {k : Kind} (h : k.isComprehension = true) :
    k.category = .expression := by
  cases k <;> first | rfl | cases h

theorem Kind.eq_module {k : Kind} (h : k.category = .file) : k = .module := by
  cases k <;> simp_all [category]

namespace Node

section File

variable {root n c clause : Node} {v : Meeting} (hroot : root.Is .file)
  (hnodup : (root.preorder.map index).Nodup)

include hroot

theorem part_cases (hn : n ∈ root.preorder) (hc : c ∈ n.children) :
    (c.role = .generator ↔ c.kind.category = .clause) ∧
      (c.role = .generator → n.kind.isComprehension = true) := by
  obtain ⟨slot, hslot, hrole, hcat⟩ := (hroot.of_mem_preorder root hn).arranged.exists_part c hc
  rw [hrole, hcat.category]
  exact n.kind.clause_layout slot hslot

include hnodup

/-- The clauses of a comprehension stand inside, and the first one opens the scope. -/
theorem exists_clause_meeting (hv : v ∈ root.walk root.filePlace .plain)
    (hclause : clause ∈ v.node.parts .generator) :
    ∃ w ∈ root.walk root.filePlace .plain, w.node = clause ∧ w.place = v.node.inside v.place ∧
      (((v.node.parts .generator).head? = some clause ∧
          w.manner = .opening v.place (v.node.openedEvent v.place)) ∨
        ((v.node.parts .generator).head? ≠ some clause ∧ w.manner = .plain)) := by
  have hn := node_mem_preorder hv
  have hc := mem_children_of_mem_parts hclause
  have hr : clause.role = .generator := by simpa using (List.mem_filter.1 hclause).2
  have hopens : v.node.kind.opensFor clause.role = true := by
    have := (part_cases hroot hn hc).2 hr
    cases hk : v.node.kind <;> simp_all [Kind.opensFor, Kind.isComprehension]
  obtain ⟨before, after, hchildren⟩ := List.append_of_mem hc
  refine ⟨_, part_mem_walk hchildren root hv, rfl, placeOf_of_opensFor hopens _ _, ?_⟩
  have hfirst := isFirst_iff (children_nodup (nodup_of_mem_preorder root hnodup hn)) hchildren hr
  simp only [Meeting.part, hr, mannerOf_generator]
  cases hall : before.all (·.role != .generator) with
  | true => exact .inl ⟨hfirst.1 hall, rfl⟩
  | false => exact .inr ⟨fun h => by simp [hfirst.2 h] at hall, rfl⟩

/-- The parts of a clause stand inside, but for the first iterable. -/
theorem exists_clause_part_meeting (hv : v ∈ root.walk root.filePlace .plain)
    (hclause : clause ∈ v.node.parts .generator) (hc : c ∈ clause.children) :
    ∃ u ∈ root.walk root.filePlace .plain, u.node = c ∧
      ((c.role = .iter ∧ (v.node.parts .generator).head? = some clause ∧ u.place = v.place) ∨
        ((c.role = .iter → (v.node.parts .generator).head? ≠ some clause) ∧
          u.place = v.node.inside v.place)) := by
  obtain ⟨w, hw, rfl, hplace, hmanner⟩ := exists_clause_meeting hroot hnodup hv hclause
  have hr : w.node.role = .generator := by simpa using (List.mem_filter.1 hclause).2
  obtain ⟨isAsync, hk⟩ := Kind.eq_comprehension
    ((part_cases hroot (node_mem_preorder hv) (mem_children_of_mem_parts hclause)).1.1 hr)
  obtain ⟨before, after, hchildren⟩ := List.append_of_mem hc
  refine ⟨_, part_mem_walk hchildren root hw, rfl, ?_⟩
  rcases hmanner with ⟨hhead, hm⟩ | ⟨hhead, hm⟩
  · by_cases hiter : c.role = .iter
    · exact .inl ⟨hiter, hhead, by simp [Meeting.part, placeOf, hk, hm, hiter]⟩
    · exact .inr ⟨fun h => absurd h hiter, by simp [Meeting.part, placeOf, hk, hm, hiter, hplace]⟩
  · exact .inr ⟨fun _ => hhead, by simp [Meeting.part, placeOf, hk, hm, hplace, Kind.isComprehension]⟩

/-- The walk puts every node where it belongs. -/
theorem exists_matching_meeting {scopes : List Node} (h : BelongsTo root n scopes) :
    ∃ v ∈ root.walk root.filePlace .plain, v.node = n ∧ v.place.Matches scopes := by
  induction h with
  | root =>
    have hmodule := Kind.eq_module hroot.category
    exact ⟨_, mem_walk.2 (.inl rfl), rfl, .cons ⟨rfl, by rw [hmodule]; rfl⟩ .nil⟩
  | @inside n c scopes _ hc hopens ih =>
    obtain ⟨v, hv, rfl, hscopes⟩ := ih
    obtain ⟨before, after, hchildren⟩ := List.append_of_mem hc
    refine ⟨_, part_mem_walk hchildren root hv, rfl, ?_⟩
    rw [Meeting.part, placeOf_of_opensFor hopens]
    exact inside_matches hscopes (isSome_scopeKind?_of_opensFor hopens)
  | @outside n c scopes _ hc hopens hclause ih =>
    obtain ⟨v, hv, rfl, hscopes⟩ := ih
    obtain ⟨before, after, hchildren⟩ := List.append_of_mem hc
    refine ⟨_, part_mem_walk hchildren root hv, rfl, ?_⟩
    rw [Meeting.part, placeOf_of_not_opensFor hopens hclause]
    exact hscopes
  | @clause n clause c scopes _ hn hclause hc hfirst ih =>
    obtain ⟨v, hv, rfl, hscopes⟩ := ih
    obtain ⟨u, hu, rfl, ⟨hiter, hhead, -⟩ | ⟨-, hplace⟩⟩ :=
      exists_clause_part_meeting hroot hnodup hv hclause hc
    · exact absurd hhead (hfirst hiter)
    · refine ⟨u, hu, rfl, ?_⟩
      rw [hplace]
      exact inside_matches hscopes (by cases hk : v.node.kind <;> simp_all [Kind.isComprehension, Kind.scopeKind?])
  | @firstIterable n clause c scopes _ hn hclause hc ih =>
    obtain ⟨v, hv, rfl, hscopes⟩ := ih
    have hiter : c.role = .iter := by simpa using (List.mem_filter.1 hc).2
    obtain ⟨u, hu, rfl, ⟨-, -, hplace⟩ | ⟨hnot, -⟩⟩ := exists_clause_part_meeting hroot hnodup hv
      (List.mem_of_head? hclause) (mem_children_of_mem_parts hc)
    · exact ⟨u, hu, rfl, hplace ▸ hscopes⟩
    · exact absurd hclause (hnot hiter)

theorem BelongsTo.unique {scopes scopes' : List Node} (h : BelongsTo root n scopes)
    (h' : BelongsTo root n scopes') : scopes = scopes' := by
  obtain ⟨v, hv, hvn, hscopes⟩ := exists_matching_meeting hroot hnodup h
  obtain ⟨w, hw, hwn, hscopes'⟩ := exists_matching_meeting hroot hnodup h'
  obtain rfl := meeting_eq hnodup hv hw (hvn.trans hwn.symm)
  have hall := h.scopes_mem_preorder
  have hall' := h'.scopes_mem_preorder
  unfold Place.Matches at hscopes hscopes'
  generalize v.place.here :: v.place.outer = frames at hscopes hscopes'
  clear h h' hv hw hvn hwn
  induction hscopes generalizing scopes' with
  | nil => cases hscopes'; rfl
  | @cons f s frames scopes hf hrest ih =>
    obtain ⟨s', rest, hf', hrest', rfl⟩ := List.forall₂_cons_left_iff.1 hscopes'
    rw [List.forall_mem_cons] at hall hall'
    rw [List.inj_on_of_nodup_map hnodup hall.1 hall'.1 (hf.1.symm.trans hf'.1),
      ih hall.2 hall'.2 hrest']

omit hnodup in
/-- What stands below a node belongs to scopes further inside than those around the node. A clause
does not say where its parts belong, so for a clause this is asked of the parts. -/
theorem exists_belongsTo_below {around : List Node} : ∀ n : Node, n ∈ root.preorder →
    (∃ inner, BelongsTo root n (inner ++ around)) →
    (n.kind.category = .clause → ∀ c ∈ n.children, ∃ inner, BelongsTo root c (inner ++ around)) →
    ∀ m ∈ n.preorder, ∃ inner, BelongsTo root m (inner ++ around) := by
  refine induction fun n ih hn hself hclause m hm => ?_
  rw [preorder_eq, List.mem_cons, List.mem_flatMap] at hm
  rcases hm with rfl | ⟨c, hc, hm⟩
  · exact hself
  obtain ⟨inner, hscopes⟩ := hself
  have hcn : c ∈ root.preorder := mem_preorder_trans (mem_preorder_child hc) root hn
  have hcself : ∃ inner, BelongsTo root c (inner ++ around) := by
    by_cases hcat : n.kind.category = .clause
    · exact hclause hcat c hc
    · cases hopens : n.kind.opensFor c.role with
      | true => exact ⟨n :: inner, .inside hscopes hc hopens⟩
      | false => exact ⟨inner, .outside hscopes hc hopens hcat⟩
  refine ih c hc hcn hcself (fun hcat d hd => ?_) m hm
  obtain ⟨hrole, hcomp⟩ := part_cases hroot hn hc
  have hparts : c ∈ n.parts .generator := List.mem_filter.2 ⟨hc, by simp [hrole.2 hcat]⟩
  by_cases hfirst : d.role = .iter ∧ (n.parts .generator).head? = some c
  · exact ⟨inner, .firstIterable hscopes (hcomp (hrole.2 hcat)) hfirst.2
      (List.mem_filter.2 ⟨hd, by simp [hfirst.1]⟩)⟩
  · exact ⟨n :: inner, .clause hscopes (hcomp (hrole.2 hcat)) hparts hd fun hr hh => hfirst ⟨hr, hh⟩⟩

omit hnodup in
/-- Every node of a file belongs to a scope. -/
theorem exists_belongsTo (m : Node) (hm : m ∈ root.preorder) : ∃ scopes, BelongsTo root m scopes := by
  obtain ⟨inner, h⟩ : ∃ inner, BelongsTo root m (inner ++ [root]) := by
    refine exists_belongsTo_below hroot root root.mem_preorder_self ⟨[], .root⟩ (fun hcat => ?_) m hm
    rw [hroot.category] at hcat
    cases hcat
  exact ⟨_, h⟩

omit hnodup in
/-- The nodes of the body of a function belong to its scope or to scopes further inside. -/
theorem BelongsTo.of_mem_bodyNodes {outer : List Node} (h : BelongsTo root n outer)
    (hk : n.kind.isFunction = true) {m : Node} (hm : m ∈ n.bodyNodes) :
    ∃ inner, BelongsTo root m (inner ++ n :: outer) := by
  obtain ⟨b, hb, hm⟩ := List.mem_flatMap.1 hm
  have hc := mem_children_of_mem_parts hb
  have hrole : b.role = .body := by simpa using (List.mem_filter.1 hb).2
  have hopens : n.kind.opensFor b.role = true := by
    cases hkind : n.kind <;> simp_all [Kind.isFunction, Kind.opensFor]
  refine exists_belongsTo_below hroot b (mem_preorder_trans (mem_preorder_child hc) root h.mem_preorder)
    ⟨[], .inside h hc hopens⟩ (fun hcat => ?_) m hm
  rw [(part_cases hroot h.mem_preorder hc).1.2 hcat] at hrole
  cases hrole

end File

theorem isTarget_mannerOf (n : Node) (p : Place) (m : Manner) (isFirst : Bool) (r : Role) :
    (n.mannerOf p m isFirst r).isTarget = true ↔
      (n.kind.bindsTargets = true ∧ r = .target) ∨ (n.kind = .withItem ∧ r = .captured) ∨
      (m.isTarget = true ∧ (((n.kind = .tuple ∨ n.kind = .list) ∧ r = .element) ∨
        (n.kind = .starred ∧ r = .value))) := by
  have plain : Manner.plain.isTarget = false := rfl
  unfold mannerOf
  split
  case h_8 | h_9 | h_10 => cases m <;> simp_all [Manner.isTarget, Kind.bindsTargets]
  case h_11 => cases isFirst <;> simp [Manner.isTarget]
  case h_12 =>
    -- The constructs with targets have been met above.
    rw [plain]
    refine iff_of_false (by simp) ?_
    rintro (⟨hk, rfl⟩ | ⟨hk, rfl⟩ | ⟨-, ⟨hk | hk, rfl⟩ | ⟨hk, rfl⟩⟩)
    · cases hkind : n.kind <;> simp_all [Kind.bindsTargets]
    all_goals simp_all
  all_goals simp_all [Manner.isTarget, Kind.bindsTargets]

theorem IsTarget.mem_preorder {root n : Node} (h : IsTarget root n) : n ∈ root.preorder := by
  induction h with
  | target hn _ hc => exact mem_preorder_trans (mem_preorder_parts hc) root hn
  | captured hn _ hc => exact mem_preorder_trans (mem_preorder_parts hc) root hn
  | element _ _ hc ih => exact mem_preorder_trans (mem_preorder_parts hc) root ih
  | starred _ _ hc ih => exact mem_preorder_trans (mem_preorder_parts hc) root ih

section File

variable {root : Node} {v : Meeting} {p : Place} (hnodup : (root.preorder.map index).Nodup)

include hnodup

/-- A part is met as its parent says. -/
theorem exists_parent_meeting {n : Node} {r : Role} (hv : v ∈ root.walk p .plain) (hn : n ∈ root.preorder)
    (hc : v.node ∈ n.parts r) : ∃ w ∈ root.walk p .plain, w.node = n ∧
      ∃ isFirst, v.manner = w.node.mannerOf w.place w.manner isFirst r := by
  obtain ⟨w, hw, rfl⟩ := exists_meeting hn p .plain
  obtain ⟨before, after, hchildren⟩ := List.append_of_mem (mem_children_of_mem_parts hc)
  have hr : v.node.role = r := by simpa using (List.mem_filter.1 hc).2
  have hpart := meeting_eq hnodup hv (part_mem_walk hchildren root hw) rfl
  exact ⟨w, hw, rfl, _, by rw [hpart, Meeting.part, hr]⟩

/-- The walk meets as targets what is a target. -/
theorem isTarget_iff (hv : v ∈ root.walk p .plain) :
    v.manner.isTarget = true ↔ IsTarget root v.node := by
  constructor
  · refine walk_induction (motive := fun v => v.manner.isTarget = true → IsTarget root v.node) root
      (fun h => by cases h) (fun v hv ih before c after hchildren h => ?_) v hv
    have hn := node_mem_preorder hv
    have hc : c ∈ v.node.children := by simp [hchildren]
    rw [Meeting.part, isTarget_mannerOf] at h
    have hparts : ∀ {r}, c.role = r → c ∈ v.node.parts r := fun h => List.mem_filter.2 ⟨hc, by simp [h]⟩
    rcases h with ⟨hk, hr⟩ | ⟨hk, hr⟩ | ⟨hm, ⟨hk, hr⟩ | ⟨hk, hr⟩⟩
    · exact .target hn hk (hparts hr)
    · exact .captured hn hk (hparts hr)
    · exact .element (ih hm) hk (hparts hr)
    · exact .starred (ih hm) hk (hparts hr)
  · intro h
    generalize hn : v.node = n at h
    induction h generalizing v with
    | target hmem hk hc =>
      subst hn
      obtain ⟨w, hw, rfl, isFirst, hm⟩ := exists_parent_meeting hnodup hv hmem hc
      rw [hm, isTarget_mannerOf]
      exact .inl ⟨hk, rfl⟩
    | captured hmem hk hc =>
      subst hn
      obtain ⟨w, hw, rfl, isFirst, hm⟩ := exists_parent_meeting hnodup hv hmem hc
      rw [hm, isTarget_mannerOf]
      exact .inr (.inl ⟨hk, rfl⟩)
    | element htarget hk hc ih =>
      subst hn
      obtain ⟨w, hw, rfl, isFirst, hm⟩ := exists_parent_meeting hnodup hv htarget.mem_preorder hc
      rw [hm, isTarget_mannerOf]
      exact .inr (.inr ⟨ih hw rfl, .inl ⟨hk, rfl⟩⟩)
    | starred htarget hk hc ih =>
      subst hn
      obtain ⟨w, hw, rfl, isFirst, hm⟩ := exists_parent_meeting hnodup hv htarget.mem_preorder hc
      rw [hm, isTarget_mannerOf]
      exact .inr (.inr ⟨ih hw rfl, .inr ⟨hk, rfl⟩⟩)

end File

end Node

end EffectGraph
