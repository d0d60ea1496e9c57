/-
The scopes of a file are made of constructs of its tree: the nodes that open
them, the nodes that bind names in them, and the values and declared types of
these names.

An event of the walk mentions only the node it is about, parts of that node,
and what the walk carried down to it (`Manner`), so the walk never leaves the
tree (`events_within`).
-/
import EffectGraph.Proofs.Syntax.Walk

namespace EffectGraph

/-- Nodes among which all parts of a node are, with the node. -/
def Closed (S : Node → Prop) : Prop := ∀ n c : Node, S n → c ∈ n.children → S c

theorem Tree.closed_nodes (t : Tree) : Closed (· ∈ t.nodes) :=
  fun _ _ hn hc => t.mem_nodes_trans hn (Node.mem_preorder_child hc)

namespace Closed

variable {S : Node → Prop} {n c : Node}

theorem preorder (h : Closed S) (hn : S n) : ∀ m ∈ n.preorder, S m := by
  revert hn
  refine Node.induction (motive := fun n => S n → ∀ m ∈ n.preorder, S m) (fun n ih hn m hm => ?_) n
  rw [Node.preorder_eq, List.mem_cons, List.mem_flatMap] at hm
  rcases hm with rfl | ⟨c, hc, hm⟩
  · exact hn
  · exact ih c hc (h n c hn hc) m hm

theorem parts (h : Closed S) (hn : S n) {r : Role} (hc : c ∈ n.parts r) : S c :=
  h n c hn (Node.mem_children_of_mem_parts hc)

theorem part? (h : Closed S) (hn : S n) {r : Role} (hc : n.part? r = some c) : S c :=
  h n c hn (Node.mem_children_of_part? hc)

theorem parameters (h : Closed S) (hn : S n) (hc : c ∈ n.parameters) : S c :=
  h.preorder hn c (Node.mem_preorder_parameters hc)

end Closed

variable {S : Node → Prop}

/-- A binding by some nodes, with its value and its declared type. What binds a name as a function
is the definition of a function. -/
structure Binding.Within (S : Node → Prop) (b : Binding) : Prop where
  node : S b.node
  value : ∀ v, b.value = some v → S v
  hint : ∀ h, b.hint = some h → S h
  function : b.kind = .functionDef → b.node.kind.isFunctionDef = true

/-- A scope of some nodes. -/
structure Scope.Within (S : Node → Prop) (s : Scope) : Prop where
  node : S s.node
  bindings : ∀ b ∈ s.bindings, b.Within S
  stored : ∀ a ∈ s.stored, S a.value

def Event.Within (S : Node → Prop) : Event → Prop
  | .opened node _ _ _ => S node
  | .bound _ b => b.Within S
  | .stored _ a => S a.value
  | .belongs _ _ | .global _ _ | .nonlocal _ _ => True

def Manner.Within (S : Node → Prop) : Manner → Prop
  | .plain => True
  | .target value hint => (∀ v, value = some v → S v) ∧ ∀ h, hint = some h → S h
  | .opening _ opened => opened.Within S

namespace Node

/-! ## One node -/

theorem openedEvent_within {n : Node} (hn : S n) (p : Place) : (n.openedEvent p).Within S := hn

theorem mannerOf_within (h : Closed S) {n : Node} (hn : S n) (p : Place) (m : Manner)
    (isFirst : Bool) (r : Role) : (n.mannerOf p m isFirst r).Within S := by
  have none_within : (Manner.target none none).Within S := ⟨by simp, by simp⟩
  unfold mannerOf
  split
  · exact ⟨fun v hv => h.part? hn hv, by simp⟩
  · exact ⟨fun v hv => h.part? hn hv, fun v hv => h.part? hn hv⟩
  all_goals first | exact none_within | trivial | skip
  · split
    · exact none_within
    · trivial
  · split
    · exact none_within
    · trivial
  · split
    · exact none_within
    · trivial
  · split
    · exact openedEvent_within hn p
    · trivial

theorem storedIn_within {p : Place} {value : Node} (hv : S value) (targets : List Node) :
    ∀ e ∈ storedIn p value targets, e.Within S := by
  intro e he
  unfold storedIn at he
  split at he
  · split at he
    · simp at he
    · obtain ⟨t, -, ht⟩ := List.mem_filterMap.1 he
      split at ht
      · split at ht
        · cases ht
          exact hv
        · cases ht
      · cases ht
  · simp at he

theorem aliasBindings_within (h : Closed S) {n : Node} (hn : S n) (resolve : Nat → String → String) :
    ∀ b ∈ n.aliasBindings resolve, b.Within S := by
  intro b hb
  obtain ⟨a, ha, hb⟩ := List.mem_filterMap.1 hb
  have hS := h.parts hn ha
  split at hb
  · cases hb
    exact ⟨hS, by simp, by simp, by simp⟩
  · split at hb
    · cases hb
    · cases hb
      exact ⟨hS, by simp, by simp, by simp⟩
  · cases hb

theorem parameterBindings_within (h : Closed S) {n : Node} (hn : S n) :
    ∀ b ∈ n.parameterBindings, b.Within S := by
  intro b hb
  obtain ⟨a, ha, rfl⟩ := List.mem_map.1 hb
  have hS := h.parameters hn ha
  exact ⟨hS, by simp, fun v hv => h.part? hS hv, by simp⟩

/-- The events of a node are those of its parts and events about the node and its parts. -/
theorem arrange_within (h : Closed S) {resolve : Nat → String → String} {n : Node} (hn : S n)
    {p : Place} {m : Manner} (hm : m.Within S) {parts : List (Role × List Event)}
    (hparts : ∀ x ∈ parts, ∀ e ∈ x.2, e.Within S) :
    ∀ e ∈ arrange resolve n p m parts, e.Within S := by
  have own : (Event.belongs n.index p.here.id).Within S := trivial
  have ofRole : ∀ r, ∀ e ∈ (parts.filter (·.1 == r)).flatMap (·.2), e.Within S := by
    intro r e he
    obtain ⟨x, hx, he⟩ := List.mem_flatMap.1 he
    exact hparts x (List.mem_filter.1 hx).1 e he
  have all : ∀ e ∈ parts.flatMap (·.2), e.Within S := by
    intro e he
    obtain ⟨x, hx, he⟩ := List.mem_flatMap.1 he
    exact hparts x hx e he
  have plain : ∀ (x : String) (k : BindingKind), (k = .functionDef → n.kind.isFunctionDef = true) →
      Binding.Within S ⟨x, k, n, none, none, none⟩ :=
    fun _ _ hk => ⟨hn, by simp, by simp, hk⟩
  have other : ∀ name : Option String, ∀ e ∈ name.toList.map fun x =>
      Event.bound p.here.id ⟨x, .other, n, none, none, none⟩, e.Within S := by
    intro name e he
    obtain ⟨x, -, rfl⟩ := List.mem_map.1 he
    exact plain x .other (by simp)
  have params : ∀ e ∈ n.parameterBindings.map (Event.bound n.index), e.Within S := by
    intro e he
    obtain ⟨b, hb, rfl⟩ := List.mem_map.1 he
    exact parameterBindings_within h hn b hb
  have aliases : ∀ e ∈ (n.aliasBindings resolve).map (Event.bound p.here.id), e.Within S := by
    intro e he
    obtain ⟨b, hb, rfl⟩ := List.mem_map.1 he
    exact aliasBindings_within h hn resolve b hb
  have stored : ∀ e ∈ ((n.part? .value).map fun v => storedIn p v (n.parts .target)).getD [],
      e.Within S := by
    cases hv : n.part? .value with
    | none => simp
    | some v => exact storedIn_within (h.part? hn hv) _
  have named : ∀ {bind : Node → Option Event}, (∀ t e, bind t = some e → ∃ s id, e = .bound s
      ⟨id, .assignment, t, n.part? .value, none, none⟩) →
      ∀ e ∈ (n.parts .target).filterMap bind, e.Within S := by
    intro bind hbind e he
    obtain ⟨t, ht, he⟩ := List.mem_filterMap.1 he
    obtain ⟨s, id, rfl⟩ := hbind t e he
    exact ⟨h.parts hn ht, fun v hv => h.part? hn hv, by simp, by simp⟩
  have opened := openedEvent_within hn p
  have nothing : ∀ e ∈ ([] : List Event), e.Within S := by simp
  unfold arrange
  split
  all_goals
    try split
  all_goals
    repeat' first
      | exact own
      | exact ofRole _
      | exact all
      | exact opened
      | exact params
      | exact aliases
      | exact nothing
      | exact other _
      | exact plain _ .functionDef fun _ => by simp [*, Kind.isFunctionDef]
      | exact plain _ .classDef (by simp)
      | exact stored
      | exact named fun t e he => by split at he <;> cases he; exact ⟨_, _, rfl⟩
      | exact hm
      | exact ⟨hn, hm.1, hm.2, by simp⟩
      | refine List.forall_mem_append.2 ⟨?_, ?_⟩
      | refine List.forall_mem_cons.2 ⟨?_, ?_⟩

/-! ## The walk -/

theorem mem_partEvents {resolve : Nat → String → String} {n : Node} {p : Place} {m : Manner} :
    ∀ {cs : List Node} {isFirst : Bool} {x : Role × List Event},
      x ∈ partEvents resolve n p m isFirst cs →
      ∃ c ∈ cs, ∃ first, x =
        (c.role, events resolve (n.placeOf p m c.role) (n.mannerOf p m first c.role) c)
  | [], _, _, h => by simp [partEvents] at h
  | c :: cs, isFirst, x, h => by
    rw [partEvents, List.mem_cons] at h
    rcases h with rfl | h
    · exact ⟨c, by simp, isFirst, rfl⟩
    · obtain ⟨d, hd, first, hx⟩ := mem_partEvents h
      exact ⟨d, by simp [hd], first, hx⟩

theorem events_eq (resolve : Nat → String → String) (p : Place) (m : Manner) (n : Node) :
    n.events resolve p m =
      arrange resolve n p m (partEvents resolve n p m true n.children) := by
  cases n with
  | mk i r k s cs => rw [events]; rfl

theorem events_within (h : Closed S) {resolve : Nat → String → String} :
    ∀ (n : Node) (p : Place) (m : Manner), S n → m.Within S →
      ∀ e ∈ n.events resolve p m, e.Within S := by
  refine induction fun n ih p m hn hm => ?_
  rw [events_eq]
  refine arrange_within h hn hm fun x hx => ?_
  obtain ⟨c, hc, first, rfl⟩ := mem_partEvents hx
  exact ih c hc _ _ (h n c hn hc) (mannerOf_within h hn p m first c.role)

end Node

/-! ## The table -/

namespace ScopeTable

theorem scope?_within {events : List Event} (h : ∀ e ∈ events, e.Within S) {e : Event} (he : e ∈ events)
    {s : Scope} (hs : Event.scope? events e = some s) : s.Within S := by
  cases e with
  | opened node kind receiver ancestors =>
    cases hs
    refine ⟨h _ he, fun b hb => ?_, fun a ha => ?_⟩
    · obtain ⟨e, hmem, hb⟩ := List.mem_filterMap.1 hb
      split at hb
      · split at hb
        · cases hb
          exact h _ hmem
        · cases hb
      · cases hb
    · obtain ⟨e, hmem, ha⟩ := List.mem_filterMap.1 ha
      split at ha
      · split at ha
        · cases ha
          exact h _ hmem
        · cases ha
      · cases ha
  | belongs | bound | «global» | «nonlocal» | stored => cases hs

theorem eventsOf_within (f : SourceFile) : ∀ e ∈ eventsOf f, e.Within (· ∈ f.tree.nodes) := by
  have root : f.tree.root ∈ f.tree.nodes := Node.mem_preorder_self _
  refine List.forall_mem_cons.2 ⟨root, ?_⟩
  exact Node.events_within f.tree.closed_nodes _ _ .plain root trivial

/-- Every scope of a file is made of nodes of its tree. -/
theorem ofFile_within {f : SourceFile} {s : Scope} (hs : s ∈ (ofFile f).scopes) :
    s.Within (· ∈ f.tree.nodes) := by
  obtain ⟨e, he, hs⟩ := List.mem_filterMap.1 hs
  exact scope?_within (eventsOf_within f) he hs

/-! ## Chains -/

theorem mem_scopes_of_opened? {t : ScopeTable} {node : Nat} {s : Scope} (h : t.opened? node = some s) :
    s ∈ t.scopes :=
  List.mem_of_find?_eq_some h

theorem mem_scopes_of_mem_chain {t : ScopeTable} {s u : Scope} (hs : s ∈ t.scopes)
    (hu : u ∈ t.chain s) : u ∈ t.scopes := by
  rcases List.mem_cons.1 hu with rfl | hu
  · exact hs
  · obtain ⟨i, -, hi⟩ := List.mem_filterMap.1 hu
    exact mem_scopes_of_opened? hi

theorem mem_scopes_of_chainOf? {t : ScopeTable} {node : Nat} {c : Chain} (h : t.chainOf? node = some c) :
    ∀ s ∈ c, s ∈ t.scopes := by
  unfold chainOf? at h
  split at h
  · obtain ⟨s, hs, rfl⟩ := Option.map_eq_some_iff.1 h
    exact fun u hu => mem_scopes_of_mem_chain (mem_scopes_of_opened? hs) hu
  · cases h

end ScopeTable

namespace Chain

theorem mem_of_mem_outermost {c : Chain} {s : Scope} (h : s ∈ c.outermost) : s ∈ c :=
  List.mem_of_getLast? (Option.mem_toList.1 h)

/-- A search for a name stays among the scopes it starts with. -/
theorem mem_of_lookupBy {name : String} :
    ∀ {reach : Reach} {c owner : Chain}, lookupBy name reach c = some owner →
      ∀ s ∈ owner, s ∈ c
  | _, [], _, h => by simp [lookupBy] at h
  | reach, s :: outer, owner, h => by
    have further : ∀ {reach}, lookupBy name reach outer = some owner → ∀ u ∈ owner, u ∈ s :: outer :=
      fun h u hu => List.mem_cons_of_mem s (mem_of_lookupBy h u hu)
    rw [lookupBy] at h
    split at h
    · cases h
    split at h
    · exact further h
    split at h
    · cases h
      exact fun u hu => mem_of_mem_outermost hu
    split at h
    · exact further h
    split at h
    · cases h
      exact fun u hu => hu
    · exact further h

theorem mem_of_lookup {name : String} {c owner : Chain} (h : c.lookup name = some owner) :
    ∀ s ∈ owner, s ∈ c :=
  mem_of_lookupBy h

end Chain

theorem Scope.mem_of_lastBinding? {s : Scope} {name : String} {b : Binding}
    (h : s.lastBinding? name = some b) : b ∈ s.bindings :=
  (List.mem_filter.1 (List.mem_of_getLast? h)).1

end EffectGraph
