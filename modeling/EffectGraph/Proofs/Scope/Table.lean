/-
The scope table of a file is its block structure.

The events of a file say of every node which scope it belongs to, open the
scope of every construct that has one, and bind every name where the language
binds it. So the table gives every node the scopes around it (`chainOf?_eq`),
and lists for every scope what binds a name in it (`mem_bindingsOf`).
-/
import EffectGraph.Proofs.Scope.Block

namespace EffectGraph

namespace SourceFile

/-- The meetings of the walk over a file. -/
def meetings (f : SourceFile) : List Meeting := f.tree.root.walk f.tree.root.filePlace .plain

/-- The module that a relative import in the file means. -/
def resolve (f : SourceFile) : Nat → String → String := SourcePath.importedModule f.module f.isPackage

end SourceFile

/-! ## What a meeting says -/

namespace Meeting

variable {v : Meeting} {e : Event} {resolve : Nat → String → String}

theorem remarks_cases (h : e ∈ v.remarks) :
    (∃ names, v.node.kind = .globalStmt names ∧ e = .global v.place.here.id names) ∨
      (∃ names, v.node.kind = .nonlocalStmt names ∧ e = .nonlocal v.place.here.id names) ∨
      ∃ s a, e = .stored s a := by
  have stored : e ∈ ((v.node.part? .value).map fun value =>
      Node.storedIn v.place value (v.node.parts .target)).getD [] → ∃ s a, e = .stored s a := by
    intro h
    cases hv : v.node.part? .value with
    | none => simp [hv] at h
    | some value =>
      rw [hv, Option.map_some, Option.getD_some] at h
      unfold Node.storedIn at h
      split at h
      · split at h
        · simp at h
        · obtain ⟨t, -, ht⟩ := List.mem_filterMap.1 h
          split at ht
          · split at ht
            · exact ⟨_, _, (Option.some.inj ht).symm⟩
            · cases ht
          · cases ht
      · simp at h
  unfold remarks at h
  split at h
  · exact .inl ⟨_, ‹_›, List.mem_singleton.1 h⟩
  · exact .inr (.inl ⟨_, ‹_›, List.mem_singleton.1 h⟩)
  · exact .inr (.inr (stored h))
  · exact .inr (.inr (stored h))
  · cases h

theorem mem_events : e ∈ v.events resolve ↔
    (v.node.kind ≠ .arguments ∧ e = .belongs v.node.index v.place.here.id) ∨
      (∃ b ∈ v.bindings resolve, e = .bound v.place.here.id b) ∨
      (∃ b ∈ v.innerBindings, e = .bound v.node.index b) ∨
      (∃ b ∈ v.blockBindings, e = .bound v.place.nearestBlock.id b) ∨
      e ∈ v.openings ∨ e ∈ v.remarks := by
  by_cases hk : v.node.kind = .arguments <;>
    simp [events, hk, List.mem_map, eq_comm (a := e)]

end Meeting

theorem Node.mannerOf_eq_opening {n : Node} {p q : Place} {m : Manner} {isFirst : Bool} {r : Role}
    {e : Event} (h : n.mannerOf p m isFirst r = .opening q e) :
    r = .generator ∧ e = n.openedEvent p := by
  unfold mannerOf at h
  split at h
  case h_8 | h_9 | h_10 => split at h <;> cases h
  case h_11 =>
    split at h
    · cases h
      exact ⟨rfl, rfl⟩
    · cases h
  all_goals cases h

theorem Kind.isComprehension_of_scopeKind? {k : Kind} {kind : ScopeKind} (h : k.scopeKind? = some kind) :
    k.isComprehension = (kind == .comprehension) := by
  cases k <;> cases h <;> rfl

theorem Kind.eq_classDef_of_scopeKind? {k : Kind} (h : k.scopeKind? = some .classBody) :
    ∃ name, k = .classDef name := by
  cases k <;> cases h
  exact ⟨_, rfl⟩

theorem Node.outer_inside {n : Node} (h : n.kind.opensScope = true) (p : Place) :
    (n.inside p).outer = p.here :: p.outer := by
  obtain ⟨kind, hk⟩ : ∃ kind, n.kind.scopeKind? = some kind := by
    cases hk : n.kind <;> simp [hk, Kind.opensScope, Kind.scopeKind?] at h ⊢
  unfold inside
  rw [hk]
  rfl

namespace ScopeTable

variable {f : SourceFile} {v w : Meeting} {e : Event}

section File

variable (hroot : f.tree.root.Is .file)

include hroot

theorem eventsOf_perm : (eventsOf f).Perm (.opened f.tree.root .module none [] ::
    f.meetings.flatMap (Meeting.events f.resolve)) :=
  (Node.events_perm f.tree.root _ _ hroot).cons _

theorem mem_eventsOf : e ∈ eventsOf f ↔ e = .opened f.tree.root .module none [] ∨
    ∃ v ∈ f.meetings, e ∈ v.events f.resolve := by
  rw [(eventsOf_perm hroot).mem_iff, List.mem_cons, List.mem_flatMap]

/-! ### Scopes -/

/-- The scope of a comprehension opens at its first clause, as the comprehension was met. -/
theorem opening_of_manner (hv : v ∈ f.meetings) {q : Place} (h : v.manner = .opening q e) :
    ∃ w ∈ f.meetings, w.node.kind.isComprehension = true ∧ e = w.node.openedEvent w.place := by
  revert h
  refine Node.walk_induction (motive := fun v => v.manner = .opening q e → ∃ w ∈ f.meetings,
    w.node.kind.isComprehension = true ∧ e = w.node.openedEvent w.place) f.tree.root
    (fun h => by cases h) (fun w hw _ before c after hchildren h => ?_) v hv
  obtain ⟨hr, he⟩ := Node.mannerOf_eq_opening h
  have hc : c ∈ w.node.children := by simp [hchildren]
  exact ⟨w, hw, (Node.part_cases hroot (Node.node_mem_preorder hw) hc).2 hr, he⟩

theorem opens_of_mem_openings (hv : v ∈ f.meetings) (h : e ∈ v.openings) :
    ∃ w ∈ f.meetings, w.node.kind.opensScope = true ∧ e = w.node.openedEvent w.place := by
  unfold Meeting.openings at h
  split at h
  case h_4 =>
    next q opened hk hm =>
    obtain ⟨w, hw, hk, he⟩ := opening_of_manner hroot hv hm
    refine ⟨w, hw, ?_, (List.mem_singleton.1 h).trans he⟩
    cases hkind : w.node.kind <;> simp_all [Kind.isComprehension, Kind.opensScope]
  case h_5 => cases h
  all_goals
    next hk =>
    exact ⟨v, hv, by simp [hk, Kind.opensScope], List.mem_singleton.1 h⟩

theorem exists_opening (hw : w ∈ f.meetings) (h : w.node.kind.opensScope = true) :
    ∃ v ∈ f.meetings, w.node.openedEvent w.place ∈ v.openings := by
  have comprehension : w.node.kind.isComprehension = true →
      ∃ v ∈ f.meetings, w.node.openedEvent w.place ∈ v.openings := by
    intro hk
    have hn := Node.node_mem_preorder hw
    have harranged := (hroot.of_mem_preorder _ hn).arranged
    have hslot : Slot.atLeastOne .generator .clause ∈ w.node.kind.layout := by
      cases hkind : w.node.kind <;> simp_all [Kind.isComprehension, Kind.layout]
    have hcount : 0 < (w.node.parts .generator).length :=
      of_decide_eq_true (harranged.count_allows w.node.kind.nodup_layout _ hslot)
    obtain ⟨clause, rest, hparts⟩ := List.exists_cons_of_length_pos hcount
    have hclause : clause ∈ w.node.parts .generator := by simp [hparts]
    obtain ⟨u, hu, rfl, -, ⟨-, hm⟩ | ⟨hne, -⟩⟩ :=
      Node.exists_clause_meeting hroot f.tree.nodup_index hw hclause
    · have hr : u.node.role = .generator := by simpa using (List.mem_filter.1 hclause).2
      obtain ⟨isAsync, hku⟩ := Kind.eq_comprehension
        ((Node.part_cases hroot hn (Node.mem_children_of_mem_parts hclause)).1.1 hr)
      exact ⟨u, hu, by simp [Meeting.openings, hku, hm]⟩
    · exact absurd (by rw [hparts]; rfl) hne
  cases hk : w.node.kind
  case listComp | setComp | dictComp | generatorExp => exact comprehension (by simp [hk, Kind.isComprehension])
  case functionDef | lambda | classDef => exact ⟨w, hw, by simp [Meeting.openings, hk]⟩
  all_goals simp [hk, Kind.opensScope] at h

/-- The scopes that open in a file are that of the module and those of the constructs that open
one. -/
theorem opened_mem_eventsOf {n : Node} {kind : ScopeKind} {receiver : Option String}
    {ancestors : List Nat} : .opened n kind receiver ancestors ∈ eventsOf f ↔
      Event.opened n kind receiver ancestors = .opened f.tree.root .module none [] ∨
      ∃ w ∈ f.meetings, w.node.kind.opensScope = true ∧
        Event.opened n kind receiver ancestors = w.node.openedEvent w.place := by
  rw [mem_eventsOf hroot]
  refine or_congr_right ⟨?_, ?_⟩
  · rintro ⟨v, hv, h⟩
    rcases Meeting.mem_events.1 h with ⟨-, h⟩ | ⟨b, -, h⟩ | ⟨b, -, h⟩ | ⟨b, -, h⟩ | h | h
    case inr.inr.inr.inr.inl => exact opens_of_mem_openings hroot hv h
    case inr.inr.inr.inr.inr => rcases Meeting.remarks_cases h with ⟨_, _, h⟩ | ⟨_, _, h⟩ | ⟨_, _, h⟩ <;> cases h
    all_goals cases h
  · rintro ⟨w, hw, hk, he⟩
    obtain ⟨v, hv, h⟩ := exists_opening hroot hw hk
    exact ⟨v, hv, by simp [Meeting.events, he, h]⟩

/-- What a file says about nodes and names, it says where it meets a node. -/
theorem said_mem_eventsOf (hopened : ∀ n kind receiver ancestors, e ≠ .opened n kind receiver ancestors)
    (hglobal : ∀ s names, e ≠ .global s names) (hnonlocal : ∀ s names, e ≠ .nonlocal s names)
    (hstored : ∀ s a, e ≠ .stored s a) :
    e ∈ eventsOf f ↔ ∃ v ∈ f.meetings,
      (v.node.kind ≠ .arguments ∧ e = .belongs v.node.index v.place.here.id) ∨
      (∃ b ∈ v.bindings f.resolve, e = .bound v.place.here.id b) ∨
      (∃ b ∈ v.innerBindings, e = .bound v.node.index b) ∨
      (∃ b ∈ v.blockBindings, e = .bound v.place.nearestBlock.id b) := by
  rw [mem_eventsOf hroot, or_iff_right (hopened _ _ _ _)]
  refine exists_congr fun v => and_congr_right fun hv => ?_
  have hopenings : e ∉ v.openings := fun h => by
    obtain ⟨w, -, -, he⟩ := opens_of_mem_openings hroot hv h
    exact hopened _ _ _ _ he
  have hremarks : e ∉ v.remarks := fun h => by
    rcases Meeting.remarks_cases h with ⟨_, _, h⟩ | ⟨_, _, h⟩ | ⟨_, _, h⟩
    · exact hglobal _ _ h
    · exact hnonlocal _ _ h
    · exact hstored _ _ h
  rw [Meeting.mem_events, or_iff_left hremarks, or_iff_left hopenings]

theorem belongs_mem_eventsOf {i s : Nat} : .belongs i s ∈ eventsOf f ↔
    ∃ v ∈ f.meetings, v.node.kind ≠ .arguments ∧ i = v.node.index ∧ s = v.place.here.id := by
  rw [said_mem_eventsOf hroot (by simp) (by simp) (by simp) (by simp)]
  simp

theorem bound_mem_eventsOf {s : Nat} {b : Binding} : .bound s b ∈ eventsOf f ↔
    ∃ v ∈ f.meetings, (s = v.place.here.id ∧ b ∈ v.bindings f.resolve) ∨
      (s = v.node.index ∧ b ∈ v.innerBindings) ∨
      (s = v.place.nearestBlock.id ∧ b ∈ v.blockBindings) := by
  rw [said_mem_eventsOf hroot (by simp) (by simp) (by simp) (by simp)]
  simp [and_comm]

/-- Names are declared where a statement is met that does so. -/
theorem declared_mem_eventsOf {s : Nat} {names : List String} :
    (.global s names ∈ eventsOf f ↔
      ∃ v ∈ f.meetings, v.node.kind = .globalStmt names ∧ s = v.place.here.id) ∧
    (.nonlocal s names ∈ eventsOf f ↔
      ∃ v ∈ f.meetings, v.node.kind = .nonlocalStmt names ∧ s = v.place.here.id) := by
  have remarked : ∀ {e : Event}, (∀ n kind receiver ancestors, e ≠ .opened n kind receiver ancestors) →
      (∀ i s, e ≠ .belongs i s) → (∀ s b, e ≠ .bound s b) →
      (e ∈ eventsOf f ↔ ∃ v ∈ f.meetings, e ∈ v.remarks) := by
    intro e hopened hbelongs hbound
    rw [mem_eventsOf hroot, or_iff_right (hopened _ _ _ _)]
    refine exists_congr fun v => and_congr_right fun hv => ?_
    have hopenings : e ∉ v.openings := fun h => by
      obtain ⟨w, -, -, he⟩ := opens_of_mem_openings hroot hv h
      exact hopened _ _ _ _ he
    simp [Meeting.mem_events, hopenings, hbelongs, hbound]
  rw [remarked (by simp) (by simp) (by simp), remarked (by simp) (by simp) (by simp)]
  refine ⟨exists_congr fun v => and_congr_right fun hv => ⟨fun h => ?_, ?_⟩,
    exists_congr fun v => and_congr_right fun hv => ⟨fun h => ?_, ?_⟩⟩
  · rcases Meeting.remarks_cases h with ⟨_, hk, he⟩ | ⟨_, _, he⟩ | ⟨_, _, he⟩ <;> cases he
    exact ⟨hk, rfl⟩
  · rintro ⟨hk, rfl⟩
    simp [Meeting.remarks, hk]
  · rcases Meeting.remarks_cases h with ⟨_, _, he⟩ | ⟨_, hk, he⟩ | ⟨_, _, he⟩ <;> cases he
    exact ⟨hk, rfl⟩
  · rintro ⟨hk, rfl⟩
    simp [Meeting.remarks, hk]

/-! ### Homes -/

omit hroot in
/-- Where all events about a node name one scope, that is its home. -/
theorem getElem?_homes {events : List Event} {size i s : Nat} (hi : i < size)
    (h : .belongs i s ∈ events) (huniq : ∀ s', .belongs i s' ∈ events → s' = s) :
    (ofEvents size events).homes[i]? = some (some s) := by
  have fold : ∀ {record : Array (Option Nat) → Event → Array (Option Nat)},
      (∀ homes node scope, record homes (.belongs node scope) = homes.setIfInBounds node (some scope)) →
      (∀ homes e, (∀ node scope, e ≠ .belongs node scope) → record homes e = homes) →
      ∀ homes : Array (Option Nat), i < homes.size →
        (.belongs i s ∈ events ∨ homes[i]? = some (some s)) →
        (events.foldl record homes)[i]? = some (some s) := by
    intro record hbelongs hother
    clear h
    induction events with
    | nil => exact fun homes _ h => h.resolve_left (by simp)
    | cons e events ih =>
      intro homes hsize h
      have ih := ih fun s' hs' => huniq s' (by simp [hs'])
      rw [List.foldl_cons]
      cases e with
      | belongs node scope =>
        rw [hbelongs]
        refine ih _ (by simpa using hsize) ?_
        by_cases hnode : node = i
        · subst hnode
          obtain rfl := huniq scope (by simp)
          exact .inr (by simp [hsize])
        · rcases h with h | h
          · refine .inl ?_
            simpa [Ne.symm hnode] using h
          · exact .inr (by simp [hnode, h])
      | opened | bound | «global» | «nonlocal» | stored =>
        rw [hother _ _ (by simp)]
        exact ih homes hsize (h.imp_left fun h => by simpa using h)
  refine fold (fun _ _ _ => rfl) (fun homes e he => ?_) _ (by simpa using hi) (.inl h)
  split
  · next node scope => exact absurd rfl (he node scope)
  · rfl

theorem getElem?_homes_ofFile (hv : v ∈ f.meetings) (hk : v.node.kind ≠ .arguments) :
    (ofFile f).homes[v.node.index]? = some (some v.place.here.id) := by
  refine getElem?_homes ?_ ((belongs_mem_eventsOf hroot).2 ⟨v, hv, hk, rfl, rfl⟩) fun s hs => ?_
  · have hmem := List.mem_map_of_mem (f := Node.index) (Node.node_mem_preorder hv)
    rw [f.tree.numbered] at hmem
    rw [f.tree.size_root]
    exact List.mem_range.1 hmem
  · obtain ⟨w, hw, -, hindex, rfl⟩ := (belongs_mem_eventsOf hroot).1 hs
    have hnode := Tree.eq_of_index (Node.node_mem_preorder hv) (Node.node_mem_preorder hw) hindex
    rw [Node.meeting_eq f.tree.nodup_index hv hw hnode]

/-! ### Chains -/

/-- A scope of a file is that of the module, or it was opened by a construct as the walk met it. -/
theorem scope?_cases {s : Scope} (hs : s ∈ (ofFile f).scopes) :
    (s.node = f.tree.root ∧ s.ancestors = []) ∨ ∃ w ∈ f.meetings, w.node.kind.opensScope = true ∧
      Event.scope? (eventsOf f) (w.node.openedEvent w.place) = some s := by
  obtain ⟨e, he, hs⟩ := List.mem_filterMap.1 hs
  cases e with
  | opened node kind receiver ancestors =>
    rcases (opened_mem_eventsOf hroot).1 he with he | ⟨w, hw, hk, he⟩
    · cases hs
      cases he
      exact .inl ⟨rfl, rfl⟩
    · exact .inr ⟨w, hw, hk, he ▸ hs⟩
  | belongs | bound | «global» | «nonlocal» | stored => cases hs

theorem mem_scopes_cases {s : Scope} (hs : s ∈ (ofFile f).scopes) :
    (s.node = f.tree.root ∧ s.ancestors = []) ∨ ∃ w ∈ f.meetings, w.node.kind.opensScope = true ∧
      s.node = w.node ∧ s.ancestors = (w.place.here :: w.place.outer).map (·.id) := by
  refine (scope?_cases hroot hs).imp_right ?_
  rintro ⟨w, hw, hk, hscope⟩
  cases hscope
  exact ⟨w, hw, hk, rfl, by rw [Node.outer_inside hk]⟩

theorem exists_opened? {n : Node} (hn : n = f.tree.root ∨ n ∈ f.tree.nodes ∧ n.kind.opensScope = true) :
    ∃ s ∈ (ofFile f).scopes, (ofFile f).opened? n.index = some s ∧ s.node = n := by
  have hmem : n ∈ f.tree.nodes := hn.elim (fun h => h ▸ Node.mem_preorder_self _) (·.1)
  obtain ⟨kind, receiver, ancestors, he⟩ : ∃ kind receiver ancestors,
      .opened n kind receiver ancestors ∈ eventsOf f := by
    rcases hn with rfl | ⟨-, hk⟩
    · exact ⟨_, _, _, (opened_mem_eventsOf hroot).2 (.inl rfl)⟩
    · obtain ⟨w, hw, rfl⟩ := Node.exists_meeting hmem f.tree.root.filePlace .plain
      exact ⟨_, _, _, (opened_mem_eventsOf hroot).2 (.inr ⟨w, hw, hk, rfl⟩)⟩
  have hscope : (Event.scope? (eventsOf f) (.opened n kind receiver ancestors)).isSome = true := rfl
  obtain ⟨s, hs⟩ := Option.isSome_iff_exists.1 hscope
  have hsn : s.node = n := by cases hs; rfl
  cases hfind : (ofFile f).opened? n.index with
  | none =>
    rw [opened?, List.find?_eq_none] at hfind
    exact absurd (by simp [Scope.id, hsn]) (hfind s (List.mem_filterMap.2 ⟨_, he, hs⟩))
  | some u =>
    have hu := mem_scopes_of_opened? hfind
    have hid : u.node.index = n.index := by simpa [Scope.id] using List.find?_some hfind
    exact ⟨u, hu, rfl, Tree.eq_of_index (ofFile_within hu).node hmem hid⟩

variable {n : Node} {scopes : List Node}

theorem map_node_opened? (h : f.tree.root.BelongsTo n scopes) :
    ((scopes.map Node.index).filterMap (ofFile f).opened?).map (·.node) = scopes := by
  induction scopes generalizing n with
  | nil => rfl
  | cons s outer ih =>
    have hmem := h.scopes_mem_preorder s (by simp)
    obtain ⟨u, -, hu, rfl⟩ := exists_opened? hroot (n := s) (h.head.imp (·.1) fun h => ⟨hmem, h.1⟩)
    have hrest : ((outer.map Node.index).filterMap (ofFile f).opened?).map (·.node) = outer := by
      rcases h.head with ⟨-, rfl⟩ | ⟨-, hs⟩
      · rfl
      · exact ih hs
    rw [List.map_cons, List.filterMap_cons_some hu, List.map_cons, hrest]

theorem ancestors_eq {s : Scope} {outer : List Node} (hs : s ∈ (ofFile f).scopes)
    (h : f.tree.root.BelongsTo n (s.node :: outer)) : s.ancestors = outer.map Node.index := by
  have hmodule := Kind.eq_module hroot.category
  rcases mem_scopes_cases hroot hs with ⟨hnode, hnone⟩ | ⟨w, hw, hk, hnode, hancestors⟩
  · rcases h.head with ⟨-, rfl⟩ | ⟨hk, -⟩
    · exact hnone
    · rw [hnode, hmodule] at hk
      cases hk
  · rcases h.head with ⟨hsroot, -⟩ | ⟨-, hself⟩
    · rw [← hnode, hsroot, hmodule] at hk
      cases hk
    · obtain ⟨v, hv, hvn, hmatches⟩ := Node.exists_matching_meeting hroot f.tree.nodup_index hself
      obtain rfl := Node.meeting_eq f.tree.nodup_index hv hw (hvn.trans hnode)
      rw [hancestors]
      exact map_eq_map_of_forall₂ hmatches fun _ _ h => h.1

/-- The table gives a node the scopes that it belongs to. -/
theorem chainOf?_eq (hk : n.kind ≠ .arguments) (h : f.tree.root.BelongsTo n scopes) :
    ∃ chain, (ofFile f).chainOf? n.index = some chain ∧ chain.map (·.node) = scopes := by
  obtain ⟨v, hv, rfl, hmatches⟩ := Node.exists_matching_meeting hroot f.tree.nodup_index h
  have hhome := getElem?_homes_ofFile hroot hv hk
  cases hmatches with
  | @cons frame s frames outer hframe hrest =>
    have hmem := h.scopes_mem_preorder s (by simp)
    obtain ⟨u, hu, hopened, rfl⟩ := exists_opened? hroot (n := s) (h.head.imp (·.1) fun h => ⟨hmem, h.1⟩)
    refine ⟨(ofFile f).chain u, ?_, ?_⟩
    · rw [chainOf?, hhome]
      simp only [hframe.1, hopened, Option.map_some]
    · rw [chain, ancestors_eq hroot hu h, ← List.filterMap_cons_some hopened]
      exact map_node_opened? hroot h

/-! ### Bindings -/

variable {s : Scope} {x : String} {m : Node}

omit hroot in
theorem mem_bindings (hs : s ∈ (ofFile f).scopes) {b : Binding} :
    b ∈ s.bindings ↔ .bound s.id b ∈ eventsOf f := by
  obtain ⟨e, he, hs⟩ := List.mem_filterMap.1 hs
  cases e with
  | opened node kind receiver ancestors =>
    cases hs
    simp only [List.mem_filterMap, Scope.id]
    constructor
    · rintro ⟨e, he, hb⟩
      split at hb
      · next s b' =>
        split at hb
        · next hs =>
          cases hb
          rwa [← eq_of_beq hs]
        · cases hb
      · cases hb
    · intro h
      exact ⟨_, h, by simp⟩
  | belongs | bound | «global» | «nonlocal» | stored => cases hs

omit hroot in
/-- A walk takes the declared type of an assignment down to its target. -/
theorem role_of_manner (hv : v ∈ f.meetings) {value : Option Node} {h : Node}
    (hm : v.manner = .target value (some h)) : h.role = .hint := by
  revert value h
  refine Node.walk_induction (motive := fun v => ∀ {value : Option Node} {h : Node},
    v.manner = .target value (some h) → h.role = .hint) f.tree.root (by intro _ _ h; cases h)
    (fun v _ _ before c after _ value h hm => ?_) v hv
  change Node.mannerOf _ _ _ _ _ = _ at hm
  unfold Node.mannerOf at hm
  split at hm
  · cases hm
  · injection hm with _ hhint
    exact Node.role_of_part? hhint
  all_goals first
    | cases hm
    | (split at hm <;> cases hm)

/-- The declared type of a binding stands in the role of one. -/
theorem role_of_hint (hs : s ∈ (ofFile f).scopes) {b : Binding} (hb : b ∈ s.bindings) {h : Node}
    (hh : b.hint = some h) : h.role = .hint := by
  obtain ⟨v, hv, ⟨-, hb⟩ | ⟨-, hb⟩ | ⟨-, hb⟩⟩ := (bound_mem_eventsOf hroot).1 ((mem_bindings hs).1 hb)
  · unfold Meeting.bindings at hb
    split at hb
    case h_9 hm =>
      cases List.mem_singleton.1 hb
      subst hh
      exact role_of_manner hv hm
    case h_1 | h_2 =>
      cases List.mem_singleton.1 hb
      cases hh
    case h_3 | h_4 =>
      obtain ⟨a, -, hb⟩ := List.mem_filterMap.1 hb
      split at hb
      · cases hb
        cases hh
      · split at hb <;> cases hb
        cases hh
      · cases hb
    case h_5 | h_6 | h_7 | h_8 =>
      obtain ⟨x, -, rfl⟩ := List.mem_map.1 hb
      cases hh
    case h_10 => cases hb
  · unfold Meeting.innerBindings at hb
    split at hb
    · obtain ⟨a, -, rfl⟩ := List.mem_map.1 hb
      exact Node.role_of_part? hh
    · cases hb
  · unfold Meeting.blockBindings at hb
    split at hb
    · obtain ⟨t, -, hb⟩ := List.mem_filterMap.1 hb
      split at hb <;> cases hb
      cases hh
    · cases hb

omit hroot in
theorem exists_mem_aliasBindings_iff {n : Node} {resolve : Nat → String → String} :
    (∃ b ∈ n.aliasBindings resolve, b.name = x ∧ b.node = m) ↔
      m ∈ n.parts .importAlias ∧ ∃ name asName, m.kind = .importAlias name asName ∧
        ((n.kind = .importStmt ∧ x = asName.getD (firstPart name)) ∨
          ((∃ module level, n.kind = .importFrom module level) ∧ name ≠ "*" ∧ x = asName.getD name)) := by
  unfold Node.aliasBindings
  constructor
  · rintro ⟨b, hb, rfl, rfl⟩
    obtain ⟨a, ha, hb⟩ := List.mem_filterMap.1 hb
    split at hb
    · next name asName hn hk =>
      cases hb
      exact ⟨ha, name, asName, hk, .inl ⟨hn, Node.fst_importedName name asName⟩⟩
    · next module level name asName hn hk =>
      split at hb
      · cases hb
      · next hstar =>
        cases hb
        exact ⟨ha, name, asName, hk, .inr ⟨⟨module, level, hn⟩, by simpa using hstar, rfl⟩⟩
    · cases hb
  · rintro ⟨ha, name, asName, hk, ⟨hn, rfl⟩ | ⟨⟨module, level, hn⟩, hstar, rfl⟩⟩
    · refine ⟨_, List.mem_filterMap.2 ⟨m, ha, by rw [hn, hk]⟩, Node.fst_importedName name asName, rfl⟩
    · refine ⟨_, List.mem_filterMap.2 ⟨m, ha, by simp only [hn, hk]; rw [if_neg (by simpa using hstar)]⟩, rfl, rfl⟩

omit hroot in
/-- What a node binds around it is what the language says. -/
theorem exists_mem_bindings_iff (hv : v ∈ f.meetings) :
    (∃ b ∈ v.bindings f.resolve, b.name = x ∧ b.node = m) ↔
      f.tree.root.BindsAround v.node x m := by
  have htarget := Node.isTarget_iff f.tree.nodup_index hv
  constructor
  · -- An optional name is bound if it is there.
    have optional : ∀ {name : Option String}, (∃ b ∈ name.toList.map fun x =>
        (⟨x, .other, v.node, none, none, none⟩ : Binding), b.name = x ∧ b.node = m) →
        name = some x ∧ m = v.node := by
      rintro name ⟨b, hb, rfl, rfl⟩
      obtain ⟨y, hy, rfl⟩ := List.mem_map.1 hb
      exact ⟨Option.mem_toList.1 hy, rfl⟩
    intro h
    unfold Meeting.bindings at h
    split at h
    case h_1 hk =>
      obtain ⟨b, hb, rfl, rfl⟩ := h
      cases List.mem_singleton.1 hb
      exact .functionDef hk
    case h_2 hk =>
      obtain ⟨b, hb, rfl, rfl⟩ := h
      cases List.mem_singleton.1 hb
      exact .classDef hk
    case h_3 hk | h_4 hk =>
      obtain ⟨ha, name, asName, hka, ⟨hk, rfl⟩ | ⟨⟨module, level, hk⟩, hstar, rfl⟩⟩ :=
        exists_mem_aliasBindings_iff.1 h
      · exact .importModule hk ha hka
      · exact .importFrom hk ha hka hstar
    case h_5 hk =>
      obtain ⟨rfl, rfl⟩ := optional h
      exact .handler hk
    case h_6 hk =>
      obtain ⟨rfl, rfl⟩ := optional h
      exact .pattern (.inl hk)
    case h_7 hk =>
      obtain ⟨rfl, rfl⟩ := optional h
      exact .pattern (.inr (.inl hk))
    case h_8 hk =>
      obtain ⟨rfl, rfl⟩ := optional h
      exact .pattern (.inr (.inr hk))
    case h_9 hk hm =>
      obtain ⟨b, hb, rfl, rfl⟩ := h
      cases List.mem_singleton.1 hb
      exact .target (htarget.1 (by rw [hm]; rfl)) hk
    case h_10 =>
      obtain ⟨b, hb, -⟩ := h
      cases hb
  · rintro (⟨hk⟩ | ⟨hk⟩ | ⟨hk, ha, hka⟩ | ⟨hk, ha, hka, hstar⟩ | ⟨ht, hk⟩ | ⟨hk⟩ | hk)
    · exact ⟨⟨_, .functionDef, v.node, none, none, none⟩, by simp [Meeting.bindings, hk], rfl, rfl⟩
    · exact ⟨⟨_, .classDef, v.node, none, none, none⟩, by simp [Meeting.bindings, hk], rfl, rfl⟩
    · rw [Meeting.bindings, hk]
      exact exists_mem_aliasBindings_iff.2 ⟨ha, _, _, hka, .inl ⟨hk, rfl⟩⟩
    · rw [Meeting.bindings, hk]
      exact exists_mem_aliasBindings_iff.2 ⟨ha, _, _, hka, .inr ⟨⟨_, _, hk⟩, hstar, rfl⟩⟩
    · obtain ⟨value, hint, hm⟩ : ∃ value hint, v.manner = .target value hint := by
        have hm := htarget.2 ht
        cases hmanner : v.manner <;> simp_all [Manner.isTarget]
      exact ⟨⟨_, .assignment, v.node, value, none, hint⟩, by simp [Meeting.bindings, hk, hm], rfl, rfl⟩
    · exact ⟨⟨_, .other, v.node, none, none, none⟩, by simp [Meeting.bindings, hk], rfl, rfl⟩
    · refine ⟨⟨_, .other, v.node, none, none, none⟩, ?_, rfl, rfl⟩
      rcases hk with hk | hk | hk <;> simp [Meeting.bindings, hk]

/-- A node stands where it belongs. -/
theorem exists_scopes (hv : v ∈ f.meetings) :
    ∃ scopes, f.tree.root.BelongsTo v.node scopes ∧ v.place.Matches scopes := by
  obtain ⟨scopes, h⟩ := Node.exists_belongsTo hroot _ (Node.node_mem_preorder hv)
  obtain ⟨w, hw, hwn, hmatches⟩ := Node.exists_matching_meeting hroot f.tree.nodup_index h
  obtain rfl := Node.meeting_eq f.tree.nodup_index hv hw hwn.symm
  exact ⟨scopes, h, hmatches⟩

/-- The nearest scope that is no comprehension's. -/
theorem exists_nearestBlock {scopes : List Node} (h : f.tree.root.BelongsTo v.node scopes)
    (hmatches : v.place.Matches scopes) :
    ∃ s, scopes.find? (!·.kind.isComprehension) = some s ∧ v.place.nearestBlock.id = s.index := by
  have found : ∀ {frames : List Frame} {scopes : List Node},
      List.Forall₂ (fun f s => f.id = s.index ∧ s.kind.scopeKind? = some f.kind) frames scopes →
      ∀ s, scopes.find? (!·.kind.isComprehension) = some s →
        ∃ frame, frames.find? (·.kind != .comprehension) = some frame ∧ frame.id = s.index := by
    intro frames scopes hmatches s hs
    induction hmatches with
    | nil => cases hs
    | @cons frame t frames scopes hframe _ ih =>
      rw [List.find?_cons] at hs ⊢
      rw [bne, ← Kind.isComprehension_of_scopeKind? hframe.2]
      cases hc : t.kind.isComprehension with
      | true => simpa [hc] using ih (by simpa [hc] using hs)
      | false =>
        simp only [hc, Bool.not_false, Option.some.injEq] at hs
        subst hs
        exact ⟨frame, by simp, hframe.1⟩
  obtain ⟨s, hs⟩ : ∃ s, scopes.find? (!·.kind.isComprehension) = some s := by
    refine Option.isSome_iff_exists.1 (List.find?_isSome.2 ⟨_, h.root_mem, ?_⟩)
    rw [Kind.eq_module hroot.category]
    rfl
  obtain ⟨frame, hframe, hid⟩ := found hmatches s hs
  exact ⟨s, hs, by rw [Place.nearestBlock, hframe]; exact hid⟩

/-- A scope lists the places that bind a name in it. -/
theorem mem_bindingsOf (hs : s ∈ (ofFile f).scopes) :
    m ∈ (s.bindingsOf x).map (·.node) ↔ f.tree.root.Binds s.node x m := by
  have hsmem : s.node ∈ f.tree.nodes := (ofFile_within hs).node
  have hlist : m ∈ (s.bindingsOf x).map (·.node) ↔
      ∃ b, .bound s.id b ∈ eventsOf f ∧ b.name = x ∧ b.node = m := by
    simp only [Scope.bindingsOf, List.mem_map, List.mem_filter, beq_iff_eq, mem_bindings hs, and_assoc]
  simp only [hlist, bound_mem_eventsOf hroot]
  constructor
  · rintro ⟨b, ⟨v, hv, ⟨hid, hb⟩ | ⟨hid, hb⟩ | ⟨hid, hb⟩⟩, rfl, rfl⟩
    · obtain ⟨scopes, h, hmatches⟩ := exists_scopes hroot hv
      cases hmatches with
      | @cons _ t _ outer hframe _ =>
        obtain rfl : s.node = t :=
          Tree.eq_of_index hsmem (h.scopes_mem_preorder t (by simp)) (hid.trans hframe.1)
        exact .around h ((exists_mem_bindings_iff hv).1 ⟨b, hb, rfl, rfl⟩)
    · have hnode : s.node = v.node := Tree.eq_of_index hsmem (Node.node_mem_preorder hv) hid
      unfold Meeting.innerBindings at hb
      split at hb
      · next hk =>
        obtain ⟨a, ha, rfl⟩ := List.mem_map.1 hb
        rw [hnode]
        exact .parameter (Node.node_mem_preorder hv) hk ha
      · cases hb
    · obtain ⟨scopes, h, hmatches⟩ := exists_scopes hroot hv
      obtain ⟨t, hfind, ht⟩ := exists_nearestBlock hroot h hmatches
      obtain rfl : s.node = t := Tree.eq_of_index hsmem
        (h.scopes_mem_preorder t (List.mem_of_find?_eq_some hfind)) (hid.trans ht)
      unfold Meeting.blockBindings at hb
      split at hb
      · next hk =>
        obtain ⟨target, htarget, hb⟩ := List.mem_filterMap.1 hb
        split at hb
        · next id access hkt =>
          cases hb
          exact .named h hk htarget hkt hfind
        · cases hb
      · cases hb
  · rintro (⟨h, hb⟩ | ⟨hn, hk, ha⟩ | ⟨h, hk, ht, hkt, hfind⟩)
    · obtain ⟨v, hv, rfl, hmatches⟩ := Node.exists_matching_meeting hroot f.tree.nodup_index h
      obtain ⟨b, hb, hname, hnode⟩ := (exists_mem_bindings_iff hv).2 hb
      cases hmatches with
      | cons hframe _ => exact ⟨b, ⟨v, hv, .inl ⟨hframe.1.symm, hb⟩⟩, hname, hnode⟩
    · obtain ⟨v, hv, hvn⟩ := Node.exists_meeting hn f.tree.root.filePlace .plain
      refine ⟨⟨m.argName, .parameter, m, none, none, m.part? .hint⟩,
        ⟨v, hv, .inr (.inl ⟨by rw [hvn]; rfl, ?_⟩)⟩, rfl, rfl⟩
      rw [Meeting.innerBindings, hvn, if_pos hk]
      exact List.mem_map_of_mem ha
    · obtain ⟨v, hv, rfl, hmatches⟩ := Node.exists_matching_meeting hroot f.tree.nodup_index h
      obtain ⟨t, hfind', ht'⟩ := exists_nearestBlock hroot h hmatches
      obtain rfl := Option.some.inj (hfind.symm.trans hfind')
      refine ⟨⟨_, .assignment, m, v.node.part? .value, none, none⟩,
        ⟨v, hv, .inr (.inr ⟨ht'.symm, ?_⟩)⟩, rfl, rfl⟩
      rw [Meeting.blockBindings, hk]
      exact List.mem_filterMap.2 ⟨_, ht, by rw [hkt]⟩

/-! ### Declarations -/

/-- A name is declared in a scope where a statement is met that belongs to the scope. -/
theorem exists_meeting_iff_declares (hs : s ∈ (ofFile f).scopes) {statement : List String → Kind} :
    (∃ names, (∃ v ∈ f.meetings, v.node.kind = statement names ∧ s.id = v.place.here.id) ∧ x ∈ names) ↔
      f.tree.root.Declares s.node statement x := by
  constructor
  · rintro ⟨names, ⟨v, hv, hk, hid⟩, hx⟩
    obtain ⟨scopes, h, hmatches⟩ := exists_scopes hroot hv
    cases hmatches with
    | @cons _ t _ outer hframe _ =>
      obtain rfl : s.node = t := Tree.eq_of_index (ofFile_within hs).node
        (h.scopes_mem_preorder t (by simp)) (hid.trans hframe.1)
      exact ⟨v.node, outer, names, h, hk, hx⟩
  · rintro ⟨n, outer, names, h, hk, hx⟩
    obtain ⟨v, hv, rfl, hmatches⟩ := Node.exists_matching_meeting hroot f.tree.nodup_index h
    cases hmatches with
    | cons hframe _ => exact ⟨names, ⟨v, hv, hk, hframe.1.symm⟩, hx⟩

omit hroot in
theorem mem_declared (hs : s ∈ (ofFile f).scopes) :
    (x ∈ s.globals ↔ ∃ names, .global s.id names ∈ eventsOf f ∧ x ∈ names) ∧
      (x ∈ s.nonlocals ↔ ∃ names, .nonlocal s.id names ∈ eventsOf f ∧ x ∈ names) := by
  obtain ⟨e, -, hs⟩ := List.mem_filterMap.1 hs
  cases e with
  | opened node kind receiver ancestors =>
    cases hs
    simp only [List.mem_flatMap, Scope.id]
    refine ⟨⟨?_, fun ⟨names, h, hx⟩ => ⟨_, h, by simpa using hx⟩⟩,
      ⟨?_, fun ⟨names, h, hx⟩ => ⟨_, h, by simpa using hx⟩⟩⟩
    all_goals
      rintro ⟨e, he, hx⟩
      split at hx
      · split at hx
        · next hs => exact ⟨_, eq_of_beq hs ▸ he, hx⟩
        · cases hx
      · cases hx
  | belongs | bound | «global» | «nonlocal» | stored => cases hs

theorem mem_globals (hs : s ∈ (ofFile f).scopes) :
    x ∈ s.globals ↔ f.tree.root.Declares s.node .globalStmt x := by
  rw [(mem_declared hs).1, ← exists_meeting_iff_declares hroot hs]
  simp only [(declared_mem_eventsOf hroot).1]

theorem mem_nonlocals (hs : s ∈ (ofFile f).scopes) :
    x ∈ s.nonlocals ↔ f.tree.root.Declares s.node .nonlocalStmt x := by
  rw [(mem_declared hs).2, ← exists_meeting_iff_declares hroot hs]
  simp only [(declared_mem_eventsOf hroot).2]

end File

end ScopeTable

end EffectGraph
