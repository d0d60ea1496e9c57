/-
The scope table of a file is exact: every place in the text binds once.

The node where a name is bound tells which construct binds it (`BoundBy`), so
no two nodes of the walk bind at one place. With the scopes around every node
and the places that bind in every scope, this is the block structure of the
language (`ofFile_exact`).
-/
import EffectGraph.Proofs.Grammar.Statement
import EffectGraph.Proofs.Model.Files
import EffectGraph.Proofs.Scope.Table

namespace EffectGraph

namespace Node

variable {root n n' m : Node} {x : String}

/-- How the node where a name is bound stands to the construct that binds it: it is the construct
itself, an alias of an import, the target of `:=`, or a parameter. -/
inductive BoundBy (root n : Node) : Node → Prop
  | itself : n.kind.category ≠ .parameter → n.kind.category ≠ .importAlias →
    (n.kind.category = .expression → IsTarget root n) → BoundBy root n n
  | importAlias {m : Node} : m.kind.category = .importAlias → m ∈ n.children → BoundBy root n m
  | named {m : Node} : m.kind.category = .expression → n.kind = .namedExpr → m ∈ n.parts .target →
    BoundBy root n m
  | parameter {m signature : Node} : m.kind.category = .parameter → signature ∈ n.children →
    m ∈ signature.children → BoundBy root n m

theorem BindsAround.boundBy (h : BindsAround root n x m) : BoundBy root n m := by
  have hcat : ∀ {k : Kind}, n.kind = k → n.kind.category = k.category := fun h => by rw [h]
  rcases h with ⟨hk⟩ | ⟨hk⟩ | ⟨hk, ha, hka⟩ | ⟨hk, ha, hka, -⟩ | ⟨ht, hk⟩ | ⟨hk⟩ | hk | hk | hk
  case importModule | importFrom =>
    exact .importAlias (by rw [hka]; rfl) (mem_children_of_mem_parts ha)
  case target => exact .itself (by simp [hk, Kind.category]) (by simp [hk, Kind.category]) fun _ => ht
  all_goals exact .itself (by simp [hk, Kind.category]) (by simp [hk, Kind.category]) (by simp [hk, Kind.category])

/-- The target of `:=` is no target of another construct. -/
theorem not_isTarget_of_named (hnodup : (root.preorder.map index).Nodup) (hn : n ∈ root.preorder)
    (hk : n.kind = .namedExpr) (hm : m ∈ n.children) : ¬ IsTarget root m := by
  intro h
  have parent : ∀ {p : Node} {r : Role}, p ∈ root.preorder → m ∈ p.parts r → p = n :=
    fun hp hmp => parent_eq (mem_children_of_mem_parts hmp) hm root hnodup hp hn
  cases h with
  | target hp hkp hc => simp [parent hp hc, hk, Kind.bindsTargets] at hkp
  | captured hp hkp hc => simp [parent hp hc, hk] at hkp
  | element hp hkp hc => simp [parent hp.mem_preorder hc, hk] at hkp
  | starred hp hkp hc => simp [parent hp.mem_preorder hc, hk] at hkp

/-- A name is bound at a node by one construct only. -/
theorem BoundBy.unique (hnodup : (root.preorder.map index).Nodup) (hn : n ∈ root.preorder)
    (hn' : n' ∈ root.preorder) (h : BoundBy root n m) (h' : BoundBy root n' m) : n = n' := by
  cases h with
  | itself hparameter halias htarget =>
    cases h' with
    | itself => rfl
    | importAlias hk => exact absurd hk halias
    | named hcat hk hm =>
      exact absurd (htarget hcat) (not_isTarget_of_named hnodup hn' hk (mem_children_of_mem_parts hm))
    | parameter hk => exact absurd hk hparameter
  | importAlias hcat hm =>
    cases h' with
    | itself _ halias => exact absurd hcat halias
    | importAlias _ hm' => exact parent_eq hm hm' root hnodup hn hn'
    | named hcat' => rw [hcat] at hcat'; cases hcat'
    | parameter hcat' => rw [hcat] at hcat'; cases hcat'
  | named hcat hk hm =>
    cases h' with
    | itself _ _ htarget =>
      exact absurd (htarget hcat) (not_isTarget_of_named hnodup hn hk (mem_children_of_mem_parts hm))
    | importAlias hcat' => rw [hcat] at hcat'; cases hcat'
    | named _ _ hm' =>
      exact parent_eq (mem_children_of_mem_parts hm) (mem_children_of_mem_parts hm') root hnodup hn hn'
    | parameter hcat' => rw [hcat] at hcat'; cases hcat'
  | parameter hcat hs hm =>
    cases h' with
    | itself hparameter => exact absurd hcat hparameter
    | importAlias hcat' => rw [hcat] at hcat'; cases hcat'
    | named hcat' => rw [hcat] at hcat'; cases hcat'
    | parameter _ hs' hm' =>
      have below : ∀ {s n : Node}, s ∈ n.children → n ∈ root.preorder → s ∈ root.preorder :=
        fun hs hn => mem_preorder_trans (mem_preorder_child hs) root hn
      obtain rfl := parent_eq hm hm' root hnodup (below hs hn) (below hs' hn')
      exact parent_eq hs hs' root hnodup hn hn'

end Node

theorem Kind.signature_layout (k : Kind) : ∀ slot ∈ k.layout,
    slot.role = .signature → slot.category = .signature := by
  cases k <;> simp [layout]

theorem Kind.eq_arguments {k : Kind} (h : k.category = .signature) : k = .arguments := by
  cases k <;> simp_all [category]

namespace Node

variable {root n m : Node} {x : String}

/-- The parameters of a function are parts of its signature. -/
theorem exists_signature {a : Node} (hn : n.Is n.kind.category) (ha : a ∈ n.parameters) :
    ∃ signature ∈ n.children, a ∈ signature.children ∧ a.kind.category = .parameter := by
  unfold parameters at ha
  split at ha
  · cases ha
  · next s hs =>
    have hrole : s.role = .signature := by simpa using List.find?_some hs
    have hsn := mem_children_of_part? hs
    obtain ⟨slot, hslot, hr, hsIs⟩ := hn.arranged.exists_part s hsn
    rw [n.kind.signature_layout slot hslot (hr.symm.trans hrole)] at hsIs
    have hlayout := hsIs.arranged
    rw [Kind.eq_arguments hsIs.category] at hlayout
    have part : ∀ {r}, r ∈ [Role.posonly, .positional, .vararg, .kwonly, .kwarg] → a ∈ s.parts r →
        ∃ signature ∈ n.children, a ∈ signature.children ∧ a.kind.category = .parameter := by
      intro r hr ha
      have har : a.role = r := by simpa using (List.mem_filter.1 ha).2
      obtain ⟨slot, hslot, hslotRole, haIs⟩ := hlayout.exists_part a (mem_children_of_mem_parts ha)
      refine ⟨s, hsn, mem_children_of_mem_parts ha, haIs.category.trans ?_⟩
      rw [har] at hslotRole
      subst hslotRole
      simp only [Kind.layout, List.mem_cons, List.not_mem_nil, or_false] at hslot
      rcases hslot with rfl | rfl | rfl | rfl | rfl | rfl | rfl <;> simp at hr ⊢
    simp only [List.mem_append] at ha
    rcases ha with (((ha | ha) | ha) | ha) | ha <;> exact part (by simp) ha

/-- No parameter is listed twice. -/
theorem nodup_parameters (h : (n.preorder.map index).Nodup) : n.parameters.Nodup := by
  unfold parameters
  split
  · exact .nil
  · next s hs =>
    have hs := mem_children_of_part? hs
    have hchildren := children_nodup (nodup_of_mem_preorder n h (mem_preorder_child hs))
    have hroles : s.parts .posonly ++ s.parts .positional ++ s.parts .vararg ++ s.parts .kwonly
        ++ s.parts .kwarg = [.posonly, .positional, .vararg, .kwonly, .kwarg].flatMap s.parts := by
      simp
    rw [hroles, List.nodup_flatMap]
    refine ⟨fun r _ => hchildren.filter _, List.Pairwise.imp ?_ (R := (· ≠ ·)) (by decide)⟩
    intro r r' hne a ha ha'
    have hr : a.role = r := by simpa using (List.mem_filter.1 ha).2
    have hr' : a.role = r' := by simpa using (List.mem_filter.1 ha').2
    exact hne (hr.symm.trans hr')

end Node

namespace Meeting

/-- What a node binds, in whatever scope. -/
def allBindings (resolve : Nat → String → String) (v : Meeting) : List Binding :=
  v.bindings resolve ++ v.innerBindings ++ v.blockBindings

end Meeting

/-- The binding that an event makes. -/
def Event.bound? : Event → Option Binding
  | .bound _ b => some b
  | _ => none

namespace ScopeTable

variable {f : SourceFile} {v : Meeting} {s : Scope}

section File

variable (hroot : f.tree.root.Is .file)

include hroot

theorem boundBy_of_mem (hv : v ∈ f.meetings) {b : Binding} (hb : b ∈ v.allBindings f.resolve) :
    f.tree.root.BoundBy v.node b.node := by
  unfold Meeting.allBindings at hb
  rw [List.mem_append, List.mem_append] at hb
  rcases hb with (hb | hb) | hb
  · exact ((exists_mem_bindings_iff hv).1 ⟨b, hb, rfl, rfl⟩).boundBy
  · unfold Meeting.innerBindings at hb
    split at hb
    · obtain ⟨a, ha, rfl⟩ := List.mem_map.1 hb
      obtain ⟨signature, hs, has, hk⟩ := Node.exists_signature
        (hroot.of_mem_preorder _ (Node.node_mem_preorder hv)) ha
      exact .parameter hk hs has
    · cases hb
  · unfold Meeting.blockBindings at hb
    split at hb
    · next hk =>
      obtain ⟨t, ht, hb⟩ := List.mem_filterMap.1 hb
      split at hb
      · next hkt =>
        cases hb
        exact .named (by rw [hkt]; rfl) hk ht
      · cases hb
    · cases hb

omit hroot in
theorem map_node_filterMap_sublist {g : Node → Option Binding} (h : ∀ n b, g n = some b → b.node = n)
    (ns : List Node) : ((ns.filterMap g).map (·.node)).Sublist ns := by
  induction ns with
  | nil => exact .slnil
  | cons n ns ih =>
    cases hn : g n with
    | none =>
      rw [List.filterMap_cons_none hn]
      exact ih.cons _
    | some b =>
      rw [List.filterMap_cons_some hn, List.map_cons, h n b hn]
      exact ih.cons_cons _

omit hroot in
theorem filterMap_sublist {α β : Type} {g g' : α → Option β} (h : ∀ a b, g a = some b → g' a = some b)
    (xs : List α) : (xs.filterMap g).Sublist (xs.filterMap g') := by
  induction xs with
  | nil => exact .slnil
  | cons a xs ih =>
    cases ha : g a with
    | none =>
      rw [List.filterMap_cons_none ha]
      cases ha' : g' a with
      | none => rwa [List.filterMap_cons_none ha']
      | some b =>
        rw [List.filterMap_cons_some ha']
        exact ih.cons b
    | some b =>
      rw [List.filterMap_cons_some ha, List.filterMap_cons_some (h a b ha)]
      exact ih.cons_cons b

/-- A node binds at each place once. -/
theorem nodup_allBindings (hv : v ∈ f.meetings) :
    ((v.allBindings f.resolve).map (·.node)).Nodup := by
  have hn := Node.node_mem_preorder hv
  have hnodup := Node.nodup_of_mem_preorder _ f.tree.nodup_index hn
  have parts : ∀ r, (v.node.parts r).Nodup := fun r => (Node.children_nodup hnodup).filter _
  have params : v.node.parameterBindings.map (·.node) = v.node.parameters := by
    rw [Node.parameterBindings, List.map_map]
    exact List.map_id _
  have optional : ∀ name : Option String, ((name.toList.map fun x =>
      (⟨x, .other, v.node, none, none, none⟩ : Binding)).map (·.node)).Nodup := by
    intro name
    cases name <;> simp
  have aliases : ((v.node.aliasBindings f.resolve).map (·.node)).Nodup := by
    refine (map_node_filterMap_sublist (fun a b hb => ?_) _).nodup (parts .importAlias)
    split at hb
    · cases hb
      rfl
    · split at hb <;> cases hb
      rfl
    · cases hb
  have hself : v.node ∉ v.node.parameters := by
    intro hmem
    obtain ⟨signature, hs, hns, -⟩ := Node.exists_signature (hroot.of_mem_preorder _ hn) hmem
    exact Node.notMem_preorder_of_child hnodup hns (Node.mem_preorder_child hs)
  cases hk : v.node.kind <;> simp only [Meeting.allBindings, Meeting.bindings, Meeting.innerBindings,
    Meeting.blockBindings, hk, Kind.isFunction, if_true, if_false, Bool.false_eq_true, List.append_nil,
    List.nil_append, List.map_append, List.map_cons, List.map_nil, List.nodup_nil, params]
  case functionDef =>
    exact List.nodup_cons.2 ⟨hself, Node.nodup_parameters hnodup⟩
  case lambda => exact Node.nodup_parameters hnodup
  case classDef => exact List.nodup_singleton _
  case importStmt | importFrom => exact aliases
  case exceptHandler | matchAs | matchStar | matchMapping => exact optional _
  case name => cases v.manner <;> simp
  case namedExpr =>
    refine (map_node_filterMap_sublist (fun t b hb => ?_) _).nodup (parts .target)
    split at hb <;> cases hb
    rfl

theorem filterMap_bound?_eventsOf : ((eventsOf f).filterMap Event.bound?).Perm
    (f.meetings.flatMap (Meeting.allBindings f.resolve)) := by
  have own : ∀ v ∈ f.meetings, (v.events f.resolve).filterMap Event.bound? =
      v.allBindings f.resolve := by
    intro v hv
    have bound : ∀ (i : Nat) (bs : List Binding), (bs.map (Event.bound i)).filterMap Event.bound? = bs := by
      intro i bs
      rw [List.filterMap_map]
      exact List.filterMap_some
    have openings : v.openings.filterMap Event.bound? = [] := by
      refine List.filterMap_eq_nil_iff.2 fun e he => ?_
      obtain ⟨w, -, -, rfl⟩ := opens_of_mem_openings hroot hv he
      rfl
    have remarks : v.remarks.filterMap Event.bound? = [] := by
      refine List.filterMap_eq_nil_iff.2 fun e he => ?_
      rcases Meeting.remarks_cases he with ⟨_, _, rfl⟩ | ⟨_, _, rfl⟩ | ⟨_, _, rfl⟩ <;> rfl
    have belongs : (if v.node.kind = .arguments then [] else
        [Event.belongs v.node.index v.place.here.id]).filterMap Event.bound? = [] := by
      split <;> rfl
    simp only [Meeting.events, List.filterMap_append, bound, openings, remarks, belongs,
      List.append_nil, List.nil_append, Meeting.allBindings]
  refine ((eventsOf_perm hroot).filterMap _).trans (.of_eq ?_)
  rw [List.filterMap_cons_none rfl, List.filterMap_flatMap]
  exact List.flatMap_congr own

/-- No place in the text binds twice. -/
theorem nodup_bindings (hs : s ∈ (ofFile f).scopes) : (s.bindings.map (·.node)).Nodup := by
  have hall : (((eventsOf f).filterMap Event.bound?).map (·.node)).Nodup := by
    rw [((filterMap_bound?_eventsOf hroot).map _).nodup_iff, List.map_flatMap, List.nodup_flatMap]
    refine ⟨fun v hv => nodup_allBindings hroot hv, ?_⟩
    have hmeetings : f.meetings.Pairwise fun v w => v.node ≠ w.node := by
      have hnodup : (f.meetings.map (·.node.index)).Nodup := by
        have := f.tree.nodup_index
        rwa [← Node.map_node_walk f.tree.root f.tree.root.filePlace .plain, List.map_map] at this
      exact (List.pairwise_map.1 hnodup).imp fun h he => h (congrArg Node.index he)
    refine hmeetings.imp_of_mem fun {v w} hv hw hne m hmv hmw => ?_
    obtain ⟨b, hb, rfl⟩ := List.mem_map.1 hmv
    obtain ⟨b', hb', he⟩ := List.mem_map.1 hmw
    refine hne (Node.BoundBy.unique f.tree.nodup_index (Node.node_mem_preorder hv)
      (Node.node_mem_preorder hw) (boundBy_of_mem hroot hv hb) ?_)
    rw [← he]
    exact boundBy_of_mem hroot hw hb'
  refine List.Nodup.sublist ?_ hall
  obtain ⟨e, -, hs⟩ := List.mem_filterMap.1 hs
  cases e with
  | opened node kind receiver ancestors =>
    cases hs
    refine (filterMap_sublist (fun e b hb => ?_) _).map _
    split at hb
    · split at hb <;> cases hb
      rfl
    · cases hb
  | belongs | bound | «global» | «nonlocal» | stored => cases hs

end File

/-- The scope table of a file is its block structure: it gives every node but a whole signature the
scopes around it, it has a scope for the file and for every construct that opens one, and every
scope lists the places that bind a name in it, each once. -/
theorem ofFile_exact {t : ScopeTable} (ht : ofFile? f = some t) :
    (∀ n ∈ f.tree.nodes, n.kind ≠ .arguments → ∃ chain, t.chainOf? n.index = some chain ∧
      ∀ scopes, f.tree.root.BelongsTo n scopes ↔ scopes = chain.map (·.node)) ∧
    (∀ n ∈ f.tree.nodes, (∃ s ∈ t.scopes, s.node = n) ↔
      n = f.tree.root ∨ n.kind.opensScope = true) ∧
    ∀ s ∈ t.scopes, ∀ x, (∀ m, m ∈ (s.bindingsOf x).map (·.node) ↔ f.tree.root.Binds s.node x m) ∧
      ((s.bindingsOf x).map (·.node)).Nodup := by
  have hroot := f.tree.is_file
  obtain rfl : ofFile f = t := by
    unfold ofFile? at ht
    split at ht
    · cases ht
    · exact Option.some.inj ht
  refine ⟨fun n hn hk => ?_, fun n hn => ⟨?_, fun hopens => ?_⟩, fun s hs x => ⟨fun m => ?_, ?_⟩⟩
  · obtain ⟨scopes, hscopes⟩ := Node.exists_belongsTo hroot n hn
    obtain ⟨chain, hchain, rfl⟩ := chainOf?_eq hroot hk hscopes
    refine ⟨chain, hchain, fun scopes => ⟨fun hscopes' => ?_, fun he => he ▸ hscopes⟩⟩
    exact Node.BelongsTo.unique hroot f.tree.nodup_index hscopes' hscopes
  · rintro ⟨s, hs, rfl⟩
    rcases mem_scopes_cases hroot hs with ⟨he, -⟩ | ⟨w, -, hk, he, -⟩
    · exact .inl he
    · exact .inr (he ▸ hk)
  · obtain ⟨s, hs, -, he⟩ := exists_opened? hroot (hopens.imp_right fun hk => ⟨hn, hk⟩)
    exact ⟨s, hs, he⟩
  · exact mem_bindingsOf hroot hs
  · exact ((List.filter_sublist).map _).nodup (nodup_bindings hroot hs)

theorem ofFile_exact_sample : ∃ f t,
    SourceFile.ofText "m.py" "def f(a=b):\n    return [y := x for x in a]\n" [] = .ok f ∧
      ofFile? f = some t ∧
      t.scopes.map (fun s => s.bindings.map (·.name)) = [["f"], ["a", "y"], ["x"]] ∧
      ∀ s ∈ t.scopes, ∀ m, m ∈ (s.bindingsOf "y").map (·.node) ↔ f.tree.root.Binds s.node "y" m := by
  have heval : (SourceFile.ofText "m.py" "def f(a=b):\n    return [y := x for x in a]\n" []).toOption.map
      (fun f => (ofFile? f).map fun t => t.scopes.map fun s => s.bindings.map (·.name)) =
        some (some [["f"], ["a", "y"], ["x"]]) := by
    decide +kernel
  obtain ⟨f, h, ht⟩ := exists_ok_of_map_toOption heval
  obtain ⟨t, ht, hnames⟩ := Option.map_eq_some_iff.1 ht
  exact ⟨f, t, h, ht, hnames, fun s hs m => ((ofFile_exact ht).2.2 s hs "y").1 m⟩

end ScopeTable

end EffectGraph
