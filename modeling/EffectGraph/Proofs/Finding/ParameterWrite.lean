/-
Writes to the parameters of a function.

A function is said to mutate a parameter if its body writes to something that
starts at a name spelled like the parameter, or calls a method on it that
changes it. Unlike the receiver, the name has to belong to the function: a
search for it has to end at the function's own scope, or nowhere. A parameter
is bound in the scope of its function only, so the declarations of a name hold a
parameter of the function exactly if the name belongs to the function
(`isParameter_iff`).
-/
import EffectGraph.Proofs.Finding.ReceiverWrite
import EffectGraph.Proofs.Scope.Exact

namespace EffectGraph

/-! ## Messages -/

namespace Effect

/-- The parameter that an effect is on. -/
def parameter? : Effect → Option String
  | mutatesParameter name | mutatesParameterVia name _ => some name
  | _ => none

/-- No name holds the mark that messages put around it, so a message tells the name. -/
theorem eq_mutatesParameter_of_message {e : Effect} {x : String} (hx : '`' ∉ x.toList)
    (h : e.message = (mutatesParameter x).message) : e = .mutatesParameter x := by
  have hopening := opening_eq_of_message_eq h
  cases e with
  | mutatesParameter y =>
    change "Mutates parameter `" ++ y ++ "`" = "Mutates parameter `" ++ x ++ "`" at h
    have htext := congrArg String.toList h
    simp only [String.toList_append, List.append_cancel_left_eq, List.append_cancel_right_eq] at htext
    rw [String.toList_injective htext]
  | mutatesParameterVia y method =>
    change "Mutates parameter `" ++ y ++ "` via `" ++ method ++ "()`" = "Mutates parameter `" ++ x ++ "`" at h
    have htext := congrArg String.toList h
    have hend : "()`".toList = "()".toList ++ "`".toList := rfl
    simp only [String.toList_append, List.append_assoc, List.append_cancel_left_eq, hend] at htext
    simp only [← List.append_assoc, List.append_cancel_right_eq] at htext
    rw [← htext] at hx
    simp at hx
  | _ => simp [opening] at hopening

theorem eq_mutatesParameterVia_of_message {e : Effect} {x method : String} (hx : '`' ∉ x.toList)
    (he : ∀ y ∈ e.parameter?, '`' ∉ y.toList)
    (h : e.message = (mutatesParameterVia x method).message) : e = .mutatesParameterVia x method := by
  have hopening := opening_eq_of_message_eq h
  cases e with
  | mutatesParameter y => exact (eq_mutatesParameter_of_message (he y rfl) h.symm).symm
  | mutatesParameterVia y method' =>
    change "Mutates parameter `" ++ y ++ "` via `" ++ method' ++ "()`" =
      "Mutates parameter `" ++ x ++ "` via `" ++ method ++ "()`" at h
    have htext := congrArg String.toList h
    have hmark : "` via `".toList = '`' :: " via `".toList := rfl
    simp only [String.toList_append, List.append_cancel_right_eq, hmark] at htext
    simp only [List.append_assoc, List.append_cancel_left_eq, List.cons_append] at htext
    obtain ⟨hname, hmethod⟩ := split_first htext (he y rfl) hx
    rw [String.toList_injective hname, String.toList_injective (List.append_cancel_left hmethod)]
  | _ => simp [opening] at hopening

end Effect

theorem Node.backtick_notMem_argName (n : Node) : '`' ∉ n.argName.toList := by
  unfold argName
  split
  · next name _ _ => exact name.notMem_text (by decide)
  · simp

/-! ## Targets -/

namespace Node

/-- A construct writes to a target. -/
inductive WritesTo (n : Node) : Node → Prop
  | target {t : Node} : n.kind = .assign ∨ n.kind = .augAssign ∨ n.kind = .deleteStmt ∨
    (∃ isAsync, n.kind = .forLoop isAsync) → t ∈ n.parts .target → WritesTo n t
  | annotated {t value : Node} : n.kind = .annAssign → value ∈ n.parts .value → t ∈ n.parts .target →
    WritesTo n t
  | captured {t : Node} : n.kind = .withItem → t ∈ n.parts .captured → WritesTo n t

/-- A target is taken apart into single ones: tuples, lists and stars are opened. -/
inductive HasSingle : Node → Node → Prop
  | itself {t : Node} : t.kind ≠ .tuple → t.kind ≠ .list → t.kind ≠ .starred → HasSingle t t
  | element {t c single : Node} : t.kind = .tuple ∨ t.kind = .list → c ∈ t.parts .element →
    HasSingle c single → HasSingle t single
  | starred {t c single : Node} : t.kind = .starred → c ∈ t.parts .value → HasSingle c single →
    HasSingle t single

/-- An expression starts at a name: it is the name, or a member, an item or the star of what starts
there. -/
inductive StartsAt : Node → Node → Prop
  | name {n : Node} {id : Identifier} {access : Access} : n.kind = .name id access → StartsAt n n
  | chain {n c root : Node} : (∃ name access, n.kind = .member name access) ∨ n.kind = .subscript ∨
    n.kind = .starred → c ∈ n.parts .value → StartsAt c root → StartsAt n root

/-- A construct writes to a target with a component that starts at a name. -/
def WritesAt (n root : Node) : Prop :=
  ∃ target single, n.WritesTo target ∧ target.HasSingle single ∧ single.StartsAt root

/-- A method is called on what starts at a name. -/
def CallsOn (n : Node) (method : String) (root : Node) : Prop :=
  n.kind = .call ∧ ∃ func value, n.part? .func = some func ∧
    (∃ name access, func.kind = .member name access ∧ name.text = method) ∧
    func.part? .value = some value ∧ value.StartsAt root

theorem mem_writtenTargets_iff {n t : Node} : t ∈ n.writtenTargets ↔ n.WritesTo t := by
  have hvalue : (n.part? .value).isSome = true ↔ ∃ value, value ∈ n.parts .value := by
    simp [part?, parts]
  constructor
  · intro h
    unfold writtenTargets at h
    split at h
    case h_5 hk =>
      split at h
      · next hsome =>
        obtain ⟨value, hvalue⟩ := hvalue.1 hsome
        exact .annotated hk hvalue h
      · cases h
    case h_6 hk => exact .captured hk h
    case h_7 => cases h
    all_goals
      next hk => exact .target (by simp [hk]) h
  · intro h
    unfold writtenTargets
    cases h with
    | target hk ht => rcases hk with hk | hk | hk | ⟨isAsync, hk⟩ <;> simpa [hk] using ht
    | annotated hk hv ht => simpa [hk, hvalue.2 ⟨_, hv⟩] using ht
    | captured hk ht => simpa [hk] using ht

theorem mem_singleTargets_iff {single : Node} :
    ∀ t : Node, t.Is t.kind.category → (single ∈ t.singleTargets ↔ t.HasSingle single) := by
  refine induction fun t ih ht => ?_
  have part : ∀ c ∈ t.children, c.Is c.kind.category := fun c hc =>
    ht.of_mem_preorder t (mem_preorder_child hc)
  have sequence : t.kind.layout = [Slot.many .element .expression] → t.parts .element = t.children :=
    fun hlayout => List.filter_eq_self.2 fun c hc => by
      have harranged := ht.arranged
      rw [hlayout] at harranged
      simp [(harranged.of_single c hc).1]
  have star : t.kind = .starred → t.parts .value = t.children := fun hk =>
    List.filter_eq_self.2 fun c hc => by
      have harranged := ht.arranged
      rw [hk] at harranged
      simp [(harranged.of_single c hc).1]
  rw [singleTargets_eq]
  constructor
  · intro h
    split at h
    case h_1 hk | h_2 hk =>
      obtain ⟨c, hc, h⟩ := List.mem_flatMap.1 h
      have hc' : c ∈ t.parts .element := by rwa [sequence (by rw [hk]; rfl)]
      exact .element (by simp [hk]) hc' ((ih c hc (part c hc)).1 h)
    case h_3 hk =>
      obtain ⟨c, hc, h⟩ := List.mem_flatMap.1 h
      have hc' : c ∈ t.parts .value := by rwa [star hk]
      exact .starred hk hc' ((ih c hc (part c hc)).1 h)
    case h_4 htuple hlist hstarred =>
      obtain rfl := List.mem_singleton.1 h
      exact .itself htuple hlist hstarred
  · intro h
    cases h with
    | itself htuple hlist hstarred =>
      split
      · exact absurd ‹_› htuple
      · exact absurd ‹_› hlist
      · exact absurd ‹_› hstarred
      · exact List.mem_singleton_self _
    | @element _ c _ hk hc h =>
      have hc' := mem_children_of_mem_parts hc
      rcases hk with hk | hk <;> rw [hk] <;>
        exact List.mem_flatMap.2 ⟨c, hc', (ih c hc' (part c hc')).2 h⟩
    | @starred _ c _ hk hc h =>
      have hc' := mem_children_of_mem_parts hc
      rw [hk]
      exact List.mem_flatMap.2 ⟨c, hc', (ih c hc' (part c hc')).2 h⟩

theorem rootName?_eq_some_iff {root : Node} :
    ∀ n : Node, n.Is n.kind.category → (n.rootName? = some root ↔ n.StartsAt root) := by
  refine induction fun n ih hn => ?_
  -- The expression that a chain goes on from is its first part.
  have first : (∃ name access, n.kind = .member name access) ∨ n.kind = .subscript ∨ n.kind = .starred →
      ∀ c, c ∈ n.parts .value ↔ n.children.head? = some c := by
    intro hk c
    have harranged := hn.arranged
    rcases hk with ⟨name, access, hk⟩ | hk | hk <;> rw [hk] at harranged <;>
      exact harranged.mem_filter_iff_head? (by simp)
  have further : (∃ name access, n.kind = .member name access) ∨ n.kind = .subscript ∨ n.kind = .starred →
      (n.children.head?.bind rootName? = some root ↔ n.StartsAt root) := by
    intro hk
    rw [Option.bind_eq_some_iff]
    constructor
    · rintro ⟨c, hc, h⟩
      have hmem := List.mem_of_head? hc
      have hpart := hn.of_mem_preorder n (mem_preorder_child hmem)
      exact .chain hk ((first hk c).2 hc) ((ih c hmem hpart).1 h)
    · intro h
      cases h with
      | name hk' => simp [hk'] at hk
      | @chain _ c _ _ hc h =>
        have hmem := mem_children_of_mem_parts hc
        have hpart := hn.of_mem_preorder n (mem_preorder_child hmem)
        exact ⟨c, (first hk c).1 hc, (ih c hmem hpart).2 h⟩
  rw [rootName?_eq]
  split
  case h_1 hk => exact further (.inl ⟨_, _, hk⟩)
  case h_2 hk => exact further (.inr (.inl hk))
  case h_3 hk => exact further (.inr (.inr hk))
  case h_4 hk =>
    constructor
    · rintro ⟨⟩
      exact .name hk
    · intro h
      cases h with
      | name => rfl
      | chain hk' => simp [hk] at hk'
  case h_5 hmember hsubscript hstarred hname =>
    refine iff_of_false (by simp) fun h => ?_
    cases h with
    | name hk => exact hname _ _ hk
    | chain hk =>
      rcases hk with ⟨name, access, hk⟩ | hk | hk
      · exact hmember _ _ hk
      · exact hsubscript hk
      · exact hstarred hk

theorem WritesTo.mem_children {n t : Node} (h : n.WritesTo t) : t ∈ n.children := by
  cases h with
  | target _ ht | annotated _ _ ht | captured _ ht => exact mem_children_of_mem_parts ht

theorem HasSingle.mem_preorder {t single : Node} (h : t.HasSingle single) : single ∈ t.preorder := by
  induction h with
  | itself => exact mem_preorder_self _
  | element _ hc _ ih | starred _ hc _ ih => exact mem_preorder_of_child (mem_children_of_mem_parts hc) ih

theorem StartsAt.mem_preorder {n root : Node} (h : n.StartsAt root) : root ∈ n.preorder := by
  induction h with
  | name => exact mem_preorder_self _
  | chain _ hc _ ih => exact mem_preorder_of_child (mem_children_of_mem_parts hc) ih

theorem WritesAt.mem_bodyNodes {n m root : Node} (h : m.WritesAt root) (hm : m ∈ n.bodyNodes) :
    root ∈ n.bodyNodes := by
  obtain ⟨target, single, ht, hsingle, hroot⟩ := h
  have htarget := mem_bodyNodes_of_mem_preorder hm (mem_preorder_child ht.mem_children)
  exact mem_bodyNodes_of_mem_preorder (mem_bodyNodes_of_mem_preorder htarget hsingle.mem_preorder)
    hroot.mem_preorder

theorem CallsOn.mem_bodyNodes {n m root : Node} {method : String} (h : m.CallsOn method root)
    (hm : m ∈ n.bodyNodes) : root ∈ n.bodyNodes := by
  obtain ⟨-, func, value, hfunc, -, hvalue, hroot⟩ := h
  have hfunc := mem_bodyNodes_of_mem_preorder hm (mem_preorder_child (mem_children_of_part? hfunc))
  have hvalue := mem_bodyNodes_of_mem_preorder hfunc (mem_preorder_child (mem_children_of_part? hvalue))
  exact mem_bodyNodes_of_mem_preorder hvalue hroot.mem_preorder

theorem mem_writtenSingles_iff {n single : Node} (hn : n.Is n.kind.category) :
    single ∈ n.writtenTargets.flatMap singleTargets ↔ ∃ target, n.WritesTo target ∧ target.HasSingle single := by
  rw [List.mem_flatMap]
  refine exists_congr fun target => ?_
  rw [mem_writtenTargets_iff]
  refine and_congr_right fun ht => ?_
  exact mem_singleTargets_iff target (hn.of_mem_preorder n (mem_preorder_child ht.mem_children))

/-- The leftmost names of the single targets are those that the body writes at. -/
theorem exists_bodyTargets_iff {n root : Node} (hn : ∀ m ∈ n.bodyNodes, m.Is m.kind.category) :
    (∃ t ∈ n.bodyTargets, t.rootName? = some root) ↔ ∃ m ∈ n.bodyNodes, m.WritesAt root := by
  have inBody : ∀ {m target single : Node}, m ∈ n.bodyNodes → m.WritesTo target → target.HasSingle single →
      single ∈ n.bodyNodes := fun hm ht hsingle =>
    mem_bodyNodes_of_mem_preorder hm (mem_preorder_of_child ht.mem_children hsingle.mem_preorder)
  constructor
  · rintro ⟨single, hsingle, hroot⟩
    obtain ⟨m, hm, hsingle⟩ := List.mem_flatMap.1 hsingle
    obtain ⟨target, ht, hsingle⟩ := (mem_writtenSingles_iff (hn m hm)).1 hsingle
    have hsingleIs := hn single (inBody hm ht hsingle)
    exact ⟨m, hm, target, single, ht, hsingle, (rootName?_eq_some_iff single hsingleIs).1 hroot⟩
  · rintro ⟨m, hm, target, single, ht, hsingle, hroot⟩
    have hsingleIs := hn single (inBody hm ht hsingle)
    refine ⟨single, List.mem_flatMap.2 ⟨m, hm, ?_⟩, (rootName?_eq_some_iff single hsingleIs).2 hroot⟩
    exact (mem_writtenSingles_iff (hn m hm)).2 ⟨target, ht, hsingle⟩

/-! ## Where a parameter is bound -/

/-- A parameter is bound in the scope of its function only. -/
theorem eq_of_binds_parameter {root s n a : Node} {x : String} (hroot : root.Is .file)
    (hnodup : (root.preorder.map index).Nodup) (hn : n ∈ root.preorder) (ha : a ∈ n.parameters)
    (h : Binds root s x a) : s = n := by
  obtain ⟨signature, hsignature, has, hcat⟩ := exists_signature (hroot.of_mem_preorder root hn) ha
  have below : ∀ {m c : Node}, m ∈ root.preorder → c ∈ m.children → c ∈ root.preorder := fun hm hc =>
    mem_preorder_trans (mem_preorder_child hc) root hm
  cases h with
  | around _ hbinds =>
    cases hbinds with
    | functionDef hk | classDef hk | handler hk => simp [hk, Kind.category] at hcat
    | importModule _ _ hk | importFrom _ _ hk => simp [hk, Kind.category] at hcat
    | target _ hk => simp [hk, Kind.category] at hcat
    | pattern hk => rcases hk with hk | hk | hk <;> simp [hk, Kind.category] at hcat
  | named _ _ _ hk => simp [hk, Kind.category] at hcat
  | parameter hs _ ha' =>
    obtain ⟨signature', hsignature', has', -⟩ := exists_signature (hroot.of_mem_preorder root hs) ha'
    obtain rfl := parent_eq has has' root hnodup (below hn hsignature) (below hs hsignature')
    exact parent_eq hsignature' hsignature root hnodup hs hn

end Node

/-- The places that declare a name of a scope: those that bind it, or else the construct that opens
the scope. -/
def Scope.declaring (s : Scope) (x : String) : List Node :=
  if (s.bindingsOf x).isEmpty then [s.node] else (s.bindingsOf x).map (·.node)

theorem Scope.Within.declaring {S : Node → Prop} {s : Scope} (hs : s.Within S) {x : String} {d : Node}
    (hd : d ∈ s.declaring x) : S d := by
  unfold Scope.declaring at hd
  split at hd
  · rw [List.mem_singleton.1 hd]
    exact hs.node
  · obtain ⟨b, hb, rfl⟩ := List.mem_map.1 hd
    exact (hs.bindings b (List.mem_filter.1 hb).1).node

theorem Scope.mem_declaring_of_mem_bindingsOf {s : Scope} {x : String} {d : Node}
    (h : d ∈ (s.bindingsOf x).map (·.node)) : d ∈ s.declaring x := by
  unfold Scope.declaring
  split
  · next hnone =>
    rw [List.isEmpty_iff.1 hnone] at h
    cases h
  · exact h

theorem Chain.ne_nil_of_lookupBy {x : String} {c : Chain} :
    ∀ {reach : Reach} {chain : Chain}, lookupBy x reach chain = some c → c ≠ []
  | _, s :: outer, h => by
    rw [lookupBy] at h
    split at h
    · cases h
    split at h
    · exact ne_nil_of_lookupBy h
    split at h
    · cases h
      simp [outermost]
    split at h
    · exact ne_nil_of_lookupBy h
    split at h
    · cases h
      simp
    · exact ne_nil_of_lookupBy h

namespace Project

variable {P : Project} {f : Function} {ignore : List String} {x : String}

theorem symbol?_eq (P : Project) (file node : Nat) (x : String) :
    P.symbol? file node x = (P.ownerOf? file node x).map fun owner =>
      ⟨x, (owner.declaring x).map (⟨file, ·⟩), owner.bindingsOf x⟩ := by
  unfold symbol? ownerOf? Scope.declaring
  split
  · next h => rw [h, Option.map_none]
  · next owner h => rw [h, Option.map_some]

theorem mem_scopes_of_ownerOf? {file : ScopedFile} {i node : Nat} {owner : Scope}
    (hfile : P.file? i = some file) (h : P.ownerOf? i node x = some owner) :
    owner ∈ file.scopes.scopes := by
  obtain ⟨found, hfound, howner⟩ := Option.bind_eq_some_iff.1 h
  obtain ⟨chain, hchain, hlookup⟩ := Option.bind_eq_some_iff.1 hfound
  have hmem := Chain.mem_of_lookup hlookup _ (List.mem_of_head? howner)
  simp only [chainOf?, hfile] at hchain
  exact ScopeTable.mem_scopes_of_chainOf? hchain _ hmem

/-- A search for a name from the scope of a node ends at the scope of the function itself, or
nowhere. -/
def EndsAtOwn (P : Project) (f : Function) (node : Nat) (x : String) : Prop :=
  ∃ chain, P.chainOf? f.file node = some chain ∧
    (chain.lookup x = none ∨ ∃ own outer, chain.lookup x = some (own :: outer) ∧ own.node = f.node)

/-- Where the scope of a node is known, the end of a search is told by the scope that the name
belongs to. -/
theorem endsAtOwn_iff {node : Nat} {chain : Chain} (hchain : P.chainOf? f.file node = some chain) :
    P.EndsAtOwn f node x ↔ ∀ owner, P.ownerOf? f.file node x = some owner → owner.node = f.node := by
  have howner : P.ownerOf? f.file node x = (chain.lookup x).bind List.head? := by
    rw [ownerOf?, hchain, Option.bind_some]
  simp only [EndsAtOwn, hchain, Option.some.injEq, exists_eq_left', howner]
  cases hlookup : chain.lookup x with
  | none => simp
  | some found =>
    cases found with
    | nil => exact absurd rfl (Chain.ne_nil_of_lookupBy hlookup)
    | cons own outer => simp

theorem mem_ownParameters {b : Node} :
    b ∈ ownParameters f ↔ b ∈ f.node.parameters ∧ f.receiver ≠ some b.argName := by
  rw [ownParameters, List.mem_filter, bne_iff_ne, ne_comm]

/-- A name means a parameter if one is spelled like it and is among what declares the name. -/
theorem isParameter_name_iff {root : Node} {id : Identifier} {access : Access}
    (hkind : root.kind = .name id access) :
    P.isParameter f root = true ↔ (∃ b ∈ ownParameters f, b.argName = id.text) ∧
      ∀ owner, P.ownerOf? f.file root.index id = some owner →
        ∃ d ∈ owner.declaring id, ∃ b ∈ ownParameters f, b.index = d.index := by
  unfold isParameter
  simp only [hkind, symbol?_eq, Bool.and_eq_true, List.any_eq_true, beq_iff_eq]
  refine and_congr_right fun _ => ?_
  cases P.ownerOf? f.file root.index id with
  | none => simp
  | some owner => simp

/-- A name in the body that is spelled like a parameter means the parameter exactly if a search for
it ends at the function itself, or nowhere. -/
theorem isParameter_iff (h : P.WasRead) (hf : f ∈ P.functions ignore) {a root : Node} {id : Identifier}
    {access : Access} (ha : a ∈ f.node.parameters) (hr : f.receiver ≠ some a.argName)
    (hbody : root ∈ f.node.bodyNodes) (hkind : root.kind = .name id access) (hid : id.text = a.argName) :
    P.isParameter f root = true ↔ P.EndsAtOwn f root.index a.argName := by
  obtain ⟨file, own, scopes, hfile, hopened, hnode, hroot, hscopes, -⟩ :=
    exists_scope_of_mem_functions h hf
  obtain ⟨htable, -, -⟩ := h.sources.2 hfile
  have hown : own ∈ (ScopeTable.ofFile file.source).scopes :=
    ScopeTable.mem_scopes_of_opened? (htable ▸ hopened)
  have hfunction := isFunction_of_mem hf
  have hfnode : f.node ∈ file.source.tree.root.preorder := mem_nodes_of_mem_functions hf hfile
  obtain ⟨inner, outer, hchain, -⟩ := ScopeTable.exists_chain_of_mem_bodyNodes hroot hown
    (hnode ▸ hfunction) (hnode ▸ hscopes) (hnode ▸ hbody) (by simp [hkind])
  have hchain : P.chainOf? f.file root.index = some (inner ++ own :: outer) := by
    simp only [chainOf?, hfile, htable, hchain]
  rw [endsAtOwn_iff hchain, isParameter_name_iff hkind, hid,
    and_iff_right ⟨a, mem_ownParameters.2 ⟨ha, hr⟩, rfl⟩]
  refine forall_congr' fun owner => forall_congr' fun howner => ?_
  have hscope : owner ∈ (ScopeTable.ofFile file.source).scopes :=
    htable ▸ mem_scopes_of_ownerOf? hfile howner
  constructor
  · rintro ⟨d, hd, b, hb, hindex⟩
    obtain ⟨hb, -⟩ := mem_ownParameters.1 hb
    have hbmem := Node.mem_preorder_trans (Node.mem_preorder_parameters hb) _ hfnode
    obtain rfl : b = d := Tree.eq_of_index hbmem ((ScopeTable.ofFile_within hscope).declaring hd) hindex
    unfold Scope.declaring at hd
    split at hd
    · -- What opens a scope is no parameter.
      obtain ⟨-, -, -, hcat⟩ := Node.exists_signature (hroot.of_mem_preorder _ hfnode) hb
      have hkind := ScopeTable.scopeKind?_node hroot hscope
      rw [← List.mem_singleton.1 hd] at hkind
      cases hk : b.kind <;> simp [hk, Kind.category, Kind.scopeKind?] at hcat hkind
    · rw [ScopeTable.mem_bindingsOf hroot hscope] at hd
      exact Node.eq_of_binds_parameter hroot file.source.tree.nodup_index hfnode hb hd
  · intro hself
    obtain ⟨hbound, -⟩ := ScopeTable.mem_bindingsOf_parameter hroot hscope (hself ▸ hfunction) (hself ▸ ha)
    exact ⟨a, Scope.mem_declaring_of_mem_bindingsOf hbound, a, mem_ownParameters.2 ⟨ha, hr⟩, rfl⟩

/-! ## Effects -/

theorem parameters_of_mem (hf : f ∈ P.functions ignore) :
    f.parameters = f.node.parameters.map (·.argName) := by
  obtain ⟨i, file, -, -, found, -, rfl⟩ := mem_functions.1 hf
  rfl

theorem is_of_mem_bodyNodes (h : P.WasRead) (hf : f ∈ P.functions ignore) :
    ∀ m ∈ f.node.bodyNodes, m.Is m.kind.category := by
  intro m hm
  obtain ⟨file, hfile, -, hnode⟩ := file_of_mem_functions hf
  obtain ⟨-, hroot, -⟩ := h.sources.2 hfile
  exact hroot.of_mem_preorder _ (Node.mem_preorder_trans (Node.mem_preorder_of_mem_bodyNodes hm) _ hnode)

/-- A name at a node is spelled `x` and belongs to the function, or to no scope at all. -/
def IsOwnName (P : Project) (f : Function) (root : Node) (x : String) : Prop :=
  (∃ id access, root.kind = .name id access ∧ id.text = x) ∧ P.EndsAtOwn f root.index x

theorem mutatesParameter_mem_writeEffects {t : Node} :
    .mutatesParameter x ∈ P.writeEffects f t ↔ ∃ root, t.rootName? = some root ∧
      (∃ id access, root.kind = .name id access ∧ id.text = x) ∧ P.isParameter f root = true := by
  constructor
  · intro h
    rcases writeEffects_cases h with ⟨root, id, access, hroot, hkind, hparameter, he⟩ | ⟨_, _, -, he⟩ |
      ⟨_, _, _, _, _, _, -, -, -, -, he⟩
    · cases he
      exact ⟨root, hroot, ⟨id, access, hkind, rfl⟩, hparameter⟩
    · cases eq_of_mem_nameWriteEffects he
    · cases he
  · rintro ⟨root, hroot, ⟨id, access, hkind, rfl⟩, hparameter⟩
    unfold writeEffects
    refine List.mem_append_left _ ?_
    simp [hroot, hkind, hparameter]

theorem via_notMem_writeEffects {t : Node} {method : String} :
    .mutatesParameterVia x method ∉ P.writeEffects f t := by
  intro h
  rcases writeEffects_cases h with ⟨_, _, _, -, -, -, he⟩ | ⟨_, _, -, he⟩ | ⟨_, _, _, _, _, _, -, -, -, -, he⟩
  · cases he
  · cases eq_of_mem_nameWriteEffects he
  · cases he

theorem mutatesParameterVia_mem_methodEffects {func : Node} {method : String} :
    .mutatesParameterVia x method ∈ P.methodEffects f func ↔ method ∈ Library.mutatingMethods ∧
      ∃ value root, (∃ name access, func.kind = .member name access ∧ name.text = method) ∧
        func.part? .value = some value ∧ value.rootName? = some root ∧
        (∃ id access, root.kind = .name id access ∧ id.text = x) ∧ P.isParameter f root = true := by
  unfold methodEffects
  constructor
  · intro h
    split at h
    · next name access root hfunc hroot =>
      obtain ⟨value, hvalue, hroot⟩ := Option.bind_eq_some_iff.1 hroot
      split at h
      · next id access' hkind =>
        split at h
        · next hgiven =>
          cases List.mem_singleton.1 h
          rw [Bool.and_eq_true, List.contains_iff_mem] at hgiven
          exact ⟨hgiven.1, value, root, ⟨name, access, hfunc, rfl⟩, hvalue, hroot, ⟨id, access', hkind, rfl⟩,
            hgiven.2⟩
        · cases h
      · cases h
    · cases h
  · rintro ⟨hmethod, value, root, ⟨name, access, hfunc, rfl⟩, hvalue, hroot, ⟨id, access', hkind, rfl⟩,
      hparameter⟩
    simp [hfunc, hvalue, hroot, hkind, hmethod, hparameter]

section Walk

variable {effects : List Effect} (heffects : P.effects f = .ok effects)
  (hcut : (collectFindings (P.effectWalk f)).2 ≠ some .tooDeep)
  (hwell : ∀ m ∈ f.node.bodyNodes, m.Is m.kind.category)

include heffects hcut hwell

theorem mutatesParameter_mem_effects :
    .mutatesParameter x ∈ effects ↔ ∃ root, (∃ n ∈ f.node.bodyNodes, n.WritesAt root) ∧
      (∃ id access, root.kind = .name id access ∧ id.text = x) ∧ P.isParameter f root = true := by
  simp only [mem_effects_iff (e := .mutatesParameter x) heffects hcut rfl,
    mutatesParameter_mem_writeEffects, ← Node.exists_bodyTargets_iff hwell]
  constructor
  · rintro ⟨n, hn, ⟨t, ht, root, hroot, hown⟩ | ⟨func, -, -, he⟩ | ⟨m, y, -, he⟩⟩
    · exact ⟨root, ⟨t, List.mem_flatMap.2 ⟨n, hn, ht⟩, hroot⟩, hown⟩
    · obtain ⟨_, _, he⟩ := exists_of_mem_methodEffects he
      cases he
    · cases eq_of_mem_nameWriteEffects he
  · rintro ⟨root, ⟨t, ht, hroot⟩, hown⟩
    obtain ⟨n, hn, ht⟩ := List.mem_flatMap.1 ht
    exact ⟨n, hn, .inl ⟨t, ht, root, hroot, hown⟩⟩

theorem mutatesParameterVia_mem_effects {method : String} :
    .mutatesParameterVia x method ∈ effects ↔ method ∈ Library.mutatingMethods ∧
      ∃ root, (∃ n ∈ f.node.bodyNodes, n.CallsOn method root) ∧
        (∃ id access, root.kind = .name id access ∧ id.text = x) ∧ P.isParameter f root = true := by
  simp only [mem_effects_iff (e := .mutatesParameterVia x method) heffects hcut rfl,
    mutatesParameterVia_mem_methodEffects]
  have part : ∀ {n func value : Node}, n ∈ f.node.bodyNodes → n.part? .func = some func →
      func.part? .value = some value → value.Is value.kind.category := fun hn hfunc hvalue =>
    hwell _ (Node.mem_bodyNodes_of_mem_preorder (Node.mem_bodyNodes_of_mem_preorder hn
      (Node.mem_preorder_child (Node.mem_children_of_part? hfunc)))
      (Node.mem_preorder_child (Node.mem_children_of_part? hvalue)))
  constructor
  · rintro ⟨n, hn, ⟨t, -, he⟩ | ⟨func, hk, hfunc, hmethod, value, root, hname, hvalue, hroot, hown⟩ |
      ⟨m, y, -, he⟩⟩
    · exact absurd he via_notMem_writeEffects
    · have hstart := (Node.rootName?_eq_some_iff value (part hn hfunc hvalue)).1 hroot
      exact ⟨hmethod, root, ⟨n, hn, hk, func, value, hfunc, hname, hvalue, hstart⟩, hown⟩
    · cases eq_of_mem_nameWriteEffects he
  · rintro ⟨hmethod, root, ⟨n, hn, hk, func, value, hfunc, hname, hvalue, hstart⟩, hown⟩
    have hroot := (Node.rootName?_eq_some_iff value (part hn hfunc hvalue)).2 hstart
    exact ⟨n, hn, .inr (.inl ⟨func, hk, hfunc, hmethod, value, root, hname, hvalue, hroot, hown⟩)⟩

/-- The parameter that a function is said to mutate is an identifier. -/
theorem backtick_notMem_parameter {e : Effect} (he : e ∈ effects) :
    ∀ y ∈ e.parameter?, '`' ∉ y.toList := by
  intro y hy
  cases e with
  | mutatesParameter x =>
    obtain rfl := Option.some.inj hy
    obtain ⟨root, -, ⟨id, access, -, rfl⟩, -⟩ := (mutatesParameter_mem_effects heffects hcut hwell).1 he
    exact id.notMem_text (by decide)
  | mutatesParameterVia x method =>
    obtain rfl := Option.some.inj hy
    obtain ⟨-, root, -, ⟨id, access, -, rfl⟩, -⟩ :=
      (mutatesParameterVia_mem_effects heffects hcut hwell).1 he
    exact id.notMem_text (by decide)
  | _ => cases hy

end Walk

/-- **Writes to parameters.** A walk that comes to its end tells that a parameter other than the
receiver is mutated exactly if a construct of the body writes to a target that, taken apart, has a
component that starts at the parameter's name, where the name belongs to the function or to no scope
at all. It tells that a method mutates the parameter exactly if the body calls a method that changes
what it is called on, on something that starts at such a name. -/
theorem parameter_writes (h : P.WasRead) (hf : f ∈ P.functions ignore) (hx : x ∈ f.parameters)
    (hr : f.receiver ≠ some x) {result : PurityResult} (hresult : P.localPurity f = .ok result)
    (hcut : (collectFindings (P.effectWalk f)).2 ≠ some .tooDeep) :
    (s!"Mutates parameter `{x}`" ∈ result.reasons ↔
      ∃ root, (∃ n ∈ f.node.bodyNodes, n.WritesAt root) ∧ P.IsOwnName f root x) ∧
    ∀ method, (s!"Mutates parameter `{x}` via `{method}()`" ∈ result.reasons ↔
      method ∈ Library.mutatingMethods ∧
        ∃ root, (∃ n ∈ f.node.bodyNodes, n.CallsOn method root) ∧ P.IsOwnName f root x) := by
  obtain ⟨effects, heffects, hresult⟩ := Analysis.bind_eq_ok.1 hresult
  cases hresult
  rw [parameters_of_mem hf] at hx
  obtain ⟨a, ha, rfl⟩ := List.mem_map.1 hx
  have hwell := is_of_mem_bodyNodes h hf
  have hbacktick := a.backtick_notMem_argName
  have own : ∀ {root : Node}, root ∈ f.node.bodyNodes →
      ((∃ id access, root.kind = .name id access ∧ id.text = a.argName) ∧ P.isParameter f root = true ↔
        P.IsOwnName f root a.argName) := by
    intro root hroot
    refine and_congr_right ?_
    rintro ⟨id, access, hkind, hid⟩
    exact isParameter_iff h hf ha hr hroot hkind hid
  simp only [List.mem_eraseDups, List.mem_map]
  constructor
  · have hmessage : (∃ e ∈ effects, e.message = s!"Mutates parameter `{a.argName}`") ↔
        .mutatesParameter a.argName ∈ effects := by
      constructor
      · rintro ⟨e, he, hmessage⟩
        exact Effect.eq_mutatesParameter_of_message hbacktick hmessage ▸ he
      · exact fun he => ⟨_, he, rfl⟩
    rw [hmessage, mutatesParameter_mem_effects heffects hcut hwell]
    refine exists_congr fun root => and_congr_right ?_
    rintro ⟨n, hn, hwrites⟩
    exact own (hwrites.mem_bodyNodes hn)
  · intro method
    have hmessage : (∃ e ∈ effects, e.message = s!"Mutates parameter `{a.argName}` via `{method}()`") ↔
        .mutatesParameterVia a.argName method ∈ effects := by
      constructor
      · rintro ⟨e, he, hmessage⟩
        have hname := backtick_notMem_parameter heffects hcut hwell he
        exact Effect.eq_mutatesParameterVia_of_message hbacktick hname hmessage ▸ he
      · exact fun he => ⟨_, he, rfl⟩
    rw [hmessage, mutatesParameterVia_mem_effects heffects hcut hwell]
    refine and_congr_right fun _ => exists_congr fun root => and_congr_right ?_
    rintro ⟨n, hn, hcalls⟩
    exact own (hcalls.mem_bodyNodes hn)

/-- A function with a nested one that writes to a parameter of the outer function and to one of its
own, which is spelled like another of the outer function's. -/
def parameterTexts : List (String × String) :=
  [("m.py", "def f(a, b, c):\n    def g(b):\n        (a.x[0], *b.y) = c\n    c.z.append(1)\n")]

theorem parameter_writes_nested :
    ∃ P f result, ofTexts parameterTexts [] = .ok P ∧ f ∈ P.functions [] ∧ f.id = "m.py:0:f" ∧
      P.localPurity f = .ok result ∧
      result.reasons = ["Mutates parameter `a`", "Mutates parameter `c` via `append()`"] ∧
      (∃ root, (∃ n ∈ f.node.bodyNodes, n.WritesAt root) ∧ P.IsOwnName f root "a") ∧
      (¬ ∃ root, (∃ n ∈ f.node.bodyNodes, n.WritesAt root) ∧ P.IsOwnName f root "b") ∧
      ∃ root, (∃ n ∈ f.node.bodyNodes, n.CallsOn "append" root) ∧ P.IsOwnName f root "c" := by
  have heval : (ofTexts parameterTexts []).toOption.map walked =
      some [⟨"m.py:0:f", ["a", "b", "c"], none,
          some ["Mutates parameter `a`", "Mutates parameter `c` via `append()`"], true⟩,
        ⟨"m.py:20:g", ["b"], none, some ["Mutates parameter `b`"], true⟩] := by
    decide +kernel
  obtain ⟨P, hP, hwalked⟩ := exists_ok_of_map_toOption heval
  obtain ⟨f, hf, hid, hparameters, hreceiver, result, hresult, hreasons, hend⟩ :=
    exists_of_mem_walked (hwalked ▸ List.mem_cons_self)
  have of_mem := fun {x : String} (hx : x ∈ ["a", "b", "c"]) =>
    parameter_writes (.inl ⟨_, _, hP⟩) hf (hparameters ▸ hx) (by simp [hreceiver]) hresult hend
  refine ⟨P, f, result, hP, hf, hid, hresult, hreasons, (of_mem (x := "a") (by simp)).1.1 ?_, fun hb => ?_,
    ((of_mem (x := "c") (by simp)).2 "append").1 ?_ |>.2⟩
  · rw [hreasons]
    decide
  · have hmem := (of_mem (x := "b") (by simp)).1.2 hb
    rw [hreasons] at hmem
    revert hmem
    decide
  · rw [hreasons]
    decide

end Project

end EffectGraph
