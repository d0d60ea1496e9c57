/-
Writes through the receiver of a method.

That a method mutates its receiver is told from the name alone: a target counts
if its leftmost name is that of the receiver. Where the name belongs is not
asked. The body of a method lies inside its scope, so a search for the name
comes to the method, which binds it, unless a function, class or comprehension
further inside binds the name too or the name is declared global on the way
(`lookupBy_of_function`). In these cases a write to something else is put down
to the receiver.
-/
import EffectGraph.Proofs.Finding.EffectStep
import EffectGraph.Proofs.Scope.Lookup
import EffectGraph.Proofs.Scope.Receiver

namespace EffectGraph

/-! ## Messages -/

namespace Effect

/-- A message tells that the receiver is mutated, and where the receiver is known, which member. -/
theorem eq_mutatesReceiver_of_message {e : Effect} {r path : String}
    (h : e.message = (mutatesReceiver r path).message) :
    ∃ r' path', e = .mutatesReceiver r' path' ∧ (r' = r → path' = path) := by
  have hopening := opening_eq_of_message_eq h
  cases e with
  | mutatesReceiver r' path' =>
    refine ⟨r', path', rfl, fun hr => ?_⟩
    subst hr
    change "Mutates `" ++ r' ++ "." ++ path' ++ "`" = "Mutates `" ++ r' ++ "." ++ path ++ "`" at h
    have htext := congrArg String.toList h
    simp only [String.toList_append, List.append_cancel_left_eq, List.append_cancel_right_eq] at htext
    exact String.toList_injective htext
  | mutatesParameter | mutatesParameterVia | writesOuterScope | accessesGlobal | accessesEnvironment
  | writesConsole | callsNondeterministic | readsCurrentTime | swallowsError => simp [opening] at hopening

end Effect

/-! ## Targets -/

namespace Node

theorem rootName?_eq (n : Node) : n.rootName? = match n.kind with
    | .member .. | .subscript | .starred => n.children.head?.bind rootName?
    | .name .. => some n
    | _ => none := by
  cases n with
  | mk i r k s cs =>
    have hfirst : rootNameOfFirst cs = cs.head?.bind rootName? := by cases cs <;> simp [rootNameOfFirst]
    cases k <;> simp [rootName?, kind, children, hfirst]

theorem memberPath?_eq (n : Node) : n.memberPath? = match n.kind with
    | .member name _ => (n.children.head?.bind memberPath?).map (· ++ [name.text])
    | .subscript => n.children.head?.bind memberPath?
    | .name id _ => some [id.text]
    | _ => none := by
  cases n with
  | mk i r k s cs =>
    have hfirst : memberPathOfFirst cs = cs.head?.bind memberPath? := by
      cases cs <;> simp [memberPathOfFirst]
    cases k <;> simp [memberPath?, kind, children, hfirst]

theorem singleTargets_eq (n : Node) : n.singleTargets = match n.kind with
    | .tuple | .list | .starred => n.children.flatMap singleTargets
    | _ => [n] := by
  cases n with
  | mk i r k s cs =>
    have hall : singleTargetsAll cs = cs.flatMap singleTargets := by
      induction cs with
      | nil => simp [singleTargetsAll]
      | cons c cs ih => rw [singleTargetsAll, ih, List.flatMap_cons]
    cases k <;> simp [singleTargets, kind, children, hall]

theorem mem_preorder_of_rootName? {root : Node} :
    ∀ n : Node, n.rootName? = some root → root ∈ n.preorder := by
  refine induction fun n ih h => ?_
  rw [rootName?_eq] at h
  split at h
  case h_4 =>
    cases h
    exact mem_preorder_self _
  case h_5 => cases h
  all_goals
    obtain ⟨c, hc, h⟩ := Option.bind_eq_some_iff.1 h
    exact mem_preorder_of_child (List.mem_of_head? hc) (ih c (List.mem_of_head? hc) h)

/-- The names of a chain of members start with the leftmost one. -/
theorem memberPath?_of_rootName? {root : Node} {id : Identifier} {access : Access}
    (hroot : root.kind = .name id access) : ∀ (n : Node) {path : List String}, n.rootName? = some root →
      n.memberPath? = some path → ∃ rest, path = id.text :: rest := by
  refine induction fun n ih path h hpath => ?_
  rw [rootName?_eq] at h
  rw [memberPath?_eq] at hpath
  cases hk : n.kind with
  | member name access =>
    simp only [hk] at h hpath
    obtain ⟨c, hc, h⟩ := Option.bind_eq_some_iff.1 h
    rw [hc, Option.bind_some] at hpath
    obtain ⟨before, hbefore, rfl⟩ := Option.map_eq_some_iff.1 hpath
    obtain ⟨rest, rfl⟩ := ih c (List.mem_of_head? hc) h hbefore
    exact ⟨rest ++ [name.text], rfl⟩
  | subscript =>
    simp only [hk] at h hpath
    obtain ⟨c, hc, h⟩ := Option.bind_eq_some_iff.1 h
    rw [hc, Option.bind_some] at hpath
    exact ih c (List.mem_of_head? hc) h hpath
  | name id' access' =>
    simp only [hk, Option.some.injEq] at h hpath
    subst h
    cases hroot.symm.trans hk
    exact ⟨[], hpath.symm⟩
  | _ => simp [hk] at hpath

theorem mem_preorder_of_mem_singleTargets {t : Node} :
    ∀ n : Node, t ∈ n.singleTargets → t ∈ n.preorder := by
  refine induction fun n ih h => ?_
  rw [singleTargets_eq] at h
  split at h
  case h_4 =>
    rw [List.mem_singleton.1 h]
    exact mem_preorder_self _
  all_goals
    obtain ⟨c, hc, h⟩ := List.mem_flatMap.1 h
    exact mem_preorder_of_child hc (ih c hc h)

theorem mem_children_of_mem_writtenTargets {n t : Node} (h : t ∈ n.writtenTargets) : t ∈ n.children := by
  unfold writtenTargets at h
  split at h
  case h_5 =>
    split at h
    · exact mem_children_of_mem_parts h
    · cases h
  case h_7 => cases h
  all_goals exact mem_children_of_mem_parts h

/-- The single targets that the body of a function writes to, nested functions included. -/
def bodyTargets (n : Node) : List Node :=
  n.bodyNodes.flatMap fun m => m.writtenTargets.flatMap singleTargets

/-- A target is a chain that starts at the name `x`, which stands at `root`, and goes on with the
members that make up the path. -/
def IsMemberOf (t : Node) (x path : String) (root : Node) : Prop :=
  t.rootName? = some root ∧ (∃ id access, root.kind = .name id access ∧ id.text = x) ∧
    ∃ attr rest, t.memberPath? = some (x :: attr :: rest) ∧ path = ".".intercalate (attr :: rest)

theorem mem_bodyNodes_of_rootName? {n t root : Node} (ht : t ∈ n.bodyTargets)
    (h : t.rootName? = some root) : root ∈ n.bodyNodes := by
  obtain ⟨m, hm, ht⟩ := List.mem_flatMap.1 ht
  obtain ⟨w, hw, ht⟩ := List.mem_flatMap.1 ht
  obtain ⟨b, hb, hm⟩ := List.mem_flatMap.1 hm
  refine List.mem_flatMap.2 ⟨b, hb, mem_preorder_trans ?_ b hm⟩
  have hwm := mem_preorder_child (mem_children_of_mem_writtenTargets hw)
  exact mem_preorder_trans (mem_preorder_trans (mem_preorder_of_rootName? t h) w
    (mem_preorder_of_mem_singleTargets w ht)) m hwm

end Node

namespace Project

variable {P : Project} {f : Function} {e : Effect} {r path : String}

/-! ## Effects -/

theorem mutatesReceiver_mem_writeEffects {t : Node} :
    .mutatesReceiver r path ∈ P.writeEffects f t ↔
      f.receiver = some r ∧ ∃ root, t.IsMemberOf r path root := by
  constructor
  · intro h
    rcases writeEffects_cases h with ⟨_, _, _, -, -, -, he⟩ | ⟨_, _, -, he⟩ |
      ⟨root, id, access, receiver, attr, rest, hroot, hkind, hreceiver, hpath, he⟩
    · cases he
    · cases eq_of_mem_nameWriteEffects he
    · cases he
      obtain ⟨_, hfirst⟩ := Node.memberPath?_of_rootName? hkind t hroot hpath
      obtain ⟨rfl, -⟩ := List.cons.inj hfirst
      exact ⟨hreceiver, root, hroot, ⟨id, access, hkind, rfl⟩, attr, rest, hpath, rfl⟩
  · rintro ⟨hreceiver, root, hroot, ⟨id, access, hkind, rfl⟩, attr, rest, hpath, rfl⟩
    unfold writeEffects
    refine List.mem_append_right _ ?_
    split
    · next id' access' hname =>
      -- A name alone has no members.
      simp [Node.memberPath?_eq, hname] at hpath
    · next id' access' receiver attr' rest' hkind' hpath' _ =>
      rw [hroot, Option.map_some, hkind] at hkind'
      rw [hpath] at hpath'
      cases hkind'
      cases hpath'
      simp [hreceiver]
    · next hne _ hnot =>
      rw [hroot, Option.map_some, hkind] at hnot
      exact absurd hpath (hnot _ _ _ _ _ rfl)

/-- Only the targets of a node show that it mutates the receiver. -/
theorem mutatesReceiver_mem_effectSteps {n : Node} :
    (∃ found, .ok found ∈ P.effectSteps f n ∧ .mutatesReceiver r path ∈ found) ↔
      ∃ t ∈ n.writtenTargets.flatMap Node.singleTargets, .mutatesReceiver r path ∈ P.writeEffects f t := by
  rw [mem_effectSteps_iff rfl]
  refine or_iff_left ?_
  rintro (⟨func, -, -, he⟩ | ⟨m, x, -, he⟩)
  · obtain ⟨_, _, he⟩ := exists_of_mem_methodEffects he
    cases he
  · cases eq_of_mem_nameWriteEffects he

/-- A function is said to mutate its receiver exactly if its body writes to a member of the name, as
long as the walk over the body is not cut off. -/
theorem mutates_mem_reasons (hr : f.receiver = some r) {result : PurityResult}
    (hresult : P.localPurity f = .ok result) :
    ((Effect.mutatesReceiver r path).message ∈ result.reasons →
      ∃ t ∈ f.node.bodyTargets, ∃ root, t.IsMemberOf r path root) ∧
    ((collectFindings (P.effectWalk f)).2 ≠ some .tooDeep →
      (∃ t ∈ f.node.bodyTargets, ∃ root, t.IsMemberOf r path root) →
      (Effect.mutatesReceiver r path).message ∈ result.reasons) := by
  obtain ⟨effects, heffects, hresult⟩ := Analysis.bind_eq_ok.1 hresult
  cases hresult
  simp only [List.mem_eraseDups, List.mem_map]
  constructor
  · rintro ⟨e, he, hmessage⟩
    obtain ⟨r', path', rfl, hpath⟩ := Effect.eq_mutatesReceiver_of_message hmessage
    obtain ⟨found, hfound, he⟩ := mem_findingsOf heffects he
    obtain ⟨n, hn, hfound⟩ := List.mem_flatMap.1 hfound
    obtain ⟨t, ht, he⟩ := mutatesReceiver_mem_effectSteps.1 ⟨found, hfound, he⟩
    obtain ⟨hr', root, hmember⟩ := mutatesReceiver_mem_writeEffects.1 he
    obtain rfl : r' = r := Option.some.inj (hr'.symm.trans hr)
    obtain rfl := hpath rfl
    exact ⟨t, List.mem_flatMap.2 ⟨n, hn, ht⟩, root, hmember⟩
  · rintro hcut ⟨t, ht, root, hmember⟩
    obtain ⟨n, hn, ht⟩ := List.mem_flatMap.1 ht
    have he : .mutatesReceiver r path ∈ P.writeEffects f t :=
      mutatesReceiver_mem_writeEffects.2 ⟨hr, root, hmember⟩
    obtain ⟨found, hfound, he⟩ := mutatesReceiver_mem_effectSteps.2 ⟨t, ht, he⟩
    exact ⟨_, mem_of_not_cut heffects hcut (List.mem_flatMap.2 ⟨n, hn, hfound⟩) he, rfl⟩

end Project

/-! ## Where the name belongs -/

theorem Node.exists_firstPositional {n : Node} {inClass : Bool} {r : String}
    (h : n.receiverName inClass = some r) :
    ∃ a, n.firstPositional? = some a ∧ a.argName = r ∧ a ∈ n.parameters := by
  unfold receiverName at h
  split at h
  · cases h
  split at h
  · cases h
  split at h
  · cases h
  · next s hs =>
    obtain ⟨a, ha, rfl⟩ := Option.map_eq_some_iff.1 h
    refine ⟨a, by rw [firstPositional?, hs]; exact ha, rfl, ?_⟩
    have hmem := List.mem_of_head? ha
    rw [parameters, hs]
    simp only [List.mem_append] at hmem ⊢
    exact .inl (.inl (.inl hmem))

namespace ScopeTable

section File

variable {f : SourceFile} (hroot : f.tree.root.Is .file) {s u : Scope}

include hroot

theorem kind_eq_function (hs : s ∈ (ofFile f).scopes) (hk : s.node.kind.isFunction = true) :
    s.kind = .function := by
  have hscope := scopeKind?_node hroot hs
  cases hkind : s.node.kind <;> simp_all [Kind.isFunction, Kind.scopeKind?]

/-- The scope of a function binds its parameters. -/
theorem mem_bindingsOf_parameter (hs : s ∈ (ofFile f).scopes) (hk : s.node.kind.isFunction = true)
    {a : Node} (ha : a ∈ s.node.parameters) :
    a ∈ (s.bindingsOf a.argName).map (·.node) ∧ s.binds a.argName = true := by
  have hmem : a ∈ (s.bindingsOf a.argName).map (·.node) :=
    (mem_bindingsOf hroot hs).2 (.parameter (ofFile_within hs).node hk ha)
  obtain ⟨b, hb, -⟩ := List.mem_map.1 hmem
  obtain ⟨hb, hname⟩ := List.mem_filter.1 hb
  exact ⟨hmem, List.any_eq_true.2 ⟨b, hb, hname⟩⟩

/-- Only the outermost scope of a chain is the module's. -/
theorem kind_ne_module_of_chain {inner outer : Chain} (hs : s ∈ (ofFile f).scopes)
    (h : (ofFile f).chain s = inner ++ u :: outer) : ∀ v ∈ inner, v.kind ≠ .module := by
  cases inner with
  | nil => simp
  | cons v inner =>
    obtain ⟨rfl, haround⟩ := List.cons.inj h
    refine List.forall_mem_cons.2 ⟨?_, (around_eq_append hroot hs haround).2.2⟩
    rcases around_cases hroot hs with ⟨-, -, hnone⟩ | ⟨hne, -⟩
    · rw [around] at hnone
      rw [hnone] at haround
      cases inner <;> cases haround
    · exact hne

/-- The scope of a function is among those around each node of its body. -/
theorem exists_chain_of_mem_bodyNodes (hs : s ∈ (ofFile f).scopes) (hk : s.node.kind.isFunction = true)
    {scopes : List Node} (h : f.tree.root.BelongsTo s.node scopes) {m : Node}
    (hm : m ∈ s.node.bodyNodes) (hm' : m.kind ≠ .arguments) :
    ∃ inner outer, (ofFile f).chainOf? m.index = some (inner ++ s :: outer) ∧
      ∀ u ∈ inner, u.kind ≠ .module := by
  obtain ⟨between, hbelongs⟩ := h.of_mem_bodyNodes hroot hk hm
  obtain ⟨chain, hchain, hnodes⟩ := chainOf?_eq hroot hm' hbelongs
  obtain ⟨inner, rest, rfl, -, hrest⟩ := List.map_eq_append_iff.1 hnodes
  obtain ⟨s', outer, rfl, hnode, -⟩ := List.map_eq_cons_iff.1 hrest
  have hs' : s' ∈ (ofFile f).scopes := mem_scopes_of_chainOf? hchain s' (by simp)
  obtain rfl : s' = s := eq_of_node hroot hs' hs hnode
  refine ⟨inner, outer, hchain, ?_⟩
  unfold chainOf? at hchain
  split at hchain
  · obtain ⟨v, hv, hchain⟩ := Option.map_eq_some_iff.1 hchain
    exact kind_ne_module_of_chain hroot (mem_scopes_of_opened? hv) hchain
  · cases hchain

end File

end ScopeTable

namespace Project

variable {P : Project} {f : Function} {ignore : List String} {r : String}

/-- The scope that a name at a node belongs to. -/
def ownerOf? (P : Project) (file node : Nat) (x : String) : Option Scope :=
  ((P.chainOf? file node).bind (·.lookup x)).bind (·.head?)

/-- A name that a function binds belongs to the function where it stands in the body, unless a scope
further inside binds it or the name is declared to belong elsewhere. -/
theorem owner_cases {file node : Nat} {x : String} {own : Scope} {inner outer : Chain}
    (hchain : P.chainOf? file node = some (inner ++ own :: outer))
    (hmodule : ∀ u ∈ inner, u.kind ≠ .module) (hkind : own.kind = .function)
    (hbinds : own.binds x = true) :
    P.ownerOf? file node x = some own ∨
      (∃ u ∈ inner, u.binds x = true ∧ P.ownerOf? file node x = some u) ∨
      (∃ u ∈ inner ++ [own], x ∈ u.globals) ∨ x ∈ own.nonlocals := by
  by_cases hglobal : ∃ u ∈ inner ++ [own], x ∈ u.globals
  · exact .inr (.inr (.inl hglobal))
  by_cases hnonlocal : x ∈ own.nonlocals
  · exact .inr (.inr (.inr hnonlocal))
  have hinner : ∀ u ∈ inner, u.kind ≠ .module ∧ x ∉ u.globals := fun u hu =>
    ⟨hmodule u hu, fun hg => hglobal ⟨u, by simp [hu], hg⟩⟩
  have howner : ∀ {u : Scope} {around : Chain},
      Chain.lookup (inner ++ own :: outer) x = some (u :: around) → P.ownerOf? file node x = some u := by
    intro u around hlookup
    rw [ownerOf?, hchain, Option.bind_some, hlookup]
    rfl
  rcases Chain.lookupBy_of_function outer hkind hbinds (fun hg => hglobal ⟨own, by simp, hg⟩) hnonlocal
    hinner .directly with hlookup | ⟨u, hu, hubinds, around, hlookup⟩
  · exact .inl (howner hlookup)
  · exact .inr (.inl ⟨u, hu, hubinds, howner hlookup⟩)

/-- **Writes through the receiver.** A function is said to mutate a member of its receiver only if its
body writes to that member of a name that is spelled like the receiver, and, unless the walk over
the body is cut off, whenever it does. The scope of the function binds the receiver and stands
around each such name. So the name belongs to the function itself, except where a scope nested in it
binds the name and the name belongs to that one, or the name is declared global on the way out or
nonlocal in the function itself. -/
theorem receiver_writes (h : P.WasRead) (hf : f ∈ P.functions ignore) (hr : f.receiver = some r)
    {result : PurityResult} (hresult : P.localPurity f = .ok result) :
    ∃ file own a, P.file? f.file = some file ∧ file.scopes.opened? f.node.index = some own ∧
      f.node.firstPositional? = some a ∧ a ∈ (own.bindingsOf r).map (·.node) ∧
      (∀ path, s!"Mutates `{r}.{path}`" ∈ result.reasons →
        ∃ t ∈ f.node.bodyTargets, ∃ root, t.IsMemberOf r path root) ∧
      ((collectFindings (P.effectWalk f)).2 ≠ some .tooDeep →
        ∀ path, ∀ t ∈ f.node.bodyTargets, ∀ root, t.IsMemberOf r path root →
          s!"Mutates `{r}.{path}`" ∈ result.reasons) ∧
      ∀ path, ∀ t ∈ f.node.bodyTargets, ∀ root, t.IsMemberOf r path root →
        ∃ inner outer, P.chainOf? f.file root.index = some (inner ++ own :: outer) ∧
          (P.ownerOf? f.file root.index r = some own ∨
            (∃ u ∈ inner, u.binds r = true ∧ P.ownerOf? f.file root.index r = some u) ∨
            (∃ u ∈ inner ++ [own], r ∈ u.globals) ∨ r ∈ own.nonlocals) := by
  obtain ⟨file, own, scopes, hfile, hopened, hnode, hroot, hscopes, hreceiver, -⟩ :=
    exists_scope_of_mem_functions h hf
  obtain ⟨htable, -, -⟩ := h.sources.2 hfile
  have hown : own ∈ (ScopeTable.ofFile file.source).scopes :=
    ScopeTable.mem_scopes_of_opened? (htable ▸ hopened)
  have hfunction : own.node.kind.isFunction = true := hnode ▸ isFunction_of_mem hf
  obtain ⟨a, ha, rfl, hparameter⟩ := Node.exists_firstPositional (hreceiver.symm.trans hr)
  obtain ⟨hbound, hbinds⟩ :=
    ScopeTable.mem_bindingsOf_parameter hroot hown hfunction (hnode ▸ hparameter)
  refine ⟨file, own, a, hfile, hopened, ha, hbound, fun path => (mutates_mem_reasons hr hresult).1,
    fun hcut path t ht root hmember => (mutates_mem_reasons hr hresult).2 hcut ⟨t, ht, root, hmember⟩,
    fun path t ht root hmember => ?_⟩
  obtain ⟨hrootName, ⟨id, access, hname, -⟩, -⟩ := hmember
  obtain ⟨inner, outer, hchain, hmodule⟩ := ScopeTable.exists_chain_of_mem_bodyNodes hroot hown hfunction
    (hnode ▸ hscopes) (hnode ▸ Node.mem_bodyNodes_of_rootName? ht hrootName) (by simp [hname])
  have hchain : P.chainOf? f.file root.index = some (inner ++ own :: outer) := by
    simp only [chainOf?, hfile, htable, hchain]
  exact ⟨inner, outer, hchain,
    owner_cases hchain hmodule (ScopeTable.kind_eq_function hroot hown hfunction) hbinds⟩

/-- What a function writes through: its receiver and its number, why it is impure, and the numbers of
the scopes that the leftmost names of its targets belong to if they are spelled like the receiver. -/
structure Writes where
  receiver : Option String
  function : Nat
  reasons : Option (List String)
  owners : List (Option Nat)
  deriving DecidableEq

def writes (P : Project) : List Writes :=
  (P.functions []).map fun f =>
    { receiver := f.receiver
      function := f.node.index
      reasons := (P.localPurity f).toOption.map (·.reasons)
      owners := (f.node.bodyTargets.filterMap Node.rootName?).map fun root =>
        f.receiver.bind fun r => (P.ownerOf? f.file root.index r).map (·.id) }

theorem exists_of_mem_writes {i : Nat} {reasons : List String} {owners : List (Option Nat)}
    (h : ⟨some r, i, some reasons, owners⟩ ∈ P.writes) :
    ∃ f ∈ P.functions [], f.receiver = some r ∧ f.node.index = i ∧
      (∃ result, P.localPurity f = .ok result ∧ result.reasons = reasons) ∧
      ∀ t ∈ f.node.bodyTargets, ∀ root, t.rootName? = some root →
        (P.ownerOf? f.file root.index r).map (·.id) ∈ owners := by
  obtain ⟨f, hf, he⟩ := List.mem_map.1 h
  simp only [Writes.mk.injEq] at he
  obtain ⟨hreceiver, hindex, hreasons, rfl⟩ := he
  refine ⟨f, hf, hreceiver, hindex, exists_ok_of_map_toOption hreasons, fun t ht root hroot => ?_⟩
  refine List.mem_map.2 ⟨root, List.mem_filterMap.2 ⟨t, ht, hroot⟩, ?_⟩
  rw [hreceiver, Option.bind_some]

/-- A method whose receiver a nested function writes to. -/
def closureTexts : List (String × String) :=
  [("m.py", "class A:\n    def m(self):\n        def g():\n            self.x[0].y = 1\n")]

theorem receiver_writes_closure :
    ∃ P f result, ofTexts closureTexts [] = .ok P ∧ f ∈ P.functions [] ∧ f.receiver = some "self" ∧
      P.localPurity f = .ok result ∧ "Mutates `self.x.y`" ∈ result.reasons ∧
      ∃ t ∈ f.node.bodyTargets, ∃ root, t.IsMemberOf "self" "x.y" root ∧
        ∃ owner, P.ownerOf? f.file root.index "self" = some owner ∧ owner.id = f.node.index := by
  have heval : (ofTexts closureTexts []).toOption.map writes =
      some [⟨some "self", 2, some ["Mutates `self.x.y`"], [some 2]⟩, ⟨none, 5, some [], [none]⟩] := by
    decide +kernel
  obtain ⟨P, hP, hwrites⟩ := exists_ok_of_map_toOption heval
  have hmem : ⟨some "self", 2, some ["Mutates `self.x.y`"], [some 2]⟩ ∈ P.writes := by simp [hwrites]
  obtain ⟨f, hf, hreceiver, hindex, ⟨result, hresult, hreasons⟩, hall⟩ := exists_of_mem_writes hmem
  have hreason : "Mutates `self.x.y`" ∈ result.reasons := by simp [hreasons]
  obtain ⟨-, -, -, -, -, -, -, honly, -, -⟩ := receiver_writes (.inl ⟨_, _, hP⟩) hf hreceiver hresult
  obtain ⟨t, ht, root, hmember⟩ := honly "x.y" hreason
  have howner := List.mem_singleton.1 (hall t ht root hmember.1)
  obtain ⟨owner, howner, hid⟩ := Option.map_eq_some_iff.1 howner
  exact ⟨P, f, result, hP, hf, hreceiver, hresult, hreason, t, ht, root, hmember, owner, howner,
    hid.trans hindex.symm⟩

/-- A method with a nested function that has a parameter of the same name. -/
def shadowedTexts : List (String × String) :=
  [("m.py", "class A:\n    def m(self):\n        def g(self):\n            self.x = 1\n")]

/-- The method is said to mutate its receiver, but all that its body writes to belongs to a parameter
of the nested function. -/
theorem receiver_write_of_shadowed :
    ∃ P f result, ofTexts shadowedTexts [] = .ok P ∧ f ∈ P.functions [] ∧ f.receiver = some "self" ∧
      P.localPurity f = .ok result ∧ "Mutates `self.x`" ∈ result.reasons ∧
      ∀ t ∈ f.node.bodyTargets, ∀ root, t.rootName? = some root →
        ∀ owner, P.ownerOf? f.file root.index "self" = some owner → owner.id ≠ f.node.index := by
  have heval : (ofTexts shadowedTexts []).toOption.map writes =
      some [⟨some "self", 2, some ["Mutates `self.x`"], [some 5]⟩,
        ⟨none, 5, some ["Mutates parameter `self`"], [none]⟩] := by
    decide +kernel
  obtain ⟨P, hP, hwrites⟩ := exists_ok_of_map_toOption heval
  have hmem : ⟨some "self", 2, some ["Mutates `self.x`"], [some 5]⟩ ∈ P.writes := by simp [hwrites]
  obtain ⟨f, hf, hreceiver, hindex, ⟨result, hresult, hreasons⟩, hall⟩ := exists_of_mem_writes hmem
  refine ⟨P, f, result, hP, hf, hreceiver, hresult, by simp [hreasons], fun t ht root hroot owner ho => ?_⟩
  have hid := List.mem_singleton.1 (hall t ht root hroot)
  rw [ho, Option.map_some, Option.some.injEq] at hid
  rw [hid, hindex]
  decide

end Project

end EffectGraph
