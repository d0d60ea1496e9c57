/-
The rules for hazards, told from the tree.

The walk over a body carries along what is around a node: two constructs,
whether one further out is a loop, and whether one is a function. In a tree
these are the part above the node, the part above that one, and what stands
anywhere around the node inside the body (`isConsumed_iff`, `around_iff`). So
which hazards a walk finds that comes to its end is told by rules that speak of
the nodes of the body alone (`localFlow_exact`).
-/
import EffectGraph.Proofs.Finding.Nested

namespace EffectGraph

namespace Node

/-- A node stands around another one that is below one of its parts. -/
def Surrounds (a m : Node) : Prop := ∃ c ∈ a.children, m ∈ c.preorder

/-- One of the nodes stands around a node and is of a kind. -/
def IsWithin (m : Node) (isKind : Kind → Bool) (nodes : List Node) : Prop :=
  ∃ a ∈ nodes, isKind a.kind = true ∧ a.Surrounds m

/-- Something in the tree takes care of the result of a call: the construct that it is a part of, or
a handler that is attached to it at once. -/
def IsConsumedIn (call root : Node) : Prop :=
  ∃ parent ∈ root.preorder, call ∈ parent.children ∧
    (parent.kind.consumes = true ∨
      parent.role = .func ∧ (∃ name access, parent.kind = .member name access ∧
        name.text ∈ Library.chainMethods) ∧
      ∃ outer ∈ root.preorder, parent ∈ outer.children ∧ outer.kind = .call)

/-- A `try` statement that handles errors. -/
def HandlesErrors (n : Node) : Prop := (∃ star, n.kind = .tryStmt star) ∧ n.parts .handler ≠ []

variable {isKind : Kind → Bool} {n c m : Node}

/-- Nothing below a node stands around it. -/
theorem not_isWithin_self (h : (n.preorder.map index).Nodup) : ¬ n.IsWithin isKind n.preorder := by
  rintro ⟨a, ha, -, c, hc, hn⟩
  have hnodup := nodup_of_mem_preorder n h (mem_preorder_trans (mem_preorder_child hc) n ha)
  exact notMem_preorder_of_child hnodup hc (mem_preorder_trans ha c hn)

theorem isWithin_preorder_iff (h : (n.preorder.map index).Nodup) (hc : c ∈ n.children)
    (hm : m ∈ c.preorder) :
    m.IsWithin isKind n.preorder ↔ isKind n.kind = true ∨ m.IsWithin isKind c.preorder := by
  constructor
  · rintro ⟨a, ha, hkind, d, hd, hmd⟩
    rw [preorder_eq, List.mem_cons, List.mem_flatMap] at ha
    rcases ha with rfl | ⟨e, he, ha⟩
    · exact .inl hkind
    · have hme := mem_preorder_trans hmd e (mem_preorder_trans (mem_preorder_child hd) e ha)
      obtain rfl := child_eq_of_mem h hc he (List.mem_map_of_mem hm) (List.mem_map_of_mem hme)
      exact .inr ⟨a, ha, hkind, d, hd, hmd⟩
  · rintro (hkind | ⟨a, ha, hkind, hsurrounds⟩)
    · exact ⟨n, n.mem_preorder_self, hkind, c, hc, hm⟩
    · exact ⟨a, mem_preorder_of_child hc ha, hkind, hsurrounds⟩

theorem isWithin_bodyNodes_iff (h : (n.preorder.map index).Nodup) (hc : c ∈ n.bodyParts)
    (hm : m ∈ c.preorder) : m.IsWithin isKind n.bodyNodes ↔ m.IsWithin isKind c.preorder := by
  constructor
  · rintro ⟨a, ha, hkind, d, hd, hmd⟩
    obtain ⟨e, he, ha⟩ := List.mem_flatMap.1 ha
    have hme := mem_preorder_trans hmd e (mem_preorder_trans (mem_preorder_child hd) e ha)
    obtain rfl := child_eq_of_mem h (mem_children_of_mem_parts hc) (mem_children_of_mem_parts he)
      (List.mem_map_of_mem hm) (List.mem_map_of_mem hme)
    exact ⟨a, ha, hkind, d, hd, hmd⟩
  · rintro ⟨a, ha, hkind, hsurrounds⟩
    exact ⟨a, List.mem_flatMap.2 ⟨c, hc, ha⟩, hkind, hsurrounds⟩

/-! ## What is around the nodes of a body -/

theorem visits_around : ∀ (n parent : Node) (grandparent : Option Node) (inLoop ownScope : Bool),
    (n.preorder.map index).Nodup → ∀ v ∈ visits parent grandparent inLoop ownScope n,
      (v.inLoop = true ↔ inLoop = true ∨ v.node.IsWithin Kind.isLoop n.preorder) ∧
        (v.ownScope = true ↔ ownScope = true ∧ ¬ v.node.IsWithin Kind.isFunction n.preorder) := by
  refine induction fun n ih parent grandparent inLoop ownScope h v hv => ?_
  rw [visits_eq, List.mem_cons, List.mem_flatMap] at hv
  rcases hv with rfl | ⟨c, hc, hv⟩
  · simp [not_isWithin_self h]
  · have hm := mem_preorder_of_mem_visits c _ _ _ _ v hv
    obtain ⟨hloop, hown⟩ := ih c hc _ _ _ _ ((nodup_children h).2.1 c hc) v hv
    rw [hloop, hown, isWithin_preorder_iff h hc hm, isWithin_preorder_iff h hc hm]
    simp [or_assoc, and_assoc]

/-- The constructs that a visit has around its node are those of the tree. Around a function the
walk over its body does not look. -/
structure PlacedIn (n : Node) (v : Visit) : Prop where
  parent : v.parent ∈ n.preorder
  node : v.node ∈ v.parent.children
  grandparent : v.grandparent = none ∧ v.parent = n ∨
    ∃ g ∈ n.preorder, v.grandparent = some g ∧ v.parent ∈ g.children

theorem placedIn_visits : ∀ (m parent : Node) (grandparent : Option Node) (inLoop ownScope : Bool),
    PlacedIn n ⟨m, parent, grandparent, inLoop, ownScope⟩ →
      ∀ v ∈ visits parent grandparent inLoop ownScope m, PlacedIn n v := by
  refine induction fun m ih parent grandparent inLoop ownScope h v hv => ?_
  rw [visits_eq, List.mem_cons, List.mem_flatMap] at hv
  rcases hv with rfl | ⟨c, hc, hv⟩
  · exact h
  · refine ih c hc m (some parent) _ _ ⟨?_, hc, .inr ⟨parent, h.parent, rfl, h.node⟩⟩ v hv
    exact mem_preorder_trans (mem_preorder_child h.node) n h.parent

theorem placedIn_bodyVisits {v : Visit} (hv : v ∈ n.bodyVisits) : PlacedIn n v := by
  obtain ⟨b, hb, hv⟩ := List.mem_flatMap.1 hv
  refine placedIn_visits b n none false true ?_ v hv
  exact ⟨n.mem_preorder_self, mem_children_of_mem_parts hb, .inl ⟨rfl, rfl⟩⟩

theorem exists_bodyVisit (hm : m ∈ n.bodyNodes) : ∃ v ∈ n.bodyVisits, v.node = m := by
  obtain ⟨b, hb, hm⟩ := List.mem_flatMap.1 hm
  obtain ⟨parent, grandparent, inLoop, ownScope, hsub⟩ := exists_visits_subset b n none false true hm
  refine ⟨⟨m, parent, grandparent, inLoop, ownScope⟩, List.mem_flatMap.2 ⟨b, hb, hsub ?_⟩, rfl⟩
  rw [visits_eq]
  exact List.mem_cons_self

end Node

namespace Visit

variable {n root : Node} {v : Visit}

theorem around_iff (h : (n.preorder.map Node.index).Nodup) (hv : v ∈ n.bodyVisits) :
    (v.inLoop = true ↔ v.node.IsWithin Kind.isLoop n.bodyNodes) ∧
      (v.ownScope = true ↔ ¬ v.node.IsWithin Kind.isFunction n.bodyNodes) := by
  obtain ⟨b, hb, hv⟩ := List.mem_flatMap.1 hv
  have hm := Node.mem_preorder_of_mem_visits b _ _ _ _ v hv
  have hnodup := (Node.nodup_children h).2.1 b (Node.mem_children_of_mem_parts hb)
  obtain ⟨hloop, hown⟩ := Node.visits_around b _ _ _ _ hnodup v hv
  rw [hloop, hown, Node.isWithin_bodyNodes_iff h hb hm, Node.isWithin_bodyNodes_iff h hb hm]
  simp

/-- What takes care of a result is told by the two constructs above it in the tree. -/
theorem isConsumed_iff (h : (root.preorder.map Node.index).Nodup) (hn : n ∈ root.preorder)
    (hfunction : n.kind.isFunction = true) (hv : v ∈ n.bodyVisits) :
    v.isConsumed = true ↔ v.node.IsConsumedIn root := by
  obtain ⟨hparent, hnode, hgrandparent⟩ := Node.placedIn_bodyVisits hv
  have hmem := Node.mem_preorder_trans hparent root hn
  have hparents : ∀ p ∈ root.preorder, v.node ∈ p.children → p = v.parent := fun p hp hc =>
    Node.parent_eq hc hnode root h hp hmem
  unfold isConsumed
  rw [Bool.or_eq_true]
  constructor
  · rintro (hconsumes | hhandled)
    · exact ⟨v.parent, hmem, hnode, .inl hconsumes⟩
    · split at hhandled
      · next name access hkind hcall =>
        rw [Bool.and_eq_true, List.contains_iff_mem, beq_iff_eq] at hhandled
        obtain ⟨g, hg, hgkind⟩ := Option.map_eq_some_iff.1 hcall
        rcases hgrandparent with ⟨hnone, -⟩ | ⟨g', hg', hsome, hchild⟩
        · rw [hnone] at hg
          cases hg
        · obtain rfl : g' = g := Option.some.inj (hsome.symm.trans hg)
          exact ⟨v.parent, hmem, hnode, .inr ⟨hhandled.2, ⟨name, access, hkind, hhandled.1⟩, g',
            Node.mem_preorder_trans hg' root hn, hchild, hgkind⟩⟩
      · cases hhandled
  · rintro ⟨p, hp, hchild, hrule⟩
    obtain rfl := hparents p hp hchild
    rcases hrule with hconsumes | ⟨hrole, ⟨name, access, hkind, hname⟩, outer, houter, hpo, hcall⟩
    · exact .inl hconsumes
    · rcases hgrandparent with ⟨-, hself⟩ | ⟨g, hg, hsome, hpg⟩
      · -- A function is no member, so the construct above is not the function itself.
        rw [← hself, hkind] at hfunction
        cases hfunction
      · obtain rfl := Node.parent_eq hpo hpg root h houter (Node.mem_preorder_trans hg root hn)
        right
        simp [hkind, hsome, hcall, hrole, hname]

theorem isBoundary_iff : v.isBoundary = true ↔ v.node.HandlesErrors := by
  have hhandler : (v.node.part? .handler).isSome = true ↔ v.node.parts .handler ≠ [] := by
    simp [Node.part?, Node.parts, List.filter_eq_nil_iff]
  unfold isBoundary Node.HandlesErrors
  split
  · next star hkind => rw [hhandler, and_iff_right ⟨star, hkind⟩]
  · next hkind =>
    refine iff_of_false (by simp) ?_
    rintro ⟨⟨star, h⟩, -⟩
    exact hkind star h

end Visit

/-! ## Rules -/

namespace Project

variable {P : Project} {functions : List Function} {f : Function} {file : Nat} {call : Node}

/-- A call of something that has a dotted name. -/
def CallsNamed (P : Project) (file : Nat) (call : Node) (name : String) : Prop :=
  ∃ func, call.part? .func = some func ∧ P.qualifiedName file func = .ok (some name)

/-- A call that is given a handler. A function that is known by its dotted name takes it at its own
place; otherwise a method that is known by its name does. -/
def TakesHandler (P : Project) (file : Nat) (named methods : List (String × Nat)) (call handler : Node) :
    Prop :=
  ∃ i, call.argument? i = some handler ∧
    ((∃ name, P.CallsNamed file call name ∧ named.lookup name = some i) ∨
      (∀ name, P.CallsNamed file call name → named.lookup name = none) ∧
        ∃ method, call.methodName? = some method ∧ methods.lookup method = some i)

/-- When a call is a hazard, given whether something takes care of its result and whether it stands
in a loop. -/
def CallShows (P : Project) (file : Nat) (call : Node) (isConsumed inLoop : Prop) : Hazard → Prop
  | .floating => P.isAwaitable file call = .ok true ∧ ¬ isConsumed ∧ ¬ inLoop
  | .floatingInLoop => P.isAwaitable file call = .ok true ∧ ¬ isConsumed ∧ inLoop
  | .unawaitedGather => (∃ name ∈ Library.gatherCalls, P.CallsNamed file call name) ∧ ¬ isConsumed
  | .gatherUnhandled => (∃ name ∈ Library.gatherCalls, P.CallsNamed file call name) ∧ ¬ isConsumed ∧
      ∃ n ∈ call.gathered, P.isAwaitable file n = .ok true
  | .iterationCallback => ∃ handler, P.isAsyncCallable file handler = .ok true ∧
      P.TakesHandler file Library.iterationCalls (Library.iterationMethods.map (·, 0)) call handler
  | .listener => ∃ handler, P.isAsyncCallable file handler = .ok true ∧
      P.TakesHandler file Library.listenerCalls Library.listenerMethods call handler
  | .errorSwallowed => ∃ method i handler, call.methodName? = some method ∧
      Library.rejectionMethods.lookup method = some i ∧ call.argument? i = some handler ∧
      handler.isEmptyHandler = true
  | .missingBoundary => False

/-- When a function shows a hazard, told from the tree of its file. -/
def Shows (P : Project) (root : Node) (f : Function) : Hazard → Prop
  | .missingBoundary => (∃ name, f.node.kind = .functionDef name true) ∧
      (∃ n ∈ f.node.bodyNodes, n.kind.suspends = true ∧ ¬ n.IsWithin Kind.isFunction f.node.bodyNodes) ∧
      ¬ ∃ n ∈ f.node.bodyNodes, n.HandlesErrors ∧ ¬ n.IsWithin Kind.isFunction f.node.bodyNodes
  | k => ∃ call ∈ f.node.bodyNodes, call.kind = .call ∧
      P.CallShows f.file call (call.IsConsumedIn root) (call.IsWithin Kind.isLoop f.node.bodyNodes) k

/-! ## The steps of a call -/

/-- The dotted name of what a call calls. -/
def calledName (P : Project) (file : Nat) (call : Node) : Analysis (Option String) :=
  match call.part? .func with
  | some func => P.qualifiedName file func
  | none => .ok none

theorem calledName_eq_some_iff {name : String} :
    P.calledName file call = .ok (some name) ↔ P.CallsNamed file call name := by
  unfold calledName CallsNamed
  cases call.part? .func with
  | none => simp
  | some func => simp

theorem anyAwaitable_iff : ∀ {ns : List Node} {b : Bool}, P.anyAwaitable file ns = .ok b →
    (b = true ↔ ∃ n ∈ ns, P.isAwaitable file n = .ok true)
  | [], _, h => by
    cases h
    simp
  | n :: ns, b, h => by
    obtain ⟨a, ha, h⟩ := Analysis.bind_eq_ok.1 h
    cases a with
    | true =>
      cases h
      simp [ha]
    | false =>
      rw [anyAwaitable_iff h]
      simp [ha]

theorem isAsyncHandler_iff {n? : Option Node} {b : Bool} (h : P.isAsyncHandler file n? = .ok b) :
    b = true ↔ ∃ n, P.isAsyncCallable file n = .ok true ∧ n? = some n := by
  cases n? with
  | none =>
    cases h
    simp
  | some n =>
    rw [isAsyncHandler] at h
    simp [h]

/-- The place of the handler is told by the dotted name, and otherwise by the method. -/
theorem takesHandler_iff {named methods : List (String × Nat)} {q : Option String} {handler : Node}
    (hq : P.calledName file call = .ok q) :
    P.TakesHandler file named methods call handler ↔
      ((q.bind (named.lookup ·)).or (call.methodName?.bind (methods.lookup ·))).bind call.argument? =
        some handler := by
  have hnamed : ∀ name, P.CallsNamed file call name ↔ q = some name := fun name => by
    rw [← calledName_eq_some_iff, hq, Except.ok.injEq]
  have hnone : (∀ name, P.CallsNamed file call name → named.lookup name = none) ↔
      q.bind (named.lookup ·) = none := by
    simp [hnamed, Option.bind_eq_none_iff]
  rw [TakesHandler, hnone]
  simp only [hnamed, Option.bind_eq_some_iff, Option.or_eq_some_iff, and_comm]

theorem lookup_map_zero (methods : List String) (method : String) :
    (methods.map (·, 0)).lookup method = if methods.contains method then some 0 else none := by
  induction methods with
  | nil => rfl
  | cons m ms ih =>
    rw [List.map_cons, List.lookup_cons, List.contains_cons, ih]
    cases method == m <;> rfl

theorem iterationCallback?_iff {q : Option String} {handler : Node} (hq : P.calledName file call = .ok q) :
    iterationCallback? call q = some handler ↔
      P.TakesHandler file Library.iterationCalls (Library.iterationMethods.map (·, 0)) call handler := by
  rw [takesHandler_iff hq]
  unfold iterationCallback?
  split
  · next i hi => simp [hi]
  · next hnone =>
    rw [hnone, Option.none_or]
    cases call.methodName? with
    | none => simp
    | some method =>
      simp only [Option.map_some, Option.getD_some, Option.bind_some, lookup_map_zero]
      split <;> rfl

theorem listener?_iff {q : Option String} {handler : Node} (hq : P.calledName file call = .ok q) :
    listener? call q = some handler ↔
      P.TakesHandler file Library.listenerCalls Library.listenerMethods call handler := by
  rw [takesHandler_iff hq]
  unfold listener?
  split
  · next i hi => simp [hi]
  · next hnone => rw [hnone, Option.none_or]

/-- Whether a call gathers awaitables and nothing takes care of the result. -/
def isOpenGather (P : Project) (file : Nat) (v : Visit) : Analysis Bool := do
  return ((← P.calledName file v.node).map Library.gatherCalls.contains).getD false && !v.isConsumed

theorem isOpenGather_iff {v : Visit} {b : Bool} (h : P.isOpenGather file v = .ok b) :
    b = true ↔ (∃ name ∈ Library.gatherCalls, P.CallsNamed file v.node name) ∧ ¬ v.isConsumed = true := by
  obtain ⟨q, hq, h⟩ := Analysis.bind_eq_ok.1 h
  cases h
  simp only [← calledName_eq_some_iff, hq, Except.ok.injEq]
  cases q <;> simp

/-- A note of a hazard where a test is passed. -/
def noteIf (k : Hazard) (b : Bool) : List Note := if b then [.hazard k] else []

theorem hazard_mem_noteIf {k l : Hazard} {b : Bool} : .hazard k ∈ noteIf l b ↔ k = l ∧ b = true := by
  cases b <;> simp [noteIf]

/-- The step that looks whether a call is left floating. -/
def floatingNotes (P : Project) (file : Nat) (v : Visit) : Analysis (List Note) := do
  if ← P.isAwaitable file v.node then
    return .callsAwaitable :: (if v.isConsumed then []
      else [.hazard (if v.inLoop then .floatingInLoop else .floating)])
  else return []

/-- The step that looks at what an open call gathers. -/
def gatheredNotes (P : Project) (file : Nat) (v : Visit) : Analysis (List Note) := do
  if ← P.isOpenGather file v then
    return noteIf .gatherUnhandled (← P.anyAwaitable file v.node.gathered)
  else return []

/-- The step that looks at a handler, which the dotted name of what is called tells. -/
def handlerNotes (P : Project) (file : Nat) (k : Hazard) (handler? : Node → Option String → Option Node)
    (call : Node) : Analysis (List Note) := do
  return noteIf k (← P.isAsyncHandler file (handler? call (← P.calledName file call)))

/-- The steps of a call, one by one. -/
theorem callNotes_steps (P : Project) (functions : List Function) (f : Function) (v : Visit) :
    P.callNotes functions f v =
      [ P.floatingNotes f.file v,
        P.calleeNotes functions f v,
        do return noteIf .unawaitedGather (← P.isOpenGather f.file v),
        P.gatheredNotes f.file v,
        P.handlerNotes f.file .iterationCallback iterationCallback? v.node,
        P.handlerNotes f.file .listener listener? v.node,
        .ok (noteIf .errorSwallowed
          ((((v.node.methodName?.bind (Library.rejectionMethods.lookup ·)).bind v.node.argument?).map
            Node.isEmptyHandler).getD false)) ] := rfl

section Steps

variable {v : Visit} {k : Hazard} {found : List Note}

theorem hazard_mem_floatingNotes (h : P.floatingNotes file v = .ok found) :
    .hazard k ∈ found ↔ P.isAwaitable file v.node = .ok true ∧ ¬ v.isConsumed = true ∧
      k = if v.inLoop then .floatingInLoop else .floating := by
  obtain ⟨b, hb, h⟩ := Analysis.bind_eq_ok.1 h
  cases b with
  | false =>
    cases h
    simp [hb]
  | true =>
    cases h
    cases v.isConsumed <;> simp [hb]

theorem hazard_mem_gatherNotes
    (h : (do return noteIf .unawaitedGather (← P.isOpenGather file v)) = Except.ok found) :
    .hazard k ∈ found ↔ k = .unawaitedGather ∧
      (∃ name ∈ Library.gatherCalls, P.CallsNamed file v.node name) ∧ ¬ v.isConsumed = true := by
  obtain ⟨b, hb, h⟩ := Analysis.bind_eq_ok.1 h
  cases h
  rw [hazard_mem_noteIf, isOpenGather_iff hb]

theorem hazard_mem_gatheredNotes (h : P.gatheredNotes file v = .ok found) :
    .hazard k ∈ found ↔ k = .gatherUnhandled ∧
      ((∃ name ∈ Library.gatherCalls, P.CallsNamed file v.node name) ∧ ¬ v.isConsumed = true) ∧
      ∃ n ∈ v.node.gathered, P.isAwaitable file n = .ok true := by
  obtain ⟨b, hb, h⟩ := Analysis.bind_eq_ok.1 h
  rw [← isOpenGather_iff hb]
  cases b with
  | false =>
    cases h
    simp
  | true =>
    obtain ⟨c, hc, h⟩ := Analysis.bind_eq_ok.1 h
    cases h
    rw [hazard_mem_noteIf, anyAwaitable_iff hc]
    simp

theorem hazard_mem_handlerNotes {l : Hazard} {handler? : Node → Option String → Option Node}
    {named methods : List (String × Nat)} (h : P.handlerNotes file l handler? call = .ok found)
    (hhandler : ∀ {q handler}, P.calledName file call = .ok q →
      (handler? call q = some handler ↔ P.TakesHandler file named methods call handler)) :
    .hazard k ∈ found ↔ k = l ∧ ∃ handler, P.isAsyncCallable file handler = .ok true ∧
      P.TakesHandler file named methods call handler := by
  obtain ⟨q, hq, h⟩ := Analysis.bind_eq_ok.1 h
  obtain ⟨b, hb, h⟩ := Analysis.bind_eq_ok.1 h
  cases h
  simp only [hazard_mem_noteIf, isAsyncHandler_iff hb, hhandler hq]

theorem hazard_notMem_calleeNotes (h : P.calleeNotes functions f v = .ok found) : .hazard k ∉ found := by
  intro hk
  obtain ⟨id, hid⟩ := mem_calleeNotes h hk
  cases hid

theorem emptyHandler_iff :
    (((call.methodName?.bind (Library.rejectionMethods.lookup ·)).bind call.argument?).map
        Node.isEmptyHandler).getD false = true ↔
      ∃ method i handler, call.methodName? = some method ∧
        Library.rejectionMethods.lookup method = some i ∧ call.argument? i = some handler ∧
        handler.isEmptyHandler = true := by
  have hempty : ∀ o : Option Node, (o.map Node.isEmptyHandler).getD false = true ↔
      ∃ handler, o = some handler ∧ handler.isEmptyHandler = true := by
    intro o
    cases o <;> simp
  rw [hempty]
  simp only [Option.bind_eq_some_iff]
  constructor
  · rintro ⟨handler, ⟨i, ⟨method, hmethod, hi⟩, ha⟩, he⟩
    exact ⟨method, i, handler, hmethod, hi, ha, he⟩
  · rintro ⟨method, i, handler, hmethod, hi, ha, he⟩
    exact ⟨handler, ⟨i, ⟨method, hmethod, hi⟩, ha⟩, he⟩

/-- Where all steps of a call are made, they note the hazards that the rules tell. -/
theorem hazard_mem_callNotes_iff (hok : ∀ step ∈ P.callNotes functions f v, ∃ found, step = .ok found) :
    (∃ found, .ok found ∈ P.callNotes functions f v ∧ .hazard k ∈ found) ↔
      P.CallShows f.file v.node (v.isConsumed = true) (v.inLoop = true) k := by
  rw [callNotes_steps] at hok ⊢
  simp only [List.forall_mem_cons] at hok
  obtain ⟨⟨floating, hfloating⟩, ⟨callee, hcallee⟩, ⟨gather, hgather⟩, ⟨gathered, hgathered⟩,
    ⟨iteration, hiteration⟩, ⟨listener, hlistener⟩, -⟩ := hok
  rw [hfloating, hcallee, hgather, hgathered, hiteration, hlistener]
  simp only [List.mem_cons, Except.ok.injEq, List.not_mem_nil, or_false, or_and_right, exists_or,
    exists_eq_left, hazard_mem_floatingNotes hfloating, hazard_notMem_calleeNotes hcallee,
    hazard_mem_gatherNotes hgather, hazard_mem_gatheredNotes hgathered,
    hazard_mem_handlerNotes hiteration iterationCallback?_iff,
    hazard_mem_handlerNotes hlistener listener?_iff, hazard_mem_noteIf, emptyHandler_iff]
  cases k <;> cases v.inLoop <;> simp [CallShows, and_assoc]

/-- The notes about a call tell of nothing but the call. -/
theorem isAboutCall_of_mem_callNotes (h : .ok found ∈ P.callNotes functions f v) {note : Note}
    (hnote : note ∈ found) : note.isAboutCall = true ∨ ∃ id, note = .awaitableCallee id := by
  obtain ⟨first, rest, hnotes, hothers⟩ := callNotes_eq P f v
  rw [hnotes, List.mem_cons, List.mem_cons] at h
  rcases h with h | h | h
  · exact .inl (hothers first (by simp) found h.symm note hnote)
  · exact .inr (mem_calleeNotes h.symm hnote)
  · exact .inl (hothers (.ok found) (by simp [h]) found rfl note hnote)

end Steps

/-! ## The notes of a body -/

theorem exists_ok_of_collectFindings {α : Type} :
    ∀ {steps : List (Analysis (List α))}, (collectFindings steps).2 = none →
      ∀ step ∈ steps, ∃ found, step = .ok found
  | [], _ => by simp
  | .error e :: rest, h => by cases h
  | .ok found :: rest, h => by
    rw [List.forall_mem_cons]
    exact ⟨⟨found, rfl⟩, exists_ok_of_collectFindings h⟩

theorem exists_ok_of_not_cut {α : Type} {steps : List (Analysis (List α))} {all : List α}
    (hall : findingsOf steps = .ok all) (hcut : (collectFindings steps).2 ≠ some .tooDeep) :
    ∀ step ∈ steps, ∃ found, step = .ok found := by
  refine exists_ok_of_collectFindings ?_
  unfold findingsOf at hall
  split at hall
  · next h => rw [h]
  · next h =>
    rw [h] at hcut
    exact absurd rfl hcut
  · cases hall

section Notes

variable {notes : List Note} (hnotes : P.notes functions f = .ok notes)
  (hcut : (collectFindings (P.noteWalk functions f)).2 ≠ some .tooDeep)

include hnotes hcut

theorem mem_notes_iff {note : Note} :
    note ∈ notes ↔ ∃ v ∈ f.node.bodyVisits,
      (note = .suspends ∧ v.ownScope = true ∧ v.node.kind.suspends = true ∨
        note = .boundary ∧ v.ownScope = true ∧ v.isBoundary = true) ∨
      v.node.kind = .call ∧ ∃ found, .ok found ∈ P.callNotes functions f v ∧ note ∈ found := by
  refine ⟨exists_visit_of_mem_notes hnotes, ?_⟩
  rw [mem_iff_of_not_cut hnotes hcut]
  rintro ⟨v, hv, hshown | ⟨hcall, found, hfound, hnote⟩⟩
  · refine ⟨_, List.mem_flatMap.2 ⟨v, hv, List.mem_cons_self⟩, ?_⟩
    rcases hshown with ⟨rfl, hown, hsuspends⟩ | ⟨rfl, hown, hboundary⟩
    · simp [hown, hsuspends]
    · simp [hown, hboundary]
  · refine ⟨found, List.mem_flatMap.2 ⟨v, hv, List.mem_cons_of_mem _ ?_⟩, hnote⟩
    rwa [if_pos (show v.node.isCall = true from beq_iff_eq.2 hcall)]

variable {ignore : List String} {file : ScopedFile} (hf : f ∈ P.functions ignore)
  (hfile : P.file? f.file = some file)

include hf hfile

theorem hazard_mem_notes_iff {k : Hazard} :
    .hazard k ∈ notes ↔ ∃ call ∈ f.node.bodyNodes, call.kind = .call ∧
      P.CallShows f.file call (call.IsConsumedIn file.source.tree.root)
        (call.IsWithin Kind.isLoop f.node.bodyNodes) k := by
  have hnode := mem_nodes_of_mem_functions hf hfile
  have hnodup := file.source.tree.nodup_index
  have hshows : ∀ v ∈ f.node.bodyVisits, v.node.kind = .call →
      ((∃ found, .ok found ∈ P.callNotes functions f v ∧ .hazard k ∈ found) ↔
        P.CallShows f.file v.node (v.node.IsConsumedIn file.source.tree.root)
          (v.node.IsWithin Kind.isLoop f.node.bodyNodes) k) := by
    intro v hv hcall
    have hconsumed := Visit.isConsumed_iff hnodup hnode (isFunction_of_mem hf) hv
    have hloop := (Visit.around_iff (Node.nodup_of_mem_preorder _ hnodup hnode) hv).1
    rw [← propext hconsumed, ← propext hloop]
    refine hazard_mem_callNotes_iff fun step hstep => exists_ok_of_not_cut hnotes hcut step ?_
    refine List.mem_flatMap.2 ⟨v, hv, List.mem_cons_of_mem _ ?_⟩
    rwa [if_pos (show v.node.isCall = true from beq_iff_eq.2 hcall)]
  rw [mem_notes_iff hnotes hcut]
  constructor
  · rintro ⟨v, hv, (⟨he, -⟩ | ⟨he, -⟩) | ⟨hcall, hfound⟩⟩
    · cases he
    · cases he
    · exact ⟨v.node, Node.mem_bodyNodes_of_mem_bodyVisits hv, hcall, (hshows v hv hcall).1 hfound⟩
  · rintro ⟨call, hbody, hcall, hshown⟩
    obtain ⟨v, hv, rfl⟩ := Node.exists_bodyVisit hbody
    exact ⟨v, hv, .inr ⟨hcall, (hshows v hv hcall).2 hshown⟩⟩

omit hcut hnotes in
/-- What is told of visits that belong to the function itself is told of nodes that stand in no
function inside the body. -/
theorem exists_ownVisit_iff {Q : Node → Prop} :
    (∃ v ∈ f.node.bodyVisits, v.ownScope = true ∧ Q v.node) ↔
      ∃ n ∈ f.node.bodyNodes, Q n ∧ ¬ n.IsWithin Kind.isFunction f.node.bodyNodes := by
  have hnodup := Node.nodup_of_mem_preorder _ file.source.tree.nodup_index
    (mem_nodes_of_mem_functions hf hfile)
  constructor
  · rintro ⟨v, hv, hown, hQ⟩
    exact ⟨v.node, Node.mem_bodyNodes_of_mem_bodyVisits hv, hQ, (Visit.around_iff hnodup hv).2.1 hown⟩
  · rintro ⟨n, hn, hQ, hown⟩
    obtain ⟨v, hv, rfl⟩ := Node.exists_bodyVisit hn
    exact ⟨v, hv, (Visit.around_iff hnodup hv).2.2 hown, hQ⟩

theorem suspends_mem_notes_iff :
    .suspends ∈ notes ↔ ∃ n ∈ f.node.bodyNodes, n.kind.suspends = true ∧
      ¬ n.IsWithin Kind.isFunction f.node.bodyNodes := by
  rw [← exists_ownVisit_iff hf hfile, mem_notes_iff hnotes hcut]
  refine exists_congr fun v => and_congr_right fun _ => ?_
  constructor
  · rintro ((⟨-, h⟩ | ⟨he, -⟩) | ⟨-, found, hfound, hnote⟩)
    · exact h
    · cases he
    · rcases isAboutCall_of_mem_callNotes hfound hnote with h | ⟨id, h⟩ <;> cases h
  · exact fun h => .inl (.inl ⟨rfl, h⟩)

theorem boundary_mem_notes_iff :
    .boundary ∈ notes ↔ ∃ n ∈ f.node.bodyNodes, n.HandlesErrors ∧
      ¬ n.IsWithin Kind.isFunction f.node.bodyNodes := by
  rw [← exists_ownVisit_iff hf hfile, mem_notes_iff hnotes hcut]
  refine exists_congr fun v => and_congr_right fun _ => ?_
  rw [← Visit.isBoundary_iff]
  constructor
  · rintro ((⟨he, -⟩ | ⟨-, h⟩) | ⟨-, found, hfound, hnote⟩)
    · cases he
    · exact h
    · rcases isAboutCall_of_mem_callNotes hfound hnote with h | ⟨id, h⟩ <;> cases h
  · exact fun h => .inl (.inr ⟨rfl, h⟩)

end Notes

/-- **What is found in a function that may wait is what the rules tell.** Each message is there once
at most, with the severity of its hazard, and it is there if and only if the tree shows the hazard. A
missing boundary comes last. -/
theorem localFlow_exact {ignore : List String} {file : ScopedFile} (hf : f ∈ P.functions ignore)
    (hfile : P.file? f.file = some file) {flow : AsyncFlow}
    (hflow : P.localFlow functions f = .ok flow)
    (hcut : (collectFindings (P.noteWalk functions f)).2 ≠ some .tooDeep) :
    (flow.result.issues.map (·.message)).Nodup ∧
    (∀ i ∈ flow.result.issues, ∃ k : Hazard, i.message = k.message ∧ i.severity = k.severity) ∧
    (∀ k : Hazard, k.message ∈ flow.result.issues.map (·.message) ↔
      P.Shows file.source.tree.root f k) ∧
    (Hazard.missingBoundary.message ∈ flow.result.issues.map (·.message) →
      (flow.result.issues.map (·.message)).getLast? = some Hazard.missingBoundary.message) := by
  obtain ⟨-, hnodup, hissues⟩ := localFlow_eq_ok hflow
  obtain ⟨notes, hnotes, h⟩ := Analysis.bind_eq_ok.1 hflow
  cases h
  have hmessage : ∀ k : Hazard, k.message ∈ ((hazardsOf f notes).map (·.issue)).map (·.message) ↔
      k ∈ hazardsOf f notes := by
    intro k
    rw [List.map_map]
    exact List.mem_map_of_injective Hazard.message_injective
  have hmissing : Hazard.missingBoundary ∈ hazardsOf f notes ↔ lacksBoundary f notes = true := by
    rw [mem_hazardsOf]
    simp [missingBoundary_notMem_notes hnotes]
  refine ⟨hnodup, fun i hi => ?_, fun k => ?_, fun hlast => ?_⟩
  · obtain ⟨k, rfl⟩ := hissues i hi
    exact ⟨k, rfl, rfl⟩
  · rw [hmessage]
    by_cases hk : k = .missingBoundary
    · subst hk
      rw [hmissing, lacksBoundary, Shows, ← isAsync_of_mem hf,
        ← suspends_mem_notes_iff hnotes hcut hf hfile, ← boundary_mem_notes_iff hnotes hcut hf hfile]
      simp [and_assoc]
    · have hshows : P.Shows file.source.tree.root f k ↔ .hazard k ∈ notes := by
        rw [hazard_mem_notes_iff hnotes hcut hf hfile]
        cases k <;> first | exact absurd rfl hk | rfl
      rw [hshows, mem_hazardsOf]
      simp [hk]
  · rw [hmessage, hmissing] at hlast
    simp [hazardsOf, hlast, Hazard.issue]

/-- What is found in the functions of a project, and whether their walks come to their end. -/
def hazardMessages (P : Project) : List (String × Option (List String) × Bool) :=
  (P.functions []).map fun f =>
    (f.id, (P.localFlow (P.functions []) f).toOption.map fun flow => flow.result.issues.map (·.message),
      (collectFindings (P.noteWalk (P.functions []) f)).2.isNone)

theorem exists_of_mem_hazardMessages {id : String} {messages : List String}
    (h : (id, some messages, true) ∈ P.hazardMessages) :
    ∃ f ∈ P.functions [], f.id = id ∧ ∃ file flow, P.file? f.file = some file ∧
      P.localFlow (P.functions []) f = .ok flow ∧ flow.result.issues.map (·.message) = messages ∧
      (collectFindings (P.noteWalk (P.functions []) f)).2 ≠ some .tooDeep := by
  obtain ⟨f, hf, he⟩ := List.mem_map.1 h
  simp only [Prod.mk.injEq, Option.isNone_iff_eq_none] at he
  obtain ⟨hid, hmessages, hend⟩ := he
  obtain ⟨file, hfile, -⟩ := file_of_mem_functions hf
  obtain ⟨flow, hflow, hmessages⟩ := exists_ok_of_map_toOption hmessages
  exact ⟨f, hf, hid, file, flow, hfile, hflow, hmessages, by simp [hend]⟩

/-- A coroutine without a hazard, and one with all hazards. -/
def hazardTexts : List (String × String) :=
  [("m.py", "import asyncio\nasync def a():\n    pass\nasync def f(xs):\n    a()\n    for x in xs:\n" ++
    "        a()\n    asyncio.gather(a())\n    map(a, xs)\n    xs.on(1, a)\n" ++
    "    xs.catch(lambda e: None)\n    await a()\n")]

theorem localFlow_exact_all :
    ∃ P, ofTexts hazardTexts [] = .ok P ∧ ∃ f ∈ P.functions [], ∃ g ∈ P.functions [],
      f.id = "m.py:15:a" ∧ g.id = "m.py:39:f" ∧ ∃ file file' flow flow',
        P.file? f.file = some file ∧ P.localFlow (P.functions []) f = .ok flow ∧
        flow.result.issues.map (·.message) = [] ∧ (∀ k, ¬ P.Shows file.source.tree.root f k) ∧
        P.file? g.file = some file' ∧ P.localFlow (P.functions []) g = .ok flow' ∧
        flow'.result.issues.map (·.message) =
          [Hazard.floating, .floatingInLoop, .unawaitedGather, .gatherUnhandled, .iterationCallback,
            .listener, .errorSwallowed, .missingBoundary].map Hazard.message ∧
        ∀ k, P.Shows file'.source.tree.root g k := by
  have heval : (ofTexts hazardTexts []).toOption.map hazardMessages =
      some [("m.py:15:a", some [], true),
        ("m.py:39:f", some ([Hazard.floating, .floatingInLoop, .unawaitedGather, .gatherUnhandled,
          .iterationCallback, .listener, .errorSwallowed, .missingBoundary].map Hazard.message), true)] := by
    decide +kernel
  obtain ⟨P, hP, hmessages⟩ := exists_ok_of_map_toOption heval
  obtain ⟨f, hf, hid, file, flow, hfile, hflow, hnone, hend⟩ :=
    exists_of_mem_hazardMessages (hmessages ▸ List.mem_cons_self)
  obtain ⟨g, hg, hid', file', flow', hfile', hflow', hall, hend'⟩ :=
    exists_of_mem_hazardMessages (hmessages ▸ List.mem_cons_of_mem _ List.mem_cons_self)
  obtain ⟨-, -, hshows, -⟩ := localFlow_exact hf hfile hflow hend
  obtain ⟨-, -, hshows', -⟩ := localFlow_exact hg hfile' hflow' hend'
  refine ⟨P, hP, f, hf, g, hg, hid, hid', file, file', flow, flow', hfile, hflow, hnone, fun k => ?_,
    hfile', hflow', hall, fun k => ?_⟩
  · rw [← hshows, hnone]
    simp
  · rw [← hshows', hall]
    cases k <;> simp

end Project

end EffectGraph
