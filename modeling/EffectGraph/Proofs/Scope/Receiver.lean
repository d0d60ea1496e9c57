/-
The receiver that the inventory gives a function, against the one that the
scope table gives the scope of the function.

Both ask whether the function stands directly in a class. The inventory carries
a flag down the tree, the table looks at the innermost open scope. At statements
the two agree (`exists_scopes_of_mem_functions`); at decorators, base classes
and the like they need not, but no function stands there. So a definition has
one receiver. For a lambda expression the table never looks, and an assigned one
that stands in a class has a receiver in the inventory only.
-/
import EffectGraph.Proofs.Function.Start
import EffectGraph.Proofs.Model.Declaration

namespace EffectGraph

/-- Of the constructs that open a scope, only bodies hold statements. -/
theorem Kind.role_eq_body (k : Kind) : ∀ part ∈ k.layout, part.category.holdsStatements = true →
    k.opensScope = true → part.role = .body := by
  cases k <;> simp [layout, opensScope, Category.holdsStatements]

theorem Kind.isFunction_cases {k : Kind} (h : k.isFunction = true) :
    k.opensScope = true ∧
      (k.isFunctionDef = true ∧ k ≠ .lambda ∨ k.isFunctionDef = false ∧ k = .lambda) := by
  cases k <;> simp_all [isFunction, opensScope, isFunctionDef]

namespace Node

/-- Whether the innermost of the constructs around a node is a class. -/
def directlyInClass (scopes : List Node) : Bool :=
  scopes.head?.any (·.kind.scopeKind? == some .classBody)

/-- The first positional parameter. -/
def firstPositional? (n : Node) : Option Node :=
  (n.part? .signature).bind fun s => (s.parts .posonly ++ s.parts .positional).head?

variable {root n c : Node} {scopes : List Node} {cat : Category} {found : FoundFunction}

/-! ## The flag of the inventory -/

/-- Where statements stand in a construct, the flag says what the scope there says. -/
theorem partInClass_cases {r : Role} (hn : n.kind.category.holdsStatements = true)
    (hr : n.kind.opensScope = true → r = .body) (inClass : Bool) :
    (n.kind.opensFor r = true ∧ n.partInClass inClass r = (n.kind.scopeKind? == some .classBody)) ∨
      (n.kind.opensFor r = false ∧ n.kind.category ≠ .clause ∧ n.partInClass inClass r = inClass) := by
  unfold partInClass
  cases hk : n.kind <;>
    simp_all [Kind.category, Kind.opensScope, Kind.opensFor, Kind.scopeKind?, Category.holdsStatements]

/-- A part that holds statements belongs to a scope that the flag is right about. -/
theorem BelongsTo.statementPart (h : BelongsTo root n scopes) (hn : n.Is cat) (hc : c ∈ n.children)
    {cat' : Category} (hcIs : c.Is cat') (hstatements : cat'.holdsStatements = true) :
    ∃ scopes', BelongsTo root c scopes' ∧
      n.partInClass (directlyInClass scopes) c.role = directlyInClass scopes' := by
  obtain ⟨part, hpart, hrole, hcPart⟩ := hn.arranged.exists_part c hc
  obtain rfl : cat' = part.category := hcIs.category.symm.trans hcPart.category
  have hholds : n.kind.category.holdsStatements = true := by
    by_contra hnot
    rw [(n.kind.holdsStatements_layout (by simpa using hnot)).2 part hpart] at hstatements
    cases hstatements
  have hbody : n.kind.opensScope = true → c.role = .body := fun hk =>
    hrole.trans (n.kind.role_eq_body part hpart hstatements hk)
  rcases partInClass_cases hholds hbody (directlyInClass scopes) with ⟨hopens, hflag⟩ |
    ⟨hopens, hclause, hflag⟩
  · exact ⟨n :: scopes, .inside h hc hopens, hflag⟩
  · exact ⟨scopes, .outside h hc hopens hclause, hflag⟩

theorem BelongsTo.introduced (h : BelongsTo root n scopes)
    (hf : n.introduced? (directlyInClass scopes) = some found) :
    BelongsTo root found.node scopes ∧ found.inClass = directlyInClass scopes := by
  rcases introduced?_cases hf with ⟨name, isAsync, -, rfl⟩ | ⟨hk, target, value, hv, -, rfl⟩
  · exact ⟨h, rfl⟩
  · refine ⟨.outside h (mem_children_of_part? hv) ?_ ?_, rfl⟩ <;>
      rcases hk with hk | hk <;> simp [hk, Kind.opensFor, Kind.category]

/-- The inventory says of a function that it stands directly in a class where the innermost of the
constructs around it is one. -/
theorem exists_scopes_of_mem_functions : ∀ (n : Node) {cat : Category} {scopes : List Node}, n.Is cat →
    BelongsTo root n scopes → ∀ found ∈ n.functions (directlyInClass scopes),
      ∃ scopes', BelongsTo root found.node scopes' ∧ found.inClass = directlyInClass scopes' := by
  refine induction fun n ih cat scopes hn h found hf => ?_
  rw [functions_eq_children hn, List.mem_append, Option.mem_toList, List.mem_flatMap] at hf
  rcases hf with hf | ⟨c, hc, hf⟩
  · exact ⟨scopes, h.introduced hf⟩
  · obtain ⟨part, -, -, hcIs⟩ := hn.arranged.exists_part c hc
    -- Below an expression the flag may be wrong, but there is nothing to flag.
    cases hstatements : part.category.holdsStatements with
    | true =>
      obtain ⟨scopes', hscopes', hflag⟩ := h.statementPart hn hc hcIs hstatements
      exact ih c hc hcIs hscopes' found (hflag ▸ hf)
    | false =>
      rw [functions_eq_nil c hcIs hstatements] at hf
      cases hf

/-! ## The receiver -/

theorem receiver_inside (hn : n.kind.isFunction = true) (p : Place) : (n.inside p).here.receiver =
    if n.kind.isFunctionDef then n.receiverName (p.here.kind == .classBody) else none := by
  unfold inside
  cases hk : n.kind <;> simp_all [Kind.isFunction, Kind.scopeKind?, Place.enter]

/-- Nothing decorates a lambda expression, so only a class around it decides. -/
theorem receiverName_lambda (hn : n.Is cat) (hk : n.kind = .lambda) (inClass : Bool) :
    n.receiverName inClass = if inClass then n.firstPositional?.map argName else none := by
  have hdecorators : n.parts .decorator = [] :=
    hn.arranged.filter_role_eq_nil (by simp [hk, Kind.layout])
  unfold receiverName firstPositional?
  cases inClass with
  | false => rfl
  | true => cases n.part? .signature <;> simp [hdecorators]

end Node

theorem Place.Matches.inClass {p : Place} {scopes : List Node} (h : p.Matches scopes) :
    (p.here.kind == .classBody) = Node.directlyInClass scopes := by
  cases h with
  | cons hhead _ => simp [Node.directlyInClass, hhead.2]

/-- The scope of a definition has the receiver that its place gives, and that of a lambda expression
has none. -/
theorem ScopeTable.receiver_eq {f : SourceFile} (hroot : f.tree.root.Is .file) {s : Scope}
    (hs : s ∈ (ofFile f).scopes) (hk : s.node.kind.isFunction = true) {scopes : List Node}
    (h : f.tree.root.BelongsTo s.node scopes) : s.receiver =
      if s.node.kind.isFunctionDef then s.node.receiverName (Node.directlyInClass scopes) else none := by
  rcases scope?_cases hroot hs with ⟨hnode, -⟩ | ⟨w, hw, -, hscope⟩
  · rw [hnode, Kind.eq_module hroot.category] at hk
    cases hk
  · cases hscope
    obtain ⟨v, hv, hnode, hmatches⟩ := Node.exists_matching_meeting hroot f.tree.nodup_index h
    obtain rfl := Node.meeting_eq f.tree.nodup_index hv hw hnode
    rw [← hmatches.inClass]
    exact Node.receiver_inside hk v.place

namespace Project

variable {P : Project} {ignore : List String} {f : Function}

/-- A function of the inventory has a scope in the table of its file, and stands where the inventory
says. -/
theorem exists_scope_of_mem_functions (h : P.WasRead) (hf : f ∈ P.functions ignore) :
    ∃ file s scopes, P.file? f.file = some file ∧ file.scopes.opened? f.node.index = some s ∧
      s.node = f.node ∧ file.source.tree.root.Is .file ∧ file.source.tree.root.BelongsTo f.node scopes ∧
      f.receiver = f.node.receiverName (Node.directlyInClass scopes) ∧
      s.receiver = if f.node.kind.isFunctionDef then f.receiver else none := by
  obtain ⟨i, file, hi, -, found, hfound, rfl⟩ := mem_functions.1 hf
  obtain ⟨htable, hroot, -⟩ := h.sources.2 hi
  have houtside : Node.directlyInClass [file.source.tree.root] = false := by
    simp only [Node.directlyInClass, List.head?_cons, Option.any_some, Kind.eq_module hroot.category]
    rfl
  obtain ⟨scopes, hscopes, hflag⟩ :=
    Node.exists_scopes_of_mem_functions _ hroot .root found (houtside ▸ hfound)
  have hk : found.node.kind.isFunction = true := isFunction_of_mem hf
  have hnode := Node.mem_preorder_of_mem_functions _ _ found hfound
  obtain ⟨s, hs, hopened, hsnode⟩ := ScopeTable.exists_opened? hroot (n := found.node)
    (.inr ⟨hnode, (Kind.isFunction_cases hk).1⟩)
  have hreceiver : (found.toFunction file.source i).receiver =
      found.node.receiverName (Node.directlyInClass scopes) := by
    rw [← hflag]
    rfl
  have hscope := ScopeTable.receiver_eq hroot hs (hsnode ▸ hk) (hsnode ▸ hscopes)
  rw [hsnode, ← hreceiver] at hscope
  exact ⟨file, s, scopes, hi, htable ▸ hopened, hsnode, hroot, hscopes, hreceiver, hscope⟩

/-- **The inventory and the scope table agree on receivers, but for lambda expressions.** They agree
on every definition. They differ where a lambda expression with a positional parameter is assigned
directly in a class, and nowhere else, because the scope of a lambda expression has no receiver. -/
theorem receivers_differ_iff (h : P.WasRead) (hf : f ∈ P.functions ignore) :
    ∃ file s scopes, P.file? f.file = some file ∧ file.scopes.opened? f.node.index = some s ∧
      s.node = f.node ∧ file.source.tree.root.BelongsTo f.node scopes ∧
      f.receiver = f.node.receiverName (Node.directlyInClass scopes) ∧
      (f.node.kind.isFunctionDef = true → s.receiver = f.receiver) ∧
      (f.node.kind = .lambda → s.receiver = none) ∧
      (s.receiver ≠ f.receiver ↔ f.node.kind = .lambda ∧ Node.directlyInClass scopes = true ∧
        f.node.firstPositional?.isSome = true) := by
  obtain ⟨file, s, scopes, hfile, hopened, hnode, hroot, hscopes, hreceiver, hscope⟩ :=
    exists_scope_of_mem_functions h hf
  rcases (Kind.isFunction_cases (isFunction_of_mem hf)).2 with ⟨hdef, hne⟩ | ⟨hdef, hk⟩
  · rw [if_pos hdef] at hscope
    exact ⟨file, s, scopes, hfile, hopened, hnode, hscopes, hreceiver, fun _ => hscope,
      fun hk => absurd hk hne, by simp [hscope, hne]⟩
  · have hIs := hroot.of_mem_preorder _ hscopes.mem_preorder
    rw [hdef, if_neg Bool.false_ne_true] at hscope
    refine ⟨file, s, scopes, hfile, hopened, hnode, hscopes, hreceiver, fun h => by simp [hdef] at h,
      fun _ => hscope, ?_⟩
    rw [hscope, hreceiver, Node.receiverName_lambda hIs hk]
    cases Node.directlyInClass scopes <;> cases f.node.firstPositional? <;> simp [hk]

/-- The functions of a project, whether they are definitions, and their receivers. -/
def receivers (P : Project) : List (String × Bool × Option String) :=
  (P.functions []).map fun f => (f.id, f.node.kind.isFunctionDef, f.receiver)

theorem exists_of_mem_receivers {id : String} {isDef : Bool} {receiver : Option String}
    (h : (id, isDef, receiver) ∈ P.receivers) : ∃ f ∈ P.functions [], f.id = id ∧
      f.node.kind.isFunctionDef = isDef ∧ f.receiver = receiver := by
  obtain ⟨f, hf, he⟩ := List.mem_map.1 h
  simp only [Prod.mk.injEq] at he
  exact ⟨f, hf, he⟩

/-- A method in a branch of a class, and a lambda expression in the same class. -/
def methodTexts : List (String × String) :=
  [("m.py", "class A:\n    if x:\n        def f(self): pass\n    g = lambda a: a\n")]

theorem receivers_differ_iff_method :
    ∃ P f g, ofTexts methodTexts [] = .ok P ∧ f ∈ P.functions [] ∧ g ∈ P.functions [] ∧
      f.id = "m.py:27:f" ∧ f.receiver = some "self" ∧
      (∃ file s, P.file? f.file = some file ∧ file.scopes.opened? f.node.index = some s ∧
        s.receiver = some "self") ∧
      g.id = "m.py:53:g" ∧ g.receiver = some "a" ∧
      ∃ file s scopes, P.file? g.file = some file ∧ file.scopes.opened? g.node.index = some s ∧
        s.receiver = none ∧ file.source.tree.root.BelongsTo g.node scopes ∧
        Node.directlyInClass scopes = true := by
  have heval : (ofTexts methodTexts []).toOption.map receivers =
      some [("m.py:27:f", true, some "self"), ("m.py:53:g", false, some "a")] := by
    decide +kernel
  obtain ⟨P, hP, hreceivers⟩ := exists_ok_of_map_toOption heval
  have hread : P.WasRead := .inl ⟨_, _, hP⟩
  have hmethod : ("m.py:27:f", true, some "self") ∈ P.receivers := by simp [hreceivers]
  have hassigned : ("m.py:53:g", false, some "a") ∈ P.receivers := by simp [hreceivers]
  obtain ⟨f, hf, hid, hdef, hreceiver⟩ := exists_of_mem_receivers hmethod
  obtain ⟨g, hg, hid', hlambda, hreceiver'⟩ := exists_of_mem_receivers hassigned
  obtain ⟨file, s, -, hfile, hopened, -, -, -, hagree, -, -⟩ := receivers_differ_iff hread hf
  obtain ⟨file', s', scopes, hfile', hopened', -, hscopes, -, -, hnone, hdiffer⟩ :=
    receivers_differ_iff hread hg
  have hk : g.node.kind = .lambda := by
    rcases (Kind.isFunction_cases (isFunction_of_mem hg)).2 with ⟨hdef, -⟩ | ⟨-, hk⟩
    · rw [hdef] at hlambda
      cases hlambda
    · exact hk
  have hne : s'.receiver ≠ g.receiver := by simp [hnone hk, hreceiver']
  exact ⟨P, f, g, hP, hf, hg, hid, hreceiver, ⟨file, s, hfile, hopened, (hagree hdef).trans hreceiver⟩,
    hid', hreceiver', file', s', scopes, hfile', hopened', hnone hk, hscopes, (hdiffer.1 hne).2.1⟩

/-- A lambda expression in a class. -/
def classLambdaTexts : List (String × String) := [("m.py", "class A:\n    f = lambda self: self\n")]

/-- The inventory takes the parameter of the lambda expression for its receiver, the table does
not. -/
theorem receiver_of_class_lambda :
    ∃ P f file s, ofTexts classLambdaTexts [] = .ok P ∧ f ∈ P.functions [] ∧
      P.file? f.file = some file ∧ file.scopes.opened? f.node.index = some s ∧ s.node = f.node ∧
      f.receiver = some "self" ∧ s.receiver = none := by
  have heval : (ofTexts classLambdaTexts []).toOption.map receivers =
      some [("m.py:17:f", false, some "self")] := by
    decide +kernel
  obtain ⟨P, hP, hreceivers⟩ := exists_ok_of_map_toOption heval
  have hassigned : ("m.py:17:f", false, some "self") ∈ P.receivers := by simp [hreceivers]
  obtain ⟨f, hf, -, hlambda, hreceiver⟩ := exists_of_mem_receivers hassigned
  obtain ⟨file, s, -, hfile, hopened, hnode, -, -, -, hscope⟩ :=
    exists_scope_of_mem_functions (.inl ⟨_, _, hP⟩) hf
  rw [hlambda, if_neg Bool.false_ne_true] at hscope
  exact ⟨P, f, file, s, hP, hf, hfile, hopened, hnode, hreceiver, hscope⟩

end Project

end EffectGraph
