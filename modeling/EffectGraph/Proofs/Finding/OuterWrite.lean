/-
Writes of a function to names outside of it.

A write to a name is told if all places that declare the name lie outside the
text of the function. Each write that is looked at is also a place that binds
the name: in the scope where it stands or, for `:=`, in the nearest scope that is
no comprehension's (`exists_binds_of_writesName`). So a search that no
declaration sends elsewhere finds that place, which lies in the text of the
function (`encloses_or_misplaces`), and nothing is told. Only a comprehension
directly in a class hides the place from the search, since a search from inside
passes over the class, and only a formatted text of several lines inside of
another one puts the place before the function. A search that `global` sends to
the module (`WriteSite.owner_of_global`) finds what binds the name there, and the
write is told unless the function itself or its header does.
-/
import EffectGraph.Proofs.Extent.Statement
import EffectGraph.Proofs.Finding.ParameterWrite

namespace EffectGraph

/-! ## Messages -/

theorem Effect.eq_writesOuterScope_of_message {e : Effect} {x : String}
    (h : e.message = (writesOuterScope x).message) : e = .writesOuterScope x := by
  have hopening := opening_eq_of_message_eq h
  cases e with
  | writesOuterScope y =>
    change "Writes to outer scope `" ++ y ++ "`" = "Writes to outer scope `" ++ x ++ "`" at h
    have htext := congrArg String.toList h
    simp only [String.toList_append, List.append_cancel_left_eq, List.append_cancel_right_eq] at htext
    rw [String.toList_injective htext]
  | _ => simp [opening] at hopening

/-! ## Expressions -/

/-- Whether constructs of the category can stand in an expression. -/
def Category.inExpression : Category → Bool
  | expression | signature | parameter | keyword | clause => true
  | _ => false

theorem Kind.inExpression_layout (k : Kind) (h : k.category.inExpression = true) :
    ∀ part ∈ k.layout, part.category.inExpression = true := by
  cases k <;> simp_all [category, layout, Category.inExpression]

namespace Node

variable {root n m s : Node} {x : String}

theorem inExpression_of_mem_preorder : ∀ (n : Node) {cat : Category}, n.Is cat → cat.inExpression = true →
    ∀ m ∈ n.preorder, m.kind.category.inExpression = true := by
  refine induction fun n ih cat hn hcat m hm => ?_
  rw [preorder_eq, List.mem_cons, List.mem_flatMap] at hm
  rcases hm with rfl | ⟨c, hc, hm⟩
  · rw [hn.category, hcat]
  · obtain ⟨slot, hslot, -, hcIs⟩ := hn.arranged.exists_part c hc
    exact ih c hc hcIs (n.kind.inExpression_layout (hn.category ▸ hcat) slot hslot) m hm

/-! ## Writes to names -/

/-- A construct writes to a name at a node: as a single target, or where `:=`, an import or a handler
gives the name. -/
def WritesName (n m : Node) (x : String) : Prop :=
  (∃ target, n.WritesTo target ∧ target.HasSingle m ∧ ∃ id access, m.kind = .name id access ∧ id.text = x) ∨
    n.GivesName m x

/-- A construct stands in comprehensions, of which the outermost stands in a block. -/
def InComprehensions (root n : Node) (comprehensions : List Node) (block : Node) : Prop :=
  comprehensions ≠ [] ∧ (∀ c ∈ comprehensions, c.kind.isComprehension = true) ∧
    ∃ outer, BelongsTo root n (comprehensions ++ block :: outer)

/-- A place binds a name in a scope that declares the name global. -/
def BindsGlobally (root m : Node) (x : String) : Prop :=
  ∃ s, Binds root s x m ∧ Declares root s .globalStmt x

/-- A scope that a construct or a node of its body opens declares a name global or nonlocal. -/
def DeclaresOuter (root f : Node) (x : String) : Prop :=
  ∃ s, (s = f ∨ s ∈ f.bodyNodes) ∧ (Declares root s .globalStmt x ∨ Declares root s .nonlocalStmt x)

/-- In the body of a construct, a `:=` gives a name in comprehensions that stand directly in the body
of a class. -/
def NamesInClass (root f : Node) (x : String) : Prop :=
  ∃ n ∈ f.bodyNodes, n.kind = .namedExpr ∧ (∃ m, n.GivesName m x) ∧
    ∃ comprehensions block name, InComprehensions root n comprehensions block ∧ block.kind = .classDef name

/-- A place that stands in the body of a construct counts as standing before the construct, on the line
where the construct starts. It is in a formatted text of several lines inside of another formatted
text. -/
def Misplaces (f d : Node) : Prop :=
  d.span.start.line = f.span.start.line ∧ d.span.start.column < f.span.start.column ∧
    ∃ text ∈ f.bodyNodes, text.kind = .joinedStr ∧ ∃ part ∈ text.children, part.HasInLongText d

/-- A place in the body of a construct that binds a name counts as standing before the construct. -/
def BindsMisplaced (root f : Node) (x : String) : Prop :=
  ∃ d ∈ f.bodyNodes, (∃ s, Binds root s x d) ∧ f.Misplaces d

theorem isTarget_of_writesTo {target : Node} (hn : n ∈ root.preorder) (h : n.WritesTo target) :
    IsTarget root target := by
  cases h with
  | target hk ht =>
    refine .target hn ?_ ht
    rcases hk with hk | hk | hk | ⟨isAsync, hk⟩ <;> simp [hk, Kind.bindsTargets]
  | annotated hk _ ht => exact .target hn (by simp [hk, Kind.bindsTargets]) ht
  | captured hk ht => exact .captured hn hk ht

theorem IsTarget.single {t : Node} (h : t.HasSingle m) (ht : IsTarget root t) : IsTarget root m := by
  induction h with
  | itself => exact ht
  | element hk hc _ ih => exact ih (.element ht hk hc)
  | starred hk hc _ ih => exact ih (.starred ht hk hc)

theorem WritesName.mem_preorder (h : n.WritesName m x) : m ∈ n.preorder := by
  rcases h with ⟨target, ht, hsingle, -⟩ | h
  · exact mem_preorder_of_child ht.mem_children hsingle.mem_preorder
  · cases h with
    | named _ ht | importModule _ ht | importFrom _ ht => exact mem_preorder_parts ht
    | handler => exact mem_preorder_self n

theorem WritesName.kind_ne_arguments (h : n.WritesName m x) : m.kind ≠ .arguments := by
  rcases h with ⟨_, -, -, _, _, hk, -⟩ | h
  · simp [hk]
  · cases h with
    | named _ _ hk | importModule _ _ hk | importFrom _ _ hk | handler hk => simp [hk]

/-- A place that writes to a name is a name itself, or it stands in no expression. -/
theorem WritesName.isName_or (h : n.WritesName m x) :
    m.kind.isName = true ∨ m.kind.category.inExpression = false := by
  rcases h with ⟨_, -, -, _, _, hk, -⟩ | h
  · exact .inl (by rw [hk]; rfl)
  · cases h with
    | named _ _ hk => exact .inl (by rw [hk]; rfl)
    | importModule _ _ hk | importFrom _ _ hk | handler hk => exact .inr (by rw [hk]; rfl)

theorem WritesName.givesName (h : n.WritesName m x) (hk : n.kind = .namedExpr) : n.GivesName m x := by
  rcases h with ⟨target, ht, -⟩ | h
  · cases ht with
    | target hk' => simp [hk] at hk'
    | annotated hk' | captured hk' => simp [hk] at hk'
  · exact h

/-- A place that writes to a name binds it: in the scope where it stands or, for `:=`, in the nearest
scope that is no comprehension's. -/
theorem exists_binds_of_writesName (hroot : root.Is .file) (hn : n ∈ root.preorder) (h : n.WritesName m x) :
    ∃ comprehensions s outer, BelongsTo root m (comprehensions ++ s :: outer) ∧
      (∀ c ∈ comprehensions, c.kind.isComprehension = true) ∧ Binds root s x m ∧
      (comprehensions ≠ [] → n.kind = .namedExpr ∧ InComprehensions root n comprehensions s) := by
  have directly : ∀ {k : Node}, k ∈ root.preorder → ∃ s outer, BelongsTo root k (s :: outer) := by
    intro k hk
    obtain ⟨scopes, hscopes⟩ := exists_belongsTo hroot k hk
    cases scopes with
    | nil => cases hscopes.root_mem
    | cons s outer => exact ⟨s, outer, hscopes⟩
  rcases h with ⟨target, ht, hsingle, id, access, hk, rfl⟩ | h
  · have htarget := IsTarget.single hsingle (isTarget_of_writesTo hn ht)
    obtain ⟨s, outer, hm⟩ := directly htarget.mem_preorder
    exact ⟨[], s, outer, hm, by simp, .around hm (.target htarget hk), by simp⟩
  obtain ⟨s, outer, hscopes⟩ := directly hn
  cases h with
  | named hk ht hkt =>
    have hmodule : (!root.kind.isComprehension) = true := by
      rw [Kind.eq_module hroot.category]
      rfl
    have hfound : ((s :: outer).find? (!·.kind.isComprehension)).isSome = true :=
      List.find?_isSome.2 ⟨root, hscopes.root_mem, hmodule⟩
    obtain ⟨block, hblock⟩ := Option.isSome_iff_exists.1 hfound
    obtain ⟨-, comprehensions, around, hsplit, hcomprehensions⟩ := List.find?_eq_some_iff_append.1 hblock
    have hcomprehensions : ∀ c ∈ comprehensions, c.kind.isComprehension = true := by
      simpa using hcomprehensions
    have hm : BelongsTo root m (s :: outer) :=
      .outside hscopes (mem_children_of_mem_parts ht) (by simp [hk, Kind.opensFor]) (by simp [hk, Kind.category])
    refine ⟨comprehensions, block, around, hsplit ▸ hm, hcomprehensions, .named hscopes hk ht hkt hblock, ?_⟩
    exact fun hne => ⟨hk, hne, hcomprehensions, around, hsplit ▸ hscopes⟩
  | importModule hk ha hka =>
    have hm : BelongsTo root m (s :: outer) :=
      .outside hscopes (mem_children_of_mem_parts ha) (by simp [hk, Kind.opensFor]) (by simp [hk, Kind.category])
    exact ⟨[], s, outer, hm, by simp, .around hscopes (.importModule hk ha hka), by simp⟩
  | importFrom hk ha hka hstar =>
    have hm : BelongsTo root m (s :: outer) :=
      .outside hscopes (mem_children_of_mem_parts ha) (by simp [hk, Kind.opensFor]) (by simp [hk, Kind.category])
    exact ⟨[], s, outer, hm, by simp, .around hscopes (.importFrom hk ha hka hstar), by simp⟩
  | handler hk => exact ⟨[], s, outer, hscopes, by simp, .around hscopes (.handler hk), by simp⟩

/-- A place binds a name in one scope only. -/
theorem Binds.unique {s' : Node} {x' : String} (hroot : root.Is .file) (hnodup : (root.preorder.map index).Nodup)
    (h : Binds root s x m) (h' : Binds root s' x' m) : s = s' := by
  -- The target of `:=` is bound by nothing else.
  have named : ∀ {n n' t : Node} {y : String}, n ∈ root.preorder → n' ∈ root.preorder → n.kind = .namedExpr →
      t ∈ n.parts .target → t.kind.category = .expression → ¬ BindsAround root n' y t := by
    intro n n' t y hn hn' hk ht hcat hb
    obtain rfl := BoundBy.unique hnodup hn hn' (.named hcat hk ht) hb.boundBy
    cases hb with
    | functionDef hk' | classDef hk' | importModule hk' | importFrom hk' | target _ hk' | handler hk' =>
      simp [hk] at hk'
    | pattern hk' => simp [hk] at hk'
  cases h with
  | around hn hb =>
    cases h' with
    | around hn' hb' =>
      obtain rfl := BoundBy.unique hnodup hn.mem_preorder hn'.mem_preorder hb.boundBy hb'.boundBy
      exact (List.cons.inj (hn.unique hroot hnodup hn')).1
    | parameter hs' hk' ha' => exact eq_of_binds_parameter hroot hnodup hs' ha' (.around hn hb)
    | named hn' hk' ht' hkt' =>
      exact absurd hb (named hn'.mem_preorder hn.mem_preorder hk' ht' (by simp [hkt', Kind.category]))
  | parameter hs hk ha => exact (eq_of_binds_parameter hroot hnodup hs ha h').symm
  | @named n _ _ scopes _ _ hn hk ht hkt hfind =>
    have hcat : m.kind.category = .expression := by simp [hkt, Kind.category]
    cases h' with
    | around hn' hb' => exact absurd hb' (named hn.mem_preorder hn'.mem_preorder hk ht hcat)
    | parameter hs' hk' ha' =>
      exact eq_of_binds_parameter hroot hnodup hs' ha' (.named hn hk ht hkt hfind)
    | named hn' hk' ht' hkt' hfind' =>
      obtain rfl := BoundBy.unique hnodup hn.mem_preorder hn'.mem_preorder (.named hcat hk ht) (.named hcat hk' ht')
      obtain rfl := hn.unique hroot hnodup hn'
      exact Option.some.inj (hfind.symm.trans hfind')

/-! ## Where a function and what it encloses stand -/

/-- The scopes around a node of the body of a function, up to the function, are opened by the function
and by nodes of its body. -/
theorem BelongsTo.mem_bodyNodes_of_inner {f : Node} {inner outer : List Node}
    (h : BelongsTo root m (inner ++ f :: outer)) (hk : f.kind.isFunction = true) (hroot : f ≠ root) :
    ∀ u ∈ inner, u ∈ f.bodyNodes := by
  intro u hu
  obtain ⟨before, after, rfl⟩ := List.append_of_mem hu
  rw [List.append_assoc, List.cons_append] at h
  rcases h.scope with ⟨-, hnil⟩ | ⟨-, hu⟩
  · simp at hnil
  · exact hu.mem_bodyNodes hk hroot

/-- The nearest scope around a node of the body of a function that is no comprehension's, and the
comprehensions before it, are opened by the function or by nodes of its body. -/
theorem BelongsTo.nearest_mem_bodyNodes {f : Node} {comprehensions inner outer around : List Node}
    (hroot : root.Is .file) (hnodup : (root.preorder.map index).Nodup)
    (h : BelongsTo root m (comprehensions ++ s :: outer))
    (hcomprehensions : ∀ c ∈ comprehensions, c.kind.isComprehension = true)
    (hf : BelongsTo root m (inner ++ f :: around)) (hk : f.kind.isFunction = true) (hne : f ≠ root) :
    (∀ c ∈ comprehensions, c ∈ f.bodyNodes) ∧ (s = f ∨ s ∈ f.bodyNodes) := by
  have hinner := hf.mem_bodyNodes_of_inner hk hne
  have hnone : f ∉ comprehensions := by
    intro hmem
    have hcomprehension := hcomprehensions f hmem
    rw [Kind.isComprehension_of_isFunction hk] at hcomprehension
    cases hcomprehension
  rcases List.append_eq_append_iff.1 (h.unique hroot hnodup hf) with ⟨rest, rfl, hrest⟩ | ⟨rest, rfl, hrest⟩
  · refine ⟨fun c hc => hinner c (List.mem_append_left _ hc), ?_⟩
    cases rest with
    | nil => exact .inl (List.cons.inj hrest).1
    | cons u rest =>
      obtain ⟨rfl, -⟩ := List.cons.inj hrest
      exact .inr (hinner s (by simp))
  · cases rest with
    | nil =>
      obtain ⟨rfl, -⟩ := List.cons.inj hrest
      exact ⟨by simpa using hinner, .inl rfl⟩
    | cons u rest =>
      obtain ⟨rfl, -⟩ := List.cons.inj hrest
      exact absurd (by simp) hnone

/-- What a comprehension in the body of a function binds, it binds there. -/
theorem Binds.mem_bodyNodes {f u d : Node} {inner outer : List Node} (hroot : root.Is .file)
    (hnodup : (root.preorder.map index).Nodup) (hu : BelongsTo root u (inner ++ f :: outer))
    (hk : f.kind.isFunction = true) (hf : f ≠ root) (hcomp : u.kind.isComprehension = true)
    (h : Binds root u x d) : d ∈ f.bodyNodes := by
  cases h with
  | @around n _ _ around _ hn hb =>
    rcases hn.head with ⟨rfl, -⟩ | ⟨-, hu'⟩
    · rw [Kind.eq_module hroot.category] at hcomp
      cases hcomp
    · obtain rfl := hu.unique hroot hnodup hu'
      have hn : BelongsTo root n (u :: inner ++ f :: outer) := hn
      exact mem_bodyNodes_of_mem_preorder (hn.mem_bodyNodes hk hf) hb.mem_preorder
  | parameter _ hfunction =>
    rw [Kind.isComprehension_of_isFunction hfunction] at hcomp
    cases hcomp
  | named _ _ _ _ hfind =>
    have := List.find?_some hfind
    simp [hcomp] at this

/-- All that belongs to the scope of a comprehension stands in an expression. -/
theorem BelongsTo.inExpression {u : Node} {outer : List Node} (hroot : root.Is .file)
    (h : BelongsTo root n (u :: outer)) (hu : u.kind.isComprehension = true) :
    n.kind.category.inExpression = true := by
  have part : ∀ {p c : Node}, p ∈ root.preorder → c ∈ p.children → p.kind.category.inExpression = true →
      c.kind.category.inExpression = true := by
    intro p c hp hc hin
    obtain ⟨slot, hslot, -, hcIs⟩ := (hroot.of_mem_preorder root hp).arranged.exists_part c hc
    rw [hcIs.category]
    exact p.kind.inExpression_layout hin slot hslot
  have expression : u.kind.category.inExpression = true := by
    rw [Kind.category_of_isComprehension hu]
    rfl
  generalize hscopes : u :: outer = scopes at h
  induction h with
  | root =>
    obtain ⟨rfl, -⟩ := List.cons.inj hscopes
    exact expression
  | inside hp hc =>
    obtain ⟨rfl, -⟩ := List.cons.inj hscopes
    exact part hp.mem_preorder hc expression
  | outside hp hc _ _ ih => exact part hp.mem_preorder hc (ih hscopes)
  | @clause p clause c _ hp _ hclause hc =>
    obtain ⟨rfl, -⟩ := List.cons.inj hscopes
    have hclause := mem_children_of_mem_parts hclause
    exact part (mem_preorder_trans (mem_preorder_child hclause) root hp.mem_preorder) hc
      (part hp.mem_preorder hclause expression)
  | firstIterable hp _ hclause hc ih =>
    have hclause := mem_children_of_mem_parts (List.mem_of_head? hclause)
    exact part (mem_preorder_trans (mem_preorder_child hclause) root hp.mem_preorder)
      (mem_children_of_mem_parts hc) (part hp.mem_preorder hclause (ih hscopes))

/-- No statement stands in an expression, so nothing is declared in the scope of a comprehension. -/
theorem not_declares_of_comprehension {u : Node} (hroot : root.Is .file) (hu : u.kind.isComprehension = true)
    {statement : List String → Kind} (hs : ∀ names, (statement names).category = .statement) :
    ¬ Declares root u statement x := by
  rintro ⟨n, outer, names, hn, hk, -⟩
  have hin := hn.inExpression hroot hu
  rw [hk, hs] at hin
  cases hin

/-- What a comprehension binds is a name. -/
theorem Binds.isName_of_comprehension {u d : Node} (hroot : root.Is .file) (hu : u.kind.isComprehension = true)
    (h : Binds root u x d) : d.kind.isName = true := by
  cases h with
  | @around n _ _ outer _ hn hb =>
    have hin := hn.inExpression hroot hu
    cases hb with
    | target _ hk =>
      rw [hk]
      rfl
    | functionDef hk | classDef hk | importModule hk | importFrom hk | handler hk =>
      rw [hk] at hin
      cases hin
    | pattern hk =>
      rcases hk with hk | hk | hk <;> rw [hk] at hin <;> cases hin
  | parameter _ hfunction =>
    rw [Kind.isComprehension_of_isFunction hfunction] at hu
    cases hu
  | named _ _ _ _ hfind =>
    have := List.find?_some hfind
    simp [hu] at this

/-- Only a whole file is a module. -/
theorem kind_ne_module_of_mem_preorder : ∀ (n : Node) {cat : Category}, n.Is cat → cat ≠ .file →
    ∀ m ∈ n.preorder, m.kind ≠ .module := by
  have parts : ∀ k : Kind, ∀ slot ∈ k.layout, slot.category ≠ .file := by
    intro k
    cases k <;> simp [Kind.layout]
  refine induction fun n ih cat hn hcat m hm => ?_
  rw [preorder_eq, List.mem_cons, List.mem_flatMap] at hm
  rcases hm with rfl | ⟨c, hc, hm⟩
  · intro hk
    have := hn.category
    rw [hk] at this
    exact hcat this.symm
  · obtain ⟨slot, hslot, -, hcIs⟩ := hn.arranged.exists_part c hc
    exact ih c hc hcIs (parts n.kind slot hslot) m hm

theorem kind_ne_module_of_mem_bodyNodes {f d : Node} {cat : Category} (hf : f.Is cat)
    (hk : f.kind.isFunction = true) (hd : d ∈ f.bodyNodes) : d.kind ≠ .module := by
  refine kind_ne_module_of_mem_preorder f hf (fun hcat => ?_) d (mem_preorder_of_mem_bodyNodes hd)
  rw [Kind.eq_module (hf.category.trans hcat)] at hk
  cases hk

theorem encloses_of_le {f d : Node} (hd : d.kind ≠ .module) (hstart : f.span.start ≤ d.span.start)
    (hstop : d.span.stop ≤ f.span.stop) : f.encloses d = true := by
  unfold encloses
  split
  · rfl
  · next hk _ => exact absurd hk hd
  · exact Bool.and_eq_true_iff.2 ⟨hstart, hstop⟩

theorem encloses_root_eq_false {f : Node} (hroot : root.Is .file) (hf : f.kind.isFunction = true) :
    f.encloses root = false := by
  unfold encloses
  split
  · next hk =>
    rw [hk] at hf
    cases hf
  · rfl
  · next hmodule => exact absurd (Kind.eq_module hroot.category) hmodule

end Node

theorem ScopeTable.binds_iff {file : SourceFile} (hroot : file.tree.root.Is .file) {s : Scope} {x : String}
    (hs : s ∈ (ofFile file).scopes) : s.binds x = true ↔ ∃ d, file.tree.root.Binds s.node x d := by
  simp only [← mem_bindingsOf hroot hs, Scope.binds, Scope.bindingsOf, List.any_eq_true, List.mem_map,
    List.mem_filter]
  constructor
  · rintro ⟨b, hb⟩
    exact ⟨b.node, b, hb, rfl⟩
  · rintro ⟨-, b, hb, -⟩
    exact ⟨b, hb⟩

namespace Project

variable {P : Project} {f : Function} {ignore : List String} {x : String}

/-- The text of a function encloses the names in its body and what stands in no expression there, but
for what is misplaced. -/
theorem encloses_or_misplaces (h : P.WasRead) (hf : f ∈ P.functions ignore) {d : Node}
    (hd : d ∈ f.node.bodyNodes) (hk : d.kind.isName = true ∨ d.kind.category.inExpression = false) :
    f.node.encloses d = true ∨ f.node.Misplaces d := by
  obtain ⟨file, hfile, -, hnode⟩ := file_of_mem_functions hf
  obtain ⟨-, hroot, -⟩ := h.sources.2 hfile
  have hIs := hroot.of_mem_preorder _ hnode
  have hfunction := isFunction_of_mem hf
  obtain ⟨lo, hi, hfits⟩ := h.fits hf
  obtain ⟨hline, hstop, hplace⟩ := hfits.of_mem_bodyNodes hfunction hd
  by_cases hstart : f.node.span.start ≤ d.span.start
  · exact .inl (Node.encloses_of_le (Node.kind_ne_module_of_mem_bodyNodes hIs hfunction hd) hstart hstop)
  · obtain ⟨text, htext, hkt, part, hpart, hdp, hlong⟩ := hplace.resolve_left hstart
    have hin : d.kind.category.inExpression = true :=
      Node.inExpression_of_mem_preorder text (hIs.of_mem_preorder _ (Node.mem_preorder_of_mem_bodyNodes htext))
        (by rw [hkt]; rfl) d (Node.mem_preorder_of_child hpart hdp)
    have hname : d.kind.isName = true := hk.resolve_right (by simp [hin])
    rw [Pos.le_iff] at hstart
    exact .inr ⟨by omega, by omega, text, htext, hkt, part, hpart, hlong hname⟩

/-- The scopes around a place where a construct in the body of a function writes to a name: those of
comprehensions, of which there are none but for `:=`, then the one that binds the name there. -/
structure WriteSite (P : Project) (f : Function) (root n m : Node) (x : String) (comprehensions : Chain)
    (s : Scope) (outer : Chain) : Prop where
  chain : P.chainOf? f.file m.index = some (comprehensions ++ s :: outer)
  isComprehension : ∀ u ∈ comprehensions, u.node.kind.isComprehension = true
  binds : root.Binds s.node x m
  named : comprehensions ≠ [] →
    n.kind = .namedExpr ∧ root.InComprehensions n (comprehensions.map (·.node)) s.node
  own : ∀ u ∈ comprehensions ++ [s], u.node = f.node ∨ u.node ∈ f.node.bodyNodes
  bound : ∀ u ∈ comprehensions, ∀ d, root.Binds u.node x d → d ∈ f.node.bodyNodes

theorem exists_writeSite (h : P.WasRead) (hf : f ∈ P.functions ignore) {file : ScopedFile}
    (hfile : P.file? f.file = some file) {n m : Node} (hn : n ∈ f.node.bodyNodes) (hw : n.WritesName m x) :
    ∃ comprehensions s outer,
      WriteSite P f file.source.tree.root n m x comprehensions s outer := by
  obtain ⟨file', own, scopes, hfile', -, -, hroot, hscopes, -⟩ := exists_scope_of_mem_functions h hf
  obtain rfl : file' = file := Option.some.inj (hfile'.symm.trans hfile)
  obtain ⟨htable, -, -⟩ := h.sources.2 hfile
  have hnodup := file'.source.tree.nodup_index
  have hfunction := isFunction_of_mem hf
  have hne : f.node ≠ file'.source.tree.root := by
    intro he
    rw [he, Kind.eq_module hroot.category] at hfunction
    cases hfunction
  have hnode := Node.mem_preorder_trans (Node.mem_preorder_of_mem_bodyNodes hn) _ hscopes.mem_preorder
  obtain ⟨comprehensions, s, outer, hm, hcomprehensions, hbinds, hnamed⟩ :=
    Node.exists_binds_of_writesName hroot hnode hw
  obtain ⟨inner, hinner⟩ :=
    hscopes.of_mem_bodyNodes hroot hfunction (Node.mem_bodyNodes_of_mem_preorder hn hw.mem_preorder)
  obtain ⟨hmem, hs⟩ := hm.nearest_mem_bodyNodes hroot hnodup hcomprehensions hinner hfunction hne
  obtain ⟨chain, hchain, hnodes⟩ := ScopeTable.chainOf?_eq hroot hw.kind_ne_arguments hm
  obtain ⟨comprehensions, rest, rfl, rfl, hrest⟩ := List.map_eq_append_iff.1 hnodes
  obtain ⟨s, outer, rfl, rfl, rfl⟩ := List.map_eq_cons_iff.1 hrest
  simp only [List.forall_mem_map] at hcomprehensions hmem
  refine ⟨comprehensions, s, outer, ?_, hcomprehensions, hbinds, by simpa using hnamed, ?_, ?_⟩
  · simp only [chainOf?, hfile, htable, hchain]
  · simp only [List.forall_mem_append, List.forall_mem_singleton]
    exact ⟨fun u hu => .inr (hmem u hu), hs⟩
  · intro u hu d hd
    obtain ⟨inner, hu'⟩ := hscopes.of_mem_bodyNodes hroot hfunction (hmem u hu)
    exact hd.mem_bodyNodes hroot hnodup hu' hfunction hne (hcomprehensions u hu)

namespace WriteSite

variable {file : ScopedFile} {n m : Node} {comprehensions outer : Chain} {s : Scope}
  (h : P.WasRead) (hfile : P.file? f.file = some file)
  (site : WriteSite P f file.source.tree.root n m x comprehensions s outer)

include h hfile site

theorem mem_scopes :
    ∀ u ∈ comprehensions ++ s :: outer, u ∈ (ScopeTable.ofFile file.source).scopes := by
  have hchain := site.chain
  simp only [chainOf?, hfile, (h.sources.2 hfile).1] at hchain
  exact ScopeTable.mem_scopes_of_chainOf? hchain

variable (hclass : comprehensions ≠ [] → ∀ name, s.node.kind ≠ .classDef name)

include hclass

/-- The name belongs to a comprehension that binds it, or a search for it goes on from the block around
the comprehensions, unless that is a class. -/
theorem owner_cases :
    P.ownerOf? f.file m.index x = (Chain.lookup (s :: outer) x).bind (·.head?) ∨
      ∃ u ∈ comprehensions, u.binds x = true ∧ P.ownerOf? f.file m.index x = some u := by
  obtain ⟨-, hroot, -⟩ := h.sources.2 hfile
  have hmem := site.mem_scopes h hfile
  have hinner : ∀ u ∈ comprehensions, u.kind = .comprehension ∧ x ∉ u.globals ∧ x ∉ u.nonlocals := by
    intro u hu
    have hscope := hmem u (List.mem_append_left _ hu)
    have hcomprehension := site.isComprehension u hu
    refine ⟨?_, ?_, ?_⟩
    · rw [Kind.isComprehension_of_scopeKind? (ScopeTable.scopeKind?_node hroot hscope)] at hcomprehension
      exact eq_of_beq hcomprehension
    · rw [ScopeTable.mem_globals hroot hscope]
      exact Node.not_declares_of_comprehension hroot hcomprehension fun _ => rfl
    · rw [ScopeTable.mem_nonlocals hroot hscope]
      exact Node.not_declares_of_comprehension hroot hcomprehension fun _ => rfl
  have hs : comprehensions ≠ [] → s.kind ≠ .classBody := by
    intro hne hbody
    have hkind := ScopeTable.scopeKind?_node hroot (hmem s (by simp))
    obtain ⟨name, hk⟩ := Kind.eq_classDef_of_scopeKind? (hbody ▸ hkind)
    exact hclass hne name hk
  unfold ownerOf?
  rw [site.chain, Option.bind_some]
  rcases Chain.lookup_comprehensions hinner hs with hfound | ⟨u, hu, hbinds, around, hfound⟩
  · exact .inl (congrArg (Option.bind · _) hfound)
  · exact .inr ⟨u, hu, hbinds, by rw [hfound]; rfl⟩

/-- A name that nothing around a write declares belongs to a scope that also binds it in the body of
the function. -/
theorem exists_binding_of_undeclared (hn : n ∈ f.node.bodyNodes) (hw : n.WritesName m x)
    (hglobal : x ∉ s.globals) (hnonlocal : x ∉ s.nonlocals) :
    ∃ owner, P.ownerOf? f.file m.index x = some owner ∧ ∃ d ∈ owner.declaring x, d ∈ f.node.bodyNodes ∧
      (∃ u, file.source.tree.root.Binds u x d) ∧
      (d.kind.isName = true ∨ d.kind.category.inExpression = false) := by
  obtain ⟨-, hroot, -⟩ := h.sources.2 hfile
  have hmem := site.mem_scopes h hfile
  rcases site.owner_cases h hfile hclass with howner | ⟨u, hu, hbinds, howner⟩
  · have hs := hmem s (by simp)
    have hbinds := (ScopeTable.binds_iff hroot hs).2 ⟨m, site.binds⟩
    rw [Chain.lookup_of_binds hglobal hnonlocal hbinds] at howner
    refine ⟨s, howner, m, ?_, Node.mem_bodyNodes_of_mem_preorder hn hw.mem_preorder, ⟨_, site.binds⟩, hw.isName_or⟩
    exact Scope.mem_declaring_of_mem_bindingsOf ((ScopeTable.mem_bindingsOf hroot hs).2 site.binds)
  · have hscope := hmem u (List.mem_append_left _ hu)
    obtain ⟨d, hd⟩ := (ScopeTable.binds_iff hroot hscope).1 hbinds
    refine ⟨u, howner, d, ?_, site.bound u hu d hd, ⟨_, hd⟩, .inl ?_⟩
    · exact Scope.mem_declaring_of_mem_bindingsOf ((ScopeTable.mem_bindingsOf hroot hscope).2 hd)
    · exact hd.isName_of_comprehension hroot (site.isComprehension u hu)

/-- A name that the block around a write declares global belongs to the module, unless a comprehension
on the way binds it. -/
theorem owner_of_global (hunbound : ∀ u ∈ comprehensions, u.binds x = false) (hglobal : x ∈ s.globals) :
    ∃ owner ∈ (ScopeTable.ofFile file.source).scopes,
      P.ownerOf? f.file m.index x = some owner ∧ owner.node = file.source.tree.root := by
  obtain ⟨htable, hroot, -⟩ := h.sources.2 hfile
  have hchain := site.chain
  simp only [chainOf?, hfile, htable] at hchain
  have hs := site.mem_scopes h hfile s (by simp)
  obtain ⟨module, hmem, hmodule, -, houtermost⟩ := ScopeTable.outermost_chain hroot hs
  refine ⟨module, hmem, ?_, ScopeTable.node_eq_root hroot hmem hmodule⟩
  rcases site.owner_cases h hfile hclass with howner | ⟨u, hu, hbound, -⟩
  · rw [howner, Chain.lookup_of_global hglobal, ScopeTable.chainOf?_eq_append hroot hchain,
      ← ScopeTable.chain_eq, houtermost]
    rfl
  · rw [hunbound u hu] at hbound
    cases hbound

end WriteSite

/-! ## Effects -/

theorem writesOuterScope_mem_nameWriteEffects {m : Node} :
    .writesOuterScope x ∈ P.nameWriteEffects f m x ↔ ∃ owner, P.ownerOf? f.file m.index x = some owner ∧
      ∀ d ∈ owner.declaring x, f.node.encloses d = false := by
  unfold nameWriteEffects
  rw [symbol?_eq]
  cases P.ownerOf? f.file m.index x with
  | none => simp
  | some owner => simp

theorem writesOuterScope_mem_writeEffects {t : Node} :
    .writesOuterScope x ∈ P.writeEffects f t ↔ (∃ id access, t.kind = .name id access ∧ id.text = x) ∧
      .writesOuterScope x ∈ P.nameWriteEffects f t x := by
  constructor
  · intro h
    rcases writeEffects_cases h with ⟨_, _, _, -, -, -, he⟩ | ⟨id, access, hk, he⟩ |
      ⟨_, _, _, _, _, _, -, -, -, -, he⟩
    · cases he
    · cases eq_of_mem_nameWriteEffects he
      exact ⟨⟨id, access, hk, rfl⟩, he⟩
    · cases he
  · rintro ⟨⟨id, access, hk, rfl⟩, h⟩
    unfold writeEffects
    refine List.mem_append_right _ ?_
    simpa [hk] using h

/-- A construct shows a write to an outer name exactly where it writes to one. -/
theorem exists_step_writesOuterScope_iff {n : Node} (hn : n.Is n.kind.category) :
    (∃ found, .ok found ∈ P.effectSteps f n ∧ .writesOuterScope x ∈ found) ↔
      ∃ m, n.WritesName m x ∧ .writesOuterScope x ∈ P.nameWriteEffects f m x := by
  rw [mem_effectSteps_iff (e := .writesOuterScope x) rfl]
  simp only [writesOuterScope_mem_writeEffects, Node.mem_writtenSingles_iff hn]
  constructor
  · rintro (⟨t, ⟨target, ht, hsingle⟩, hname, he⟩ | ⟨func, -, -, he⟩ | ⟨m, y, hgives, he⟩)
    · exact ⟨t, .inl ⟨target, ht, hsingle, hname⟩, he⟩
    · obtain ⟨_, _, he⟩ := exists_of_mem_methodEffects he
      cases he
    · cases eq_of_mem_nameWriteEffects he
      exact ⟨m, .inr hgives, he⟩
  · rintro ⟨m, ⟨target, ht, hsingle, hname⟩ | hgives, he⟩
    · exact .inl ⟨m, ⟨target, ht, hsingle⟩, hname, he⟩
    · exact .inr (.inr ⟨m, x, hgives, he⟩)

end Project

/-! ## Evaluation -/

def Kind.declaresOuter : Kind → Bool
  | globalStmt _ | nonlocalStmt _ => true
  | _ => false

/-- Whether a scope that declares a name global is found to bind it at a node. -/
def ScopedFile.bindsGlobally (file : ScopedFile) (x : String) (m : Node) : Bool :=
  file.scopes.scopes.any fun s => s.globals.contains x && (s.bindingsOf x).any (·.node.index == m.index)

/-- Whether no place that binds a name in the module lies in the text of a construct. -/
def ScopedFile.bindsOutside (file : ScopedFile) (f : Node) (x : String) : Bool :=
  file.scopes.scopes.all fun s => s.kind != .module || (s.bindingsOf x).all fun b => !f.encloses b.node

namespace Project

variable {P : Project} {f : Function} {ignore : List String} {x : String}

/-- Whether a search from the scopes around a node comes to the block there: no scope is a class, and no
comprehension binds the name. -/
def leavesComprehensions (P : Project) (file node : Nat) (x : String) : Bool :=
  (P.chainOf? file node).any fun chain =>
    chain.all fun u => u.kind != .classBody && (u.kind != .comprehension || !u.binds x)

section Evaluation

variable {i : Nat} {file : ScopedFile} (h : P.WasRead) (hfile : P.file? i = some file)

include h hfile

theorem bindsGlobally_of_scopes {m : Node} (hm : m ∈ file.source.tree.nodes)
    (hbinds : file.bindsGlobally x m = true) : file.source.tree.root.BindsGlobally m x := by
  obtain ⟨htable, hroot, -⟩ := h.sources.2 hfile
  simp only [ScopedFile.bindsGlobally, htable, List.any_eq_true, Bool.and_eq_true, List.contains_iff_mem,
    beq_iff_eq] at hbinds
  obtain ⟨s, hs, hglobal, b, hb, hindex⟩ := hbinds
  have hnode := ((ScopeTable.ofFile_within hs).bindings b (List.mem_filter.1 hb).1).node
  obtain rfl := Tree.eq_of_index hnode hm hindex
  exact ⟨s.node, (ScopeTable.mem_bindingsOf hroot hs).1 (List.mem_map_of_mem hb),
    (ScopeTable.mem_globals hroot hs).1 hglobal⟩

theorem not_binds_of_leavesComprehensions {n : Node} (hk : n.kind ≠ .arguments)
    (hleaves : P.leavesComprehensions i n.index x = true) {comprehensions : List Node} {block : Node}
    (hin : file.source.tree.root.InComprehensions n comprehensions block) :
    (∀ name, block.kind ≠ .classDef name) ∧ ∀ c ∈ comprehensions, ∀ d, ¬ file.source.tree.root.Binds c x d := by
  obtain ⟨htable, hroot, -⟩ := h.sources.2 hfile
  obtain ⟨-, hcomprehensions, outer, hn⟩ := hin
  obtain ⟨chain, hchain, hnodes⟩ := ScopeTable.chainOf?_eq hroot hk hn
  have scope : ∀ c ∈ comprehensions ++ block :: outer, ∃ u ∈ (ScopeTable.ofFile file.source).scopes,
      u.node = c ∧ u.kind ≠ .classBody ∧ (u.kind = .comprehension → u.binds x = false) := by
    intro c hc
    rw [← hnodes] at hc
    obtain ⟨u, hu, rfl⟩ := List.mem_map.1 hc
    have hfree : u.kind ≠ .classBody ∧ (u.kind ≠ .comprehension ∨ u.binds x = false) := by
      simp only [leavesComprehensions, chainOf?, hfile, htable, hchain, Option.any_some, List.all_eq_true] at hleaves
      simpa using hleaves u hu
    exact ⟨u, ScopeTable.mem_scopes_of_chainOf? hchain u hu, rfl, hfree.1, hfree.2.resolve_left ∘ not_not_intro⟩
  constructor
  · intro name hname
    obtain ⟨u, hu, rfl, hclass, -⟩ := scope block (by simp)
    have hkind := ScopeTable.scopeKind?_node hroot hu
    rw [hname] at hkind
    exact hclass (Option.some.inj hkind).symm
  · intro c hc d hd
    obtain ⟨u, hu, rfl, -, hunbound⟩ := scope c (List.mem_append_left _ hc)
    have hcomprehension := hcomprehensions u.node hc
    rw [Kind.isComprehension_of_scopeKind? (ScopeTable.scopeKind?_node hroot hu)] at hcomprehension
    have hbound := (ScopeTable.binds_iff hroot hu).2 ⟨d, hd⟩
    rw [hunbound (eq_of_beq hcomprehension)] at hbound
    cases hbound

theorem encloses_eq_false_of_bindsOutside {f d : Node} (hbinds : file.bindsOutside f x = true)
    (hd : file.source.tree.root.Binds file.source.tree.root x d) : f.encloses d = false := by
  obtain ⟨htable, hroot, -⟩ := h.sources.2 hfile
  obtain ⟨s, hs, -, hnode⟩ := ScopeTable.exists_opened? hroot (n := file.source.tree.root) (.inl rfl)
  obtain ⟨b, hb, rfl⟩ := List.mem_map.1 ((ScopeTable.mem_bindingsOf hroot hs).2 (by rw [hnode]; exact hd))
  have hkind := ScopeTable.scopeKind?_node hroot hs
  rw [hnode, Kind.eq_module hroot.category] at hkind
  simp only [ScopedFile.bindsOutside, htable, List.all_eq_true] at hbinds
  have hall := hbinds s hs
  rw [← Option.some.inj hkind] at hall
  simpa using List.all_eq_true.1 hall b hb

end Evaluation

/-! ## Writes to outer names -/

/-- **Writes to outer names are declared.** If a function is said to write to a name outside of it,
then a scope that the function or a node of its body opens declares the name global or nonlocal. There
are two exceptions: the target of a `:=` that stands in comprehensions directly in the body of a class,
and a name that is bound in a formatted text of several lines inside of another formatted text, on the
line where the function starts. -/
theorem outer_write_declared (h : P.WasRead) (hf : f ∈ P.functions ignore) {result : PurityResult}
    (hresult : P.localPurity f = .ok result) (hreason : s!"Writes to outer scope `{x}`" ∈ result.reasons) :
    ∃ file, P.file? f.file = some file ∧
      (file.source.tree.root.DeclaresOuter f.node x ∨ file.source.tree.root.NamesInClass f.node x ∨
        file.source.tree.root.BindsMisplaced f.node x) := by
  obtain ⟨file, hfile, -, -⟩ := file_of_mem_functions hf
  obtain ⟨-, hroot, -⟩ := h.sources.2 hfile
  obtain ⟨effects, heffects, hresult⟩ := Analysis.bind_eq_ok.1 hresult
  cases hresult
  obtain ⟨e, he, hmessage⟩ := List.mem_map.1 (List.mem_eraseDups.1 hreason)
  cases Effect.eq_writesOuterScope_of_message hmessage
  obtain ⟨found, hfound, he⟩ := mem_findingsOf heffects he
  obtain ⟨n, hn, hfound⟩ := List.mem_flatMap.1 hfound
  obtain ⟨m, hw, he⟩ :=
    (exists_step_writesOuterScope_iff (is_of_mem_bodyNodes h hf n hn)).1 ⟨found, hfound, he⟩
  obtain ⟨owner, howner, houtside⟩ := writesOuterScope_mem_nameWriteEffects.1 he
  obtain ⟨comprehensions, s, outer, site⟩ := exists_writeSite h hf hfile hn hw
  have hs := site.mem_scopes h hfile s (by simp)
  refine ⟨file, hfile, ?_⟩
  rw [or_iff_not_imp_left]
  intro hundeclared
  have hglobal : x ∉ s.globals := fun hx =>
    hundeclared ⟨s.node, site.own s (by simp), .inl ((ScopeTable.mem_globals hroot hs).1 hx)⟩
  have hnonlocal : x ∉ s.nonlocals := fun hx =>
    hundeclared ⟨s.node, site.own s (by simp), .inr ((ScopeTable.mem_nonlocals hroot hs).1 hx)⟩
  by_cases hclass : comprehensions ≠ [] → ∀ name, s.node.kind ≠ .classDef name
  · -- The name belongs to a scope that binds it inside of the function, so nothing is told unless that
    -- place is not found there.
    obtain ⟨owner', howner', d, hd, hbody, hbinds, hkind⟩ :=
      site.exists_binding_of_undeclared h hfile hclass hn hw hglobal hnonlocal
    obtain rfl : owner = owner' := Option.some.inj (howner.symm.trans howner')
    rcases encloses_or_misplaces h hf hbody hkind with hencloses | hmisplaced
    · rw [houtside d hd] at hencloses
      cases hencloses
    · exact .inr ⟨d, hbody, hbinds, hmisplaced⟩
  · push Not at hclass
    obtain ⟨hne, name, hk⟩ := hclass
    obtain ⟨hnamed, hin⟩ := site.named hne
    exact .inl ⟨n, hn, hnamed, ⟨m, hw.givesName hnamed⟩, _, _, name, hin, hk⟩

/-- A function in whose body one function changes a variable of another by way of `nonlocal`, and which
has a `:=` in a comprehension of a class. -/
def outerTexts : List (String × String) :=
  [("m.py", "x = 0\ndef f():\n    n = 0\n    def g():\n        def h():\n            nonlocal n\n" ++
    "            n += 1\n    class C:\n        y = [x := 1 for _ in ()]\n")]

theorem outer_write_declared_nested :
    ∃ P f g result result', ofTexts outerTexts [] = .ok P ∧
      f ∈ P.functions [] ∧ f.id = "m.py:6:f" ∧ P.localPurity f = .ok result ∧
      result.reasons = ["Writes to outer scope `x`"] ∧
      g ∈ P.functions [] ∧ g.id = "m.py:29:g" ∧ P.localPurity g = .ok result' ∧
      result'.reasons = ["Writes to outer scope `n`"] ∧
      (∃ file, P.file? f.file = some file ∧
        (file.source.tree.root.DeclaresOuter f.node "x" ∨ file.source.tree.root.NamesInClass f.node "x" ∨
          file.source.tree.root.BindsMisplaced f.node "x")) ∧
      ∃ file, P.file? g.file = some file ∧
        (file.source.tree.root.DeclaresOuter g.node "n" ∨ file.source.tree.root.NamesInClass g.node "n" ∨
          file.source.tree.root.BindsMisplaced g.node "n") := by
  have heval : (ofTexts outerTexts []).toOption.map walked =
      some [⟨"m.py:6:f", [], none, some ["Writes to outer scope `x`"], true⟩,
        ⟨"m.py:29:g", [], none, some ["Writes to outer scope `n`"], true⟩,
        ⟨"m.py:46:h", [], none, some ["Writes to outer scope `n`"], true⟩] := by
    decide +kernel
  obtain ⟨P, hP, hwalked⟩ := exists_ok_of_map_toOption heval
  obtain ⟨f, hf, hid, -, -, result, hresult, hreasons, -⟩ :=
    exists_of_mem_walked (hwalked ▸ List.mem_cons_self)
  obtain ⟨g, hg, hid', -, -, result', hresult', hreasons', -⟩ :=
    exists_of_mem_walked (hwalked ▸ List.mem_cons_of_mem _ List.mem_cons_self)
  refine ⟨P, f, g, result, result', hP, hf, hid, hresult, hreasons, hg, hid', hresult', hreasons', ?_, ?_⟩
  · refine outer_write_declared (.inl ⟨_, _, hP⟩) hf hresult ?_
    rw [hreasons]
    decide
  · refine outer_write_declared (.inl ⟨_, _, hP⟩) hg hresult' ?_
    rw [hreasons']
    decide

/-- A function whose body is a formatted text. In it stands another one, which ends on a later line and
gives a name by `:=`. -/
def misplacedTexts : List (String × String) :=
  [("m.py", "class A:\n    class B:\n        class C:\n            class D:\n" ++
    "                def g(self): f\"\"\"\x7bf'''\x7b(x:=1)\x7d\n'''\x7d\"\"\"\n")]

theorem outer_write_misplaced :
    ∃ P f result file, ofTexts misplacedTexts [] = .ok P ∧ f ∈ P.functions [] ∧ f.id = "m.py:76:g" ∧
      P.localPurity f = .ok result ∧ result.reasons = ["Writes to outer scope `x`"] ∧
      P.file? f.file = some file ∧ ¬ file.source.tree.root.DeclaresOuter f.node "x" ∧
      ¬ file.source.tree.root.NamesInClass f.node "x" := by
  have heval : (ofTexts misplacedTexts []).toOption.map (fun P => decide (∃ f ∈ P.functions [],
      f.id = "m.py:76:g" ∧ (P.localPurity f).toOption.map (·.reasons) = some ["Writes to outer scope `x`"] ∧
      ∃ file ∈ (P.file? f.file).toList, ∀ n ∈ file.source.tree.nodes,
        n.kind.isComprehension = false ∧ n.kind.declaresOuter = false)) = some true := by
    decide +kernel
  obtain ⟨P, hP, heval⟩ := exists_ok_of_map_toOption heval
  obtain ⟨f, hf, hid, hreasons, file, hfile, hnone⟩ := of_decide_eq_true heval
  obtain ⟨result, hresult, hreasons⟩ := exists_ok_of_map_toOption hreasons
  refine ⟨P, f, result, file, hP, hf, hid, hresult, hreasons, Option.mem_toList.1 hfile, ?_, ?_⟩
  · rintro ⟨s, -, ⟨n, outer, names, hn, hk, -⟩ | ⟨n, outer, names, hn, hk, -⟩⟩
    · simpa [hk, Kind.declaresOuter] using (hnone n hn.mem_preorder).2
    · simpa [hk, Kind.declaresOuter] using (hnone n hn.mem_preorder).2
  · rintro ⟨n, -, -, -, comprehensions, block, name, ⟨hne, hall, outer, hn⟩, -⟩
    obtain ⟨c, rest, rfl⟩ := List.exists_cons_of_ne_nil hne
    have hc := (hnone c (hn.scopes_mem_preorder c (by simp))).1
    rw [hall c List.mem_cons_self] at hc
    cases hc

/-- **Writes to global names are told.** A walk over a function that comes to its end tells of every
place in the body where an assignment, a deletion, a loop, a `with`, an import, a handler or `:=` binds
a name in a scope that declares it global, if no place that binds the name in the module lies in the
text of the function. The target of a `:=` in comprehensions counts if none of them binds the name
itself and they do not stand directly in a class. -/
theorem outer_write_recorded (h : P.WasRead) (hf : f ∈ P.functions ignore) {result : PurityResult}
    (hresult : P.localPurity f = .ok result) (hcut : (collectFindings (P.effectWalk f)).2 ≠ some .tooDeep)
    {file : ScopedFile} (hfile : P.file? f.file = some file) {n m : Node} (hn : n ∈ f.node.bodyNodes)
    (hw : n.WritesName m x) (hbinds : file.source.tree.root.BindsGlobally m x)
    (hin : ∀ comprehensions block, file.source.tree.root.InComprehensions n comprehensions block →
      (∀ name, block.kind ≠ .classDef name) ∧
        ∀ c ∈ comprehensions, ∀ d, ¬ file.source.tree.root.Binds c x d)
    (houtside : ∀ d, file.source.tree.root.Binds file.source.tree.root x d → f.node.encloses d = false) :
    s!"Writes to outer scope `{x}`" ∈ result.reasons := by
  obtain ⟨-, hroot, -⟩ := h.sources.2 hfile
  obtain ⟨effects, heffects, hresult⟩ := Analysis.bind_eq_ok.1 hresult
  cases hresult
  obtain ⟨comprehensions, s, outer, site⟩ := exists_writeSite h hf hfile hn hw
  have hmem := site.mem_scopes h hfile
  have hclass : comprehensions ≠ [] → ∀ name, s.node.kind ≠ .classDef name := fun hne =>
    (hin _ _ (site.named hne).2).1
  have hunbound : ∀ u ∈ comprehensions, u.binds x = false := by
    intro u hu
    have hnone := (hin _ _ (site.named (List.ne_nil_of_mem hu)).2).2 u.node (List.mem_map_of_mem hu)
    have hiff := ScopeTable.binds_iff (x := x) hroot (hmem u (List.mem_append_left _ hu))
    simpa [hnone] using hiff
  have hglobal : x ∈ s.globals := by
    obtain ⟨s', hs', hdeclares⟩ := hbinds
    obtain rfl := hs'.unique hroot file.source.tree.nodup_index site.binds
    exact (ScopeTable.mem_globals hroot (hmem s (by simp))).2 hdeclares
  obtain ⟨owner, howner, hfound, hnode⟩ := site.owner_of_global h hfile hclass hunbound hglobal
  have he : .writesOuterScope x ∈ P.nameWriteEffects f m x := by
    refine writesOuterScope_mem_nameWriteEffects.2 ⟨owner, hfound, fun d hd => ?_⟩
    unfold Scope.declaring at hd
    split at hd
    · -- The module itself lies in no function.
      rw [List.mem_singleton.1 hd, hnode]
      exact Node.encloses_root_eq_false hroot (isFunction_of_mem hf)
    · rw [ScopeTable.mem_bindingsOf hroot howner, hnode] at hd
      exact houtside d hd
  obtain ⟨found, hfound, he⟩ :=
    (exists_step_writesOuterScope_iff (is_of_mem_bodyNodes h hf n hn)).2 ⟨m, hw, he⟩
  refine List.mem_eraseDups.2 (List.mem_map.2 ⟨.writesOuterScope x, ?_, rfl⟩)
  exact (mem_iff_of_not_cut heffects hcut).2 ⟨found, List.mem_flatMap.2 ⟨n, hn, hfound⟩, he⟩

/-- A function in whose body a `:=` in a comprehension changes a global variable. -/
def globalTexts : List (String × String) :=
  [("m.py", "x = 0\ndef f():\n    def g():\n        global x\n        return [x := i for i in ()]\n")]

theorem outer_write_recorded_comprehension :
    ∃ P f result file n m, ofTexts globalTexts [] = .ok P ∧ f ∈ P.functions [] ∧ f.id = "m.py:6:f" ∧
      P.localPurity f = .ok result ∧ P.file? f.file = some file ∧
      n ∈ f.node.bodyNodes ∧ n.kind = .namedExpr ∧ n.WritesName m "x" ∧
      file.source.tree.root.BindsGlobally m "x" ∧ "Writes to outer scope `x`" ∈ result.reasons := by
  have heval : (ofTexts globalTexts []).toOption.map (fun P => decide (∃ f ∈ P.functions [],
      f.id = "m.py:6:f" ∧ (P.localPurity f).toOption.map (fun _ => ()) = some () ∧
      (collectFindings (P.effectWalk f)).2 = none ∧
      ∃ file ∈ (P.file? f.file).toList, file.bindsOutside f.node "x" = true ∧
        ∃ n ∈ f.node.bodyNodes, n.kind = .namedExpr ∧ P.leavesComprehensions f.file n.index "x" = true ∧
          ∃ m ∈ n.parts .target, m.kind = .name ⟨"x", by decide⟩ .write ∧ file.bindsGlobally "x" m = true)) =
      some true := by
    decide +kernel
  obtain ⟨P, hP, heval⟩ := exists_ok_of_map_toOption heval
  obtain ⟨f, hf, hid, hok, hend, file, hfile, houtside, n, hn, hk, hleaves, m, hm, hkm, hbinds⟩ :=
    of_decide_eq_true heval
  obtain ⟨result, hresult, -⟩ := exists_ok_of_map_toOption hok
  have hread : P.WasRead := .inl ⟨_, _, hP⟩
  have hfile := Option.mem_toList.1 hfile
  have hw : n.WritesName m "x" := .inr (.named hk hm hkm)
  have hnode := Tree.mem_nodes_trans (mem_nodes_of_mem_functions hf hfile)
    (Node.mem_preorder_of_mem_bodyNodes (Node.mem_bodyNodes_of_mem_preorder hn hw.mem_preorder))
  have hglobally := bindsGlobally_of_scopes hread hfile hnode hbinds
  refine ⟨P, f, result, file, n, m, hP, hf, hid, hresult, hfile, hn, hk, hw, hglobally, ?_⟩
  exact outer_write_recorded hread hf hresult (by simp [hend]) hfile hn hw hglobally
    (fun _ _ => not_binds_of_leavesComprehensions hread hfile (by simp [hk]) hleaves)
    (fun _ => encloses_eq_false_of_bindsOutside hread hfile houtside)

/-- Names that a function binds in scopes which declare them global: its own, one that its header binds
as well, those of a function, of a capture and of a class, one in a comprehension of that class, and
one that a comprehension binds itself. -/
def unrecordedTexts : List (String × String) :=
  [("m.py", "def f(a=(y := 1)):\n    global f, y, u, v, x, z\n    f = 2\n    y = 3\n    def u(): pass\n" ++
    "    match a:\n        case v: pass\n    class x:\n        global w\n        [w := 4 for _ in ()]\n" ++
    "    [z := 5 for z in ()]\n")]

theorem outer_write_unrecorded :
    ∃ P f result file, ofTexts unrecordedTexts [] = .ok P ∧ f ∈ P.functions [] ∧ f.id = "m.py:0:f" ∧
      P.localPurity f = .ok result ∧ (collectFindings (P.effectWalk f)).2 ≠ some .tooDeep ∧
      P.file? f.file = some file ∧ result.reasons = [] ∧
      ∀ x ∈ ["f", "y", "u", "v", "x", "w", "z"], ∃ m ∈ f.node.bodyNodes,
        file.source.tree.root.BindsGlobally m x := by
  have heval : (ofTexts unrecordedTexts []).toOption.map (fun P => decide (∃ f ∈ P.functions [],
      f.id = "m.py:0:f" ∧ (P.localPurity f).toOption.map (·.reasons) = some [] ∧
      (collectFindings (P.effectWalk f)).2 = none ∧
      ∃ file ∈ (P.file? f.file).toList, ∀ x ∈ ["f", "y", "u", "v", "x", "w", "z"],
        ∃ m ∈ f.node.bodyNodes, file.bindsGlobally x m = true)) = some true := by
    decide +kernel
  obtain ⟨P, hP, heval⟩ := exists_ok_of_map_toOption heval
  obtain ⟨f, hf, hid, hreasons, hend, file, hfile, hbound⟩ := of_decide_eq_true heval
  obtain ⟨result, hresult, hreasons⟩ := exists_ok_of_map_toOption hreasons
  have hfile := Option.mem_toList.1 hfile
  refine ⟨P, f, result, file, hP, hf, hid, hresult, by simp [hend], hfile, hreasons, fun x hx => ?_⟩
  obtain ⟨m, hm, hbinds⟩ := hbound x hx
  have hnode := Tree.mem_nodes_trans (mem_nodes_of_mem_functions hf hfile) (Node.mem_preorder_of_mem_bodyNodes hm)
  exact ⟨m, hm, bindsGlobally_of_scopes (.inl ⟨_, _, hP⟩) hfile hnode hbinds⟩

end Project

end EffectGraph
