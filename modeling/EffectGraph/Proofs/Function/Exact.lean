/-
The inventory of a project, by rule.

A statement introduces the functions, and the inventory meets the statements of
a tree in preorder. Seen from the functions, the inventory is the walk over all
nodes of which the definitions and the assigned lambda expressions are kept
(`map_node_functions`). An assigned lambda expression is listed with its
assignment and met again as a part of it; nothing is lost or listed twice, since
a node is a part of one other node at most and expressions hold no statements.

The flag that the inventory carries down says whether the nearest function,
lambda expression or class around a node is a class, for all nodes at which a
function can stand (`exists_nearest_of_mem_functions`).

The walk calls itself as often as a tree nests, counted along the parts that it
goes into. A file for which that is too often breaks the collecting off, and
nothing else does (`collect_cases`).
-/
import EffectGraph.Proofs.Scope.Receiver

namespace EffectGraph

theorem Text.occursIn_iff {part cs : List Char} : occursIn part cs = true ↔ part <:+: cs := by
  induction cs with
  | nil => simp [occursIn]
  | cons c cs ih => simp [occursIn, ih, List.infix_cons_iff]

theorem flatMap_filter {α β : Type} (p : α → Bool) (f : α → List β) (l : List α) :
    (l.filter p).flatMap f = l.flatMap fun a => if p a then f a else [] := by
  induction l with
  | nil => rfl
  | cons a l ih => cases h : p a <;> simp [h, ih]

namespace Kind

/-- A function definition, a lambda expression or a class. -/
def isBlock : Kind → Bool
  | functionDef .. | lambda | classDef _ => true
  | _ => false

theorem isBlock_layout (k : Kind) : ∀ part ∈ k.layout, part.category.holdsStatements = true →
    k.isBlock = true → part.role = .body := by
  cases k <;> simp [layout, isBlock, Category.holdsStatements]

end Kind

namespace Node

/-- An assignment that makes a function of a lambda expression. -/
def NamesValue (a : Node) : Prop :=
  a.kind = .annAssign ∨ a.kind = .assign ∧ (a.parts .target).length = 1

instance : DecidablePred NamesValue := fun a =>
  inferInstanceAs (Decidable (a.kind = .annAssign ∨ a.kind = .assign ∧ (a.parts .target).length = 1))

/-- A function of a tree: a definition, or a lambda expression that is assigned. -/
def IsFunctionOf (root n : Node) : Prop :=
  n.kind.isFunctionDef = true ∨
    n.kind = .lambda ∧ ∃ a ∈ root.preorder, a.NamesValue ∧ n.index ∈ (a.parts .value).map index

instance (root : Node) : DecidablePred root.IsFunctionOf := fun n =>
  inferInstanceAs (Decidable (n.kind.isFunctionDef = true ∨
    n.kind = .lambda ∧ ∃ a ∈ root.preorder, a.NamesValue ∧ n.index ∈ (a.parts .value).map index))

/-- The nearest function, lambda expression or class around a node of a tree, if there is one. -/
inductive Nearest (root : Node) : Node → Option Node → Prop
  | root : Nearest root root none
  | inside {n c : Node} {b : Option Node} : Nearest root n b → c ∈ n.children → n.kind.isBlock = true →
    Nearest root c (some n)
  | outside {n c : Node} {b : Option Node} : Nearest root n b → c ∈ n.children → n.kind.isBlock = false →
    Nearest root c b

/-- A definition that the bare name `staticmethod` decorates. -/
def IsStatic (n : Node) : Prop :=
  n.kind.isFunctionDef = true ∧
    ∃ d ∈ n.parts .decorator, ∃ id access, d.kind = .name id access ∧ id.text = "staticmethod"

variable {root n c : Node} {cat : Category} {b b' : Option Node} {found : FoundFunction}

/-! ## What is listed -/

theorem part?_eq_head? (n : Node) (r : Role) : n.part? r = (n.parts r).head? :=
  List.head?_filter.symm

/-- A part of a node is assigned if the node is an assignment and the part its value. -/
theorem isFunctionOf_part (hroot : (root.preorder.map index).Nodup) (hn : n ∈ root.preorder)
    (hc : c ∈ n.children) (hk : c.kind = .lambda) :
    root.IsFunctionOf c ↔ n.NamesValue ∧ c.role = .value := by
  have hmem : c ∈ root.preorder := mem_preorder_trans (mem_preorder_child hc) root hn
  have hdef : c.kind.isFunctionDef = false := by rw [hk]; rfl
  constructor
  · rintro (h | ⟨-, a, ha, hnames, hvalue⟩)
    · rw [hdef] at h
      cases h
    · obtain ⟨v, hv, hindex⟩ := List.mem_map.1 hvalue
      have hva := mem_children_of_mem_parts hv
      have hvroot := mem_preorder_trans (mem_preorder_child hva) root ha
      obtain rfl : v = c := List.inj_on_of_nodup_map hroot hvroot hmem hindex
      obtain rfl : a = n := parent_eq hva hc root hroot ha hn
      exact ⟨hnames, eq_of_beq (List.mem_filter.1 hv).2⟩
  · rintro ⟨hnames, hrole⟩
    refine .inr ⟨hk, n, hn, hnames, List.mem_map_of_mem (List.mem_filter.2 ⟨hc, ?_⟩)⟩
    exact beq_iff_eq.2 hrole

theorem length_target (hn : n.Is cat) (h : n.NamesValue) : (n.parts .target).length = 1 := by
  rcases h with hk | ⟨-, hlength⟩
  · have hlayout := hn.arranged.count_allows n.kind.nodup_layout
    rw [hk] at hlayout
    exact beq_iff_eq.1 (hlayout (.one .target .expression) (by simp [Kind.layout]))
  · exact hlength

theorem length_value (hn : n.Is cat) (h : n.NamesValue) : (n.parts .value).length ≤ 1 := by
  have hlayout := hn.arranged.count_allows n.kind.nodup_layout
  rcases h with hk | ⟨hk, -⟩
  · rw [hk] at hlayout
    exact of_decide_eq_true (hlayout (.optional .value .expression) (by simp [Kind.layout]))
  · rw [hk] at hlayout
    exact (beq_iff_eq.1 (hlayout (.one .value .expression) (by simp [Kind.layout]))).le

/-- What an assignment introduces is its value, if that is a lambda expression. -/
theorem introduced?_of_namesValue (hn : n.Is cat) (h : n.NamesValue) (inClass : Bool) :
    (n.introduced? inClass).toList.map (·.node) = (n.parts .value).filter (·.kind = .lambda) := by
  obtain ⟨target, htarget⟩ := List.length_eq_one_iff.1 (length_target hn h)
  have hlength := length_value hn h
  unfold introduced?
  rw [part?_eq_head?, htarget]
  rcases hvalue : n.parts .value with _ | ⟨value, _ | ⟨other, rest⟩⟩
  · rcases h with hk | ⟨hk, -⟩ <;> simp [hk]
  · rcases h with hk | ⟨hk, -⟩ <;> by_cases hl : value.kind = .lambda <;> simp [hk, hl]
  · rw [hvalue] at hlength
    simp at hlength

theorem introduced?_eq_none (hk : n.kind.isFunctionDef = false) (h : ¬ n.NamesValue) (inClass : Bool) :
    n.introduced? inClass = none := by
  cases hi : n.introduced? inClass with
  | none => rfl
  | some found =>
    unfold introduced? at hi
    split at hi
    · next hkind => simp [hkind, Kind.isFunctionDef] at hk
    · next hkind htarget _ => exact absurd (.inr ⟨hkind, by simp [htarget]⟩) h
    · next hkind _ _ => exact absurd (.inl hkind) h
    · cases hi

/-- A node alone, if it is an assigned lambda expression. -/
def assignedSelf (root n : Node) : List Node :=
  if n.kind = .lambda ∧ root.IsFunctionOf n then [n] else []

/-- The assigned lambda expression among the parts of a node. -/
theorem flatMap_assignedSelf (hroot : (root.preorder.map index).Nodup) (hn : n ∈ root.preorder) :
    n.children.flatMap root.assignedSelf =
      if n.NamesValue then (n.parts .value).filter (·.kind = .lambda) else [] := by
  have hpart : ∀ c ∈ n.children, root.assignedSelf c =
      if n.NamesValue ∧ c.kind = .lambda ∧ c.role = .value then [c] else [] := by
    intro c hc
    by_cases hk : c.kind = .lambda
    · simp [assignedSelf, isFunctionOf_part hroot hn hc hk, hk]
    · simp [assignedSelf, hk]
  rw [List.flatMap_congr hpart]
  by_cases hnames : n.NamesValue
  · have hkept := flatMap_filter (fun c : Node => c.kind = .lambda && c.role == .value)
      (fun c => [c]) n.children
    simp only [List.flatMap_singleton'] at hkept
    simp [hnames, parts, List.filter_filter, hkept]
  · simp [hnames]

/-- A definition introduces itself and an assignment its part. -/
theorem self_append_parts (hroot : (root.preorder.map index).Nodup) (hn : n.Is cat)
    (hmem : n ∈ root.preorder) (inClass : Bool) :
    (if root.IsFunctionOf n then [n] else []) ++ n.children.flatMap root.assignedSelf =
      root.assignedSelf n ++ (n.introduced? inClass).toList.map (·.node) := by
  rw [flatMap_assignedSelf hroot hmem]
  by_cases hnames : n.NamesValue
  · rw [introduced?_of_namesValue hn hnames]
    rcases hnames with hk | ⟨hk, hlength⟩ <;>
      simp [assignedSelf, IsFunctionOf, NamesValue, Kind.isFunctionDef, *]
  · cases hdef : n.kind.isFunctionDef with
    | true =>
      obtain ⟨found, hfound, hnode⟩ := introduced?_of_isFunctionDef hdef inClass
      have hlambda : n.kind ≠ .lambda := fun hk => by simp [hk, Kind.isFunctionDef] at hdef
      simp [IsFunctionOf, hdef, assignedSelf, hlambda, hnames, hfound, hnode]
    | false => simp [introduced?_eq_none hdef hnames, hnames, assignedSelf, IsFunctionOf, hdef]

/-- No node has both an assigned part and a part that introduces functions: the parts of an assignment
are expressions. -/
theorem flatMap_assignedSelf_append (hroot : (root.preorder.map index).Nodup) (hn : n.Is cat)
    (hmem : n ∈ root.preorder) (inClass : Bool) :
    (n.children.flatMap fun c =>
      root.assignedSelf c ++ (c.functions (n.partInClass inClass c.role)).map (·.node)) =
      n.children.flatMap root.assignedSelf ++ n.children.flatMap fun c =>
        (c.functions (n.partInClass inClass c.role)).map (·.node) := by
  by_cases hnames : n.NamesValue
  · have hexpressions : ∀ part ∈ n.kind.layout, part.category.holdsStatements = false := by
      rcases hnames with hk | ⟨hk, -⟩ <;> simp [hk, Kind.layout, Category.holdsStatements]
    have hnone : (n.children.flatMap fun c =>
        (c.functions (n.partInClass inClass c.role)).map (·.node)) = [] := by
      refine List.flatMap_eq_nil_iff.2 fun c hc => ?_
      obtain ⟨part, hpart, -, hcIs⟩ := hn.arranged.exists_part c hc
      rw [functions_eq_nil c hcIs (hexpressions part hpart), List.map_nil]
    rw [hnone, List.append_nil]
    refine List.flatMap_congr fun c hc => ?_
    rw [List.flatMap_eq_nil_iff.1 hnone c hc, List.append_nil]
  · have hnone : n.children.flatMap root.assignedSelf = [] := by
      rw [flatMap_assignedSelf hroot hmem, if_neg hnames]
    rw [hnone, List.nil_append]
    refine List.flatMap_congr fun c hc => ?_
    rw [List.flatMap_eq_nil_iff.1 hnone c hc, List.nil_append]

/-- The functions below a node are those that it and its parts introduce. The node itself, if it is
an assigned lambda expression, is introduced further up. -/
theorem filter_preorder (hroot : (root.preorder.map index).Nodup) :
    ∀ (n : Node) {cat : Category} (inClass : Bool), n.Is cat → n ∈ root.preorder →
      n.preorder.filter root.IsFunctionOf =
        root.assignedSelf n ++ (n.functions inClass).map (·.node) := by
  refine induction fun n ih cat inClass hn hmem => ?_
  have hparts : (n.children.flatMap fun c => c.preorder.filter root.IsFunctionOf) =
      n.children.flatMap fun c =>
        root.assignedSelf c ++ (c.functions (n.partInClass inClass c.role)).map (·.node) := by
    refine List.flatMap_congr fun c hc => ?_
    obtain ⟨part, -, -, hcIs⟩ := hn.arranged.exists_part c hc
    exact ih c hc _ hcIs (mem_preorder_trans (mem_preorder_child hc) root hmem)
  calc
    n.preorder.filter root.IsFunctionOf
      = (if root.IsFunctionOf n then [n] else []) ++
          n.children.flatMap fun c => c.preorder.filter root.IsFunctionOf := by
        rw [preorder_eq, List.filter_cons, List.filter_flatMap]
        split <;> simp_all
    _ = ((if root.IsFunctionOf n then [n] else []) ++ n.children.flatMap root.assignedSelf) ++
          n.children.flatMap fun c => (c.functions (n.partInClass inClass c.role)).map (·.node) := by
        rw [hparts, flatMap_assignedSelf_append hroot hn hmem, List.append_assoc]
    _ = root.assignedSelf n ++ (n.functions inClass).map (·.node) := by
        rw [self_append_parts hroot hn hmem inClass, functions_eq_children hn, List.map_append,
          List.map_flatMap, List.append_assoc]

/-- The functions of a file are the definitions and the assigned lambda expressions of its tree, in
preorder. -/
theorem map_node_functions (hroot : (root.preorder.map index).Nodup) (h : root.Is .file) :
    (root.functions false).map (·.node) = root.preorder.filter root.IsFunctionOf := by
  have hself : root.assignedSelf root = [] := by simp [assignedSelf, Kind.eq_module h.category]
  rw [filter_preorder hroot root false h root.mem_preorder_self, hself, List.nil_append]

/-! ## What stands directly in a class -/

theorem Nearest.mem_preorder (h : Nearest root n b) : n ∈ root.preorder := by
  induction h with
  | root => exact root.mem_preorder_self
  | inside _ hc _ ih | outside _ hc _ ih => exact mem_preorder_trans (mem_preorder_child hc) root ih

theorem Nearest.unique (hroot : (root.preorder.map index).Nodup) (h : Nearest root n b)
    (h' : Nearest root n b') : b = b' := by
  have top : ∀ {m : Node} {o : Option Node}, Nearest root m o → root ∉ m.children := fun hm hc =>
    notMem_preorder_of_child hroot hc hm.mem_preorder
  induction h generalizing b' with
  | root =>
    cases h' with
    | root => rfl
    | inside hm hc | outside hm hc => exact absurd hc (top hm)
  | inside hn hc hk ih =>
    cases h' with
    | root => exact absurd hc (top hn)
    | inside hm hc' | outside hm hc' hk' =>
      obtain rfl := parent_eq hc hc' root hroot hn.mem_preorder hm.mem_preorder
      simp_all
  | outside hn hc hk ih =>
    cases h' with
    | root => exact absurd hc (top hn)
    | inside hm hc' hk' =>
      obtain rfl := parent_eq hc hc' root hroot hn.mem_preorder hm.mem_preorder
      simp_all
    | outside hm hc' =>
      obtain rfl := parent_eq hc hc' root hroot hn.mem_preorder hm.mem_preorder
      exact ih hm

/-- Whether there is a construct and it is a class. -/
def isClass? (b : Option Node) : Bool := b.any (·.kind.scopeKind? == some .classBody)

theorem isClass?_eq_true : isClass? b = true ↔ ∃ c name, b = some c ∧ c.kind = .classDef name := by
  unfold isClass?
  cases b with
  | none => simp
  | some c => cases hk : c.kind <;> simp [hk, Kind.scopeKind?]

theorem partInClass_of_isBlock (hk : n.kind.isBlock = true) (inClass : Bool) :
    n.partInClass inClass .body = isClass? (some n) := by
  unfold partInClass
  cases h : n.kind <;> simp_all [Kind.isBlock, isClass?, Kind.scopeKind?]

theorem partInClass_of_not_isBlock (hk : n.kind.isBlock = false) (inClass : Bool) (r : Role) :
    n.partInClass inClass r = inClass := by
  unfold partInClass
  split <;> simp_all [Kind.isBlock]

/-- Where statements stand, the flag tells of the nearest block. -/
theorem Nearest.statementPart (h : Nearest root n b) (hc : c ∈ n.children) {part : Slot}
    (hpart : part ∈ n.kind.layout) (hrole : c.role = part.role)
    (hstatements : part.category.holdsStatements = true) :
    ∃ b', Nearest root c b' ∧ n.partInClass (isClass? b) c.role = isClass? b' := by
  cases hk : n.kind.isBlock with
  | true =>
    rw [hrole, n.kind.isBlock_layout part hpart hstatements hk]
    exact ⟨some n, .inside h hc hk, partInClass_of_isBlock hk _⟩
  | false => exact ⟨b, .outside h hc hk, partInClass_of_not_isBlock hk _ _⟩

theorem Nearest.introduced (h : Nearest root n b) (hf : n.introduced? (isClass? b) = some found) :
    Nearest root found.node b ∧ found.inClass = isClass? b := by
  rcases introduced?_cases hf with ⟨name, isAsync, -, rfl⟩ | ⟨hk, target, value, hv, -, rfl⟩
  · exact ⟨h, rfl⟩
  · refine ⟨.outside h (mem_children_of_part? hv) ?_, rfl⟩
    rcases hk with hk | hk <;> simp [hk, Kind.isBlock]

/-- The inventory says of a function that it stands directly in a class where the nearest block
around it is a class. -/
theorem exists_nearest_of_mem_functions : ∀ (n : Node) {cat : Category} {b : Option Node}, n.Is cat →
    Nearest root n b → ∀ found ∈ n.functions (isClass? b),
      ∃ b', Nearest root found.node b' ∧ found.inClass = isClass? b' := by
  refine induction fun n ih cat b hn h found hf => ?_
  rw [functions_eq_children hn, List.mem_append, Option.mem_toList, List.mem_flatMap] at hf
  rcases hf with hf | ⟨c, hc, hf⟩
  · exact ⟨b, h.introduced hf⟩
  · obtain ⟨part, hpart, hrole, hcIs⟩ := hn.arranged.exists_part c hc
    -- Below an expression the flag may be wrong, but there is nothing to flag.
    cases hstatements : part.category.holdsStatements with
    | true =>
      obtain ⟨b', hb', hflag⟩ := h.statementPart hc hpart hrole hstatements
      exact ih c hc hcIs hb' found (hflag ▸ hf)
    | false =>
      rw [functions_eq_nil c hcIs hstatements] at hf
      cases hf

/-! ## The receiver -/

theorem mem_parts {r : Role} : c ∈ n.parts r ↔ c ∈ n.children ∧ c.role = r := by
  simp [parts]

theorem isSome_firstPositional? : n.firstPositional?.isSome = true ↔
    ∃ a ∈ n.parameters, a.role = .posonly ∨ a.role = .positional := by
  unfold firstPositional? parameters
  cases n.part? .signature with
  | none => simp
  | some s =>
    rw [Option.bind_some, List.isSome_head?, ← List.length_pos_iff, List.length_pos_iff_exists_mem]
    refine exists_congr fun a => ?_
    simp only [List.mem_append, mem_parts]
    constructor
    · rintro (⟨ha, hrole⟩ | ⟨ha, hrole⟩) <;> simp [ha, hrole]
    · rintro ⟨h, hrole | hrole⟩ <;> simp_all

theorem any_isStatic (hk : n.kind.isFunctionDef = true) : ((n.parts .decorator).any fun d =>
    match d.kind with
    | .name id _ => id.text == "staticmethod"
    | _ => false) = true ↔ n.IsStatic := by
  rw [IsStatic, List.any_eq_true, and_iff_right hk]
  refine exists_congr fun d => and_congr_right fun _ => ?_
  split
  · next id access hd => simp [hd]
  · next hd =>
    refine iff_of_false (by simp) ?_
    rintro ⟨id, access, hname, -⟩
    exact hd id access hname

/-- What a function in a class needs to have a receiver. -/
theorem isSome_receiverName (hn : n.Is cat) (hk : n.kind.isFunction = true) (inClass : Bool) :
    (n.receiverName inClass).isSome = true ↔ inClass = true ∧
      (∃ a ∈ n.parameters, a.role = .posonly ∨ a.role = .positional) ∧ ¬ n.IsStatic := by
  rw [← isSome_firstPositional?]
  cases inClass with
  | false => simp [receiverName]
  | true =>
    rcases (Kind.isFunction_cases hk).2 with ⟨hdef, -⟩ | ⟨hdef, hlambda⟩
    · have hstatic := any_isStatic hdef
      unfold receiverName firstPositional?
      split
      · next h => cases h
      · split
        · next h => simp [hstatic.1 h]
        · next h =>
          have hnot : ¬ n.IsStatic := fun hs => h (hstatic.2 hs)
          cases n.part? .signature <;> simp [hnot]
    · simp [receiverName_lambda hn hlambda, IsStatic, hdef]

end Node

namespace Project

variable {P : Project}

/-- A file of the project's own whose path holds none of the patterns. -/
def IsCovered (ignore : List String) (f : SourceFile) : Prop :=
  f.isProject = true ∧ ∀ p ∈ ignore, p ≠ "" →
    ¬ (SourcePath.forward p).toList <:+: (SourcePath.forward f.path).toList

instance (ignore : List String) : DecidablePred (IsCovered ignore) := fun f =>
  inferInstanceAs (Decidable (f.isProject = true ∧ ∀ p ∈ ignore, p ≠ "" →
    ¬ (SourcePath.forward p).toList <:+: (SourcePath.forward f.path).toList))

theorem isAnalyzed_iff {ignore : List String} {f : SourceFile} :
    isAnalyzed ignore f = true ↔ IsCovered ignore f := by
  simp [isAnalyzed, isIgnored, IsCovered, Text.occursIn_iff]

/-- What is asked of the inventory of a project. Of the project's own files that no pattern matches,
in their order, it lists each definition and each assigned lambda expression once and nothing else,
in preorder. A function has a receiver exactly if the nearest function, lambda expression or class
around it is a class, it has a positional parameter, and it is not a definition that the bare name
`staticmethod` decorates. -/
structure IsInventory (P : Project) (ignore : List String) (functions : List Function) : Prop where
  definitions : functions.map Function.definition =
    (P.files.zipIdx.filter fun x => IsCovered ignore x.1.source).flatMap fun x =>
      (x.1.source.tree.nodes.filter x.1.source.tree.root.IsFunctionOf).map (Definition.mk x.2)
  receivers : ∀ f ∈ functions, ∃ file, P.file? f.file = some file ∧
    (f.receiver.isSome = true ↔
      (∃ c name, file.source.tree.root.Nearest f.node (some c) ∧ c.kind = .classDef name) ∧
      (∃ a ∈ f.node.parameters, a.role = .posonly ∨ a.role = .positional) ∧ ¬ f.node.IsStatic)

theorem map_definition_functions (P : Project) (ignore : List String) :
    (P.functions ignore).map Function.definition =
      (P.files.zipIdx.filter fun x => IsCovered ignore x.1.source).flatMap fun x =>
        (x.1.source.tree.nodes.filter x.1.source.tree.root.IsFunctionOf).map (Definition.mk x.2) := by
  rw [flatMap_filter, functions, List.map_flatMap]
  refine List.flatMap_congr fun x _ => ?_
  have hnodes := Node.map_node_functions x.1.source.tree.nodup_index x.1.source.tree.is_file
  by_cases hcovered : IsCovered ignore x.1.source
  · simp only [isAnalyzed_iff.2 hcovered, hcovered, if_true, decide_true, Tree.nodes, ← hnodes,
      List.map_map]
    rfl
  · have hanalyzed : ¬ isAnalyzed ignore x.1.source = true := mt isAnalyzed_iff.1 hcovered
    simp only [hanalyzed, hcovered]
    rfl

theorem isInventory_functions (P : Project) (ignore : List String) :
    P.IsInventory ignore (P.functions ignore) := by
  refine ⟨P.map_definition_functions ignore, fun f hf => ?_⟩
  obtain ⟨i, file, hi, -, found, hfound, rfl⟩ := mem_functions.1 hf
  have hroot := file.source.tree.is_file
  refine ⟨file, hi, ?_⟩
  obtain ⟨b, hb, hflag⟩ := Node.exists_nearest_of_mem_functions _ hroot .root found hfound
  have hIs := hroot.of_mem_preorder _ hb.mem_preorder
  have hreceiver := Node.isSome_receiverName hIs (isFunction_of_mem hf) found.inClass
  have hclass : found.inClass = true ↔
      ∃ c name, file.source.tree.root.Nearest found.node (some c) ∧ c.kind = .classDef name := by
    rw [hflag, Node.isClass?_eq_true]
    constructor
    · rintro ⟨c, name, rfl, hk⟩
      exact ⟨c, name, hb, hk⟩
    · rintro ⟨c, name, hc, hk⟩
      exact ⟨c, name, hb.unique file.source.tree.nodup_index hc, hk⟩
  rw [hclass] at hreceiver
  exact hreceiver

/-- A file that nests too deeply for the walk for functions, though its scopes could be built. -/
def IsTooDeep (f : ScopedFile) : Prop :=
  maxCalls < f.source.tree.root.calls Node.functionDescent ()

theorem collect_cases (P : Project) (ignore : List String) :
    (∃ f ∈ P.files, IsCovered ignore f.source ∧ IsTooDeep f) ∧ P.collect ignore = .error .tooDeep ∨
      (∀ f ∈ P.files, IsCovered ignore f.source → ¬ IsTooDeep f) ∧
        P.collect ignore = .ok (P.functions ignore) := by
  unfold collect
  split
  · next hall =>
    refine .inr ⟨fun f hf hcovered => ?_, rfl⟩
    have hwalk := List.all_eq_true.1 hall f hf
    simpa [isAnalyzed_iff.2 hcovered, isWalkable, IsTooDeep] using hwalk
  · next hall =>
    simp only [List.all_eq_true, not_forall] at hall
    obtain ⟨f, hf, hnot⟩ := hall
    simp only [isWalkable, Bool.or_eq_true, Bool.not_eq_true', decide_eq_true_eq, not_or,
      Bool.not_eq_false, isAnalyzed_iff, Nat.not_le] at hnot
    exact .inl ⟨⟨f, hf, hnot⟩, rfl⟩

/-- **The inventory is exact, or a file nests too deeply.** Collecting the functions breaks off
exactly if a covered file nests deeper than the walk can go, and otherwise gives exactly the
functions of the project. -/
theorem inventory_exact (P : Project) (ignore : List String) :
    (P.collect ignore = .error .tooDeep ∧ ∃ f ∈ P.files, IsCovered ignore f.source ∧ IsTooDeep f) ∨
      (∃ functions, P.collect ignore = .ok functions ∧ P.IsInventory ignore functions) ∧
        ∀ f ∈ P.files, IsCovered ignore f.source → ¬ IsTooDeep f := by
  rcases P.collect_cases ignore with ⟨hdeep, hcollect⟩ | ⟨hshallow, hcollect⟩
  · exact .inl ⟨hcollect, hdeep⟩
  · exact .inr ⟨⟨_, hcollect, P.isInventory_functions ignore⟩, hshallow⟩

/-- Functions in a class, in a branch of it, in a method and in a class in a function, and lambda
expressions that are assigned or not. -/
def definedInside : List (String × String) :=
  [("m.py", "class A:\n  if x:\n    def f(self): g = h = lambda: 0\n  k = lambda a: a\n" ++
    "  @staticmethod\n  def s(a): p[0]: int = lambda: [lambda: 1]\n" ++
    "def o(a):\n  class B:\n    async def m(*a): pass\n")]

theorem inventory_exact_nested :
    ∃ P functions f file, ofTexts definedInside [] = .ok P ∧ P.collect [] = .ok functions ∧
      functions.map (fun f => (f.id, f.node.index, f.receiver)) =
        [("m.py:21:f", 4, some "self"), ("m.py:58:k", 15, some "a"), ("m.py:88:s", 19, none),
         ("m.py:110:<anonymous@6:25>", 27, none), ("m.py:130:o", 34, none), ("m.py:155:m", 38, none)] ∧
      ((P.files.zipIdx.filter fun x => IsCovered [] x.1.source).flatMap fun x =>
        (x.1.source.tree.nodes.filter x.1.source.tree.root.IsFunctionOf).map (·.index)) =
          [4, 15, 19, 27, 34, 38] ∧
      f ∈ functions ∧ f.id = "m.py:58:k" ∧ P.file? f.file = some file ∧
      ∃ c name, file.source.tree.root.Nearest f.node (some c) ∧ c.kind = .classDef name := by
  have heval : (ofTexts definedInside []).toOption.map (fun P =>
      (P.collect []).toOption.map fun functions =>
        functions.map fun f => (f.id, f.node.index, f.receiver)) =
        some (some [("m.py:21:f", 4, some "self"), ("m.py:58:k", 15, some "a"),
          ("m.py:88:s", 19, none), ("m.py:110:<anonymous@6:25>", 27, none), ("m.py:130:o", 34, none),
          ("m.py:155:m", 38, none)]) := by
    decide +kernel
  obtain ⟨P, hP, hcollects⟩ := exists_ok_of_map_toOption heval
  obtain ⟨functions, hcollect, hfunctions⟩ := exists_ok_of_map_toOption hcollects
  obtain ⟨herror, -⟩ | ⟨⟨_, hok, hlisted, hreceivers⟩, -⟩ := inventory_exact P []
  · cases hcollect.symm.trans herror
  obtain rfl := Except.ok.inj (hcollect.symm.trans hok)
  have hmem : ("m.py:58:k", 15, some "a") ∈
      functions.map fun f => (f.id, f.node.index, f.receiver) := by simp [hfunctions]
  obtain ⟨f, hf, he⟩ := List.mem_map.1 hmem
  simp only [Prod.mk.injEq] at he
  obtain ⟨file, hfile, hreceiver⟩ := hreceivers f hf
  refine ⟨P, functions, f, file, hP, hcollect, hfunctions, ?_, hf, he.1, hfile,
    (hreceiver.1 (by simp [he])).1⟩
  have hnumbers := congrArg (List.map (·.node.index)) hlisted
  have hlist := congrArg (List.map fun x : String × Nat × Option String => x.2.1) hfunctions
  simp only [List.map_map, List.map_flatMap, Function.comp_def] at hnumbers hlist
  exact hnumbers.symm.trans hlist

/-- So many lambda expressions, each the body of the one before, on one line from a column on. -/
def lambdasFrom (column : Nat) : Nat → Node
  | 0 => .new (.constant .number) ⟨⟨1, column⟩, ⟨1, column + 1⟩⟩ []
  | n + 1 =>
    let body := lambdasFrom (column + 8) n
    let span : Span := ⟨⟨1, column⟩, body.span.stop⟩
    .new .lambda span [(Node.new .arguments span []).as .signature, body.as .body]

/-- The file `x = lambda: lambda: … 0`. -/
def assignedLambdas (n : Nat) : SourceFile :=
  let value := lambdasFrom 4 n
  let target : Node := .new (.name ⟨"x", rfl⟩ .write) ⟨⟨1, 0⟩, ⟨1, 1⟩⟩ []
  let assignment : Node := .new .assign ⟨⟨1, 0⟩, value.span.stop⟩ [target.as .target, value.as .value]
  ⟨"m.py", "m", .ofText "x = ", (Tree.ofNode? (.new .module default [assignment.as .body])).getD default⟩

theorem inventory_breaks_off_at_lambdas :
    (ofFiles [assignedLambdas 280] []).skipped = [] ∧
      ((ofFiles [assignedLambdas 280] []).functions []).map (·.id) = ["m.py:4:x"] ∧
      (ofFiles [assignedLambdas 280] []).collect [] = .error .tooDeep := by
  have hskipped : (ofFiles [assignedLambdas 280] []).skipped = [] := by decide +kernel
  have hfunctions : ((ofFiles [assignedLambdas 280] []).functions []).map (·.id) = ["m.py:4:x"] := by
    decide +kernel
  have hcollect : ((ofFiles [assignedLambdas 280] []).collect []).toOption.isNone = true := by
    decide +kernel
  refine ⟨hskipped, hfunctions, ?_⟩
  rcases collect_cases (ofFiles [assignedLambdas 280] []) [] with ⟨-, h⟩ | ⟨-, h⟩
  · exact h
  · rw [h] at hcollect
    cases hcollect

end Project

end EffectGraph
