/-
What the inventory of a project holds: every definition of a function in an
analysed file (`exists_function_of_mem_nodes`), and no construct twice
(`eq_of_same`), so that a construct in the inventory has one id
(`idOf?_eq_some_iff`).

The walk leaves some parts out and takes others out of their order. Statements
are never among them, and only statements introduce functions, so the functions
are those that a walk over all parts finds, in the same order
(`functions_eq_children`).
-/
import EffectGraph.Proofs.Syntax.Shape

namespace EffectGraph

theorem Route.order_map {α β : Type} (g : α → β) (parts : List (Role × α)) (r : Route) :
    r.order (parts.map fun x => (x.1, g x.2)) = (r.order parts).map g := by
  cases r with
  | all n => simp [order]
  | only roles => simp [order, List.map_flatMap, List.filter_map, Function.comp_def]

/-- The statements that may introduce a function. -/
def Kind.introduces : Kind → Bool
  | functionDef .. | assign | annAssign => true
  | _ => false

/-- The phrases that may hold statements. -/
def Category.holdsStatements : Category → Bool
  | file | statement | handler | matchCase => true
  | _ => false

theorem Kind.holdsStatements_layout (k : Kind) (h : k.category.holdsStatements = false) :
    k.introduces = false ∧ ∀ part ∈ k.layout, part.category.holdsStatements = false := by
  cases k <;> simp_all [category, layout, introduces, Category.holdsStatements]

namespace Node

/-! ## The walk -/

/-- The parts of a node that the walk for functions goes into, in its order. -/
def walked (n : Node) : List Node := n.route.order (n.children.map fun c => (c.role, c))

theorem partFunctions_eq (n : Node) (inClass : Bool) (cs : List Node) :
    partFunctions n inClass cs =
      cs.map fun c => (c.role, c.functions (n.partInClass inClass c.role)) := by
  induction cs with
  | nil => rfl
  | cons c cs ih => rw [partFunctions, ih, List.map_cons]

theorem functions_eq (n : Node) (inClass : Bool) :
    n.functions inClass = (n.introduced? inClass).toList ++
      n.walked.flatMap fun c => c.functions (n.partInClass inClass c.role) := by
  have hparts := Route.order_map (fun c : Node => c.functions (n.partInClass inClass c.role))
    (n.children.map fun c => (c.role, c)) n.route
  rw [List.map_map] at hparts
  rw [walked, List.flatMap_def, ← hparts]
  cases n with
  | mk i r k s cs => rw [functions, partFunctions_eq]; rfl

/-- The walk goes into all parts, or it goes through a class or an assignment role by role. -/
theorem walked_cases (n : Node) : n.walked = n.children ∨
    (∃ name, n.kind = .classDef name) ∧ n.walked = [.body, .decorator, .base].flatMap n.parts ∨
    (n.kind = .assign ∨ n.kind = .annAssign) ∧ n.walked = [.value, .target].flatMap n.parts := by
  have only : ∀ roles : List (Role × Nat), n.route = .only roles →
      n.walked = (roles.map (·.1)).flatMap n.parts := by
    intro roles h
    simp [walked, h, Route.order, List.flatMap_map, List.filter_map, Function.comp_def, parts]
  have all : ∀ calls, n.route = .all calls → n.walked = n.children := by
    intro calls h
    simp [walked, h, Route.order, Function.comp_def]
  have hroute : n.route = n.route := rfl
  conv at hroute => rhs; unfold route
  split at hroute
  · exact .inl (all _ hroute)
  · exact .inl (all _ hroute)
  · next name hk => exact .inr (.inl ⟨⟨name, hk⟩, only _ hroute⟩)
  · next hk =>
    split at hroute
    · exact .inr (.inr ⟨.inl hk, only _ hroute⟩)
    · exact .inl (all _ hroute)
  · next hk =>
    split at hroute
    · exact .inr (.inr ⟨.inr hk, only _ hroute⟩)
    · exact .inl (all _ hroute)
  · exact .inl (all _ hroute)

/-- The walk goes into all parts, or into those in some roles, role by role. -/
theorem walked_roles (n : Node) : n.walked = n.children ∨
    ∃ roles : List Role, roles.Nodup ∧ n.walked = roles.flatMap n.parts := by
  rcases n.walked_cases with he | ⟨-, he⟩ | ⟨-, he⟩
  · exact .inl he
  · exact .inr ⟨_, by decide, he⟩
  · exact .inr ⟨_, by decide, he⟩

theorem mem_children_of_mem_walked {n c : Node} (h : c ∈ n.walked) : c ∈ n.children := by
  rcases n.walked_roles with he | ⟨roles, -, he⟩
  · exact he ▸ h
  · rw [he, List.mem_flatMap] at h
    obtain ⟨r, -, hc⟩ := h
    exact mem_children_of_mem_parts hc

/-- What holds of any two parts holds of any two parts that the walk goes into. -/
theorem pairwise_walked {R : Node → Node → Prop} (hR : ∀ a b, R a b → R b a) {n : Node}
    (h : n.children.Pairwise R) : n.walked.Pairwise R := by
  rcases n.walked_roles with he | ⟨roles, hroles, he⟩
  · exact he ▸ h
  rw [he, List.pairwise_flatMap]
  refine ⟨fun r _ => h.sublist List.filter_sublist, hroles.imp fun {r r'} hne a ha b hb => ?_⟩
  obtain ⟨ha, hra⟩ := List.mem_filter.1 ha
  obtain ⟨hb, hrb⟩ := List.mem_filter.1 hb
  have : Std.Symm R := ⟨hR⟩
  refine h.forall ha hb ?_
  rintro rfl
  exact hne ((eq_of_beq hra).symm.trans (eq_of_beq hrb))

/-- A statement introduces itself, or a lambda expression that it assigns. -/
theorem introduced?_cases {n : Node} {inClass : Bool} {found : FoundFunction}
    (h : n.introduced? inClass = some found) :
    (∃ name isAsync, n.kind = .functionDef name isAsync ∧ found = ⟨n, some name, inClass⟩) ∨
      ((n.kind = .assign ∨ n.kind = .annAssign) ∧ ∃ target value, n.part? .value = some value ∧
        value.kind = .lambda ∧ found = ⟨value, targetName? target, inClass⟩) := by
  have assigned : ∀ {target value : Node},
      (if value.kind == .lambda then some (⟨value, target.targetName?, inClass⟩ : FoundFunction)
        else none) = some found →
      value.kind = .lambda ∧ found = ⟨value, target.targetName?, inClass⟩ := by
    intro target value h
    split at h
    · next hl => exact ⟨eq_of_beq hl, (Option.some.inj h).symm⟩
    · cases h
  unfold introduced? at h
  split at h
  · next name isAsync hk => exact .inl ⟨name, isAsync, hk, (Option.some.inj h).symm⟩
  · next target value hk _ hv => exact .inr ⟨.inl hk, target, value, hv, assigned h⟩
  · next target value hk _ hv => exact .inr ⟨.inr hk, target, value, hv, assigned h⟩
  · cases h

theorem introduced?_of_isFunctionDef {n : Node} (h : n.kind.isFunctionDef = true) (inClass : Bool) :
    ∃ found, n.introduced? inClass = some found ∧ found.node = n := by
  unfold Kind.isFunctionDef at h
  split at h
  · next name isAsync hk => exact ⟨⟨n, some name, inClass⟩, by simp [introduced?, hk], rfl⟩
  · cases h

theorem isFunction_of_introduced? {n : Node} {inClass : Bool} {found : FoundFunction}
    (h : n.introduced? inClass = some found) : found.node.kind.isFunction = true := by
  rcases introduced?_cases h with ⟨name, isAsync, hk, rfl⟩ | ⟨-, target, value, -, hk, rfl⟩ <;>
    simp [hk, Kind.isFunction]

theorem isFunction_of_mem_functions :
    ∀ (n : Node) (inClass : Bool), ∀ found ∈ n.functions inClass,
      found.node.kind.isFunction = true := by
  refine induction fun n ih inClass found hf => ?_
  rw [functions_eq, List.mem_append, Option.mem_toList, List.mem_flatMap] at hf
  rcases hf with hf | ⟨c, hc, hf⟩
  · exact isFunction_of_introduced? hf
  · exact ih c (mem_children_of_mem_walked hc) _ found hf

theorem mem_preorder_of_mem_functions :
    ∀ (n : Node) (inClass : Bool), ∀ found ∈ n.functions inClass, found.node ∈ n.preorder := by
  refine induction fun n ih inClass found hf => ?_
  rw [functions_eq, List.mem_append, Option.mem_toList, List.mem_flatMap] at hf
  rcases hf with hf | ⟨c, hc, hf⟩
  · rcases introduced?_cases hf with ⟨name, isAsync, -, rfl⟩ | ⟨-, target, value, hv, -, rfl⟩
    · exact n.mem_preorder_self
    · exact mem_preorder_child (mem_children_of_part? hv)
  · have hc := mem_children_of_mem_walked hc
    exact mem_preorder_of_child hc (ih c hc _ found hf)

/-! ## All parts -/

theorem introduced?_of_not_introduces {n : Node} (h : n.kind.introduces = false) (inClass : Bool) :
    n.introduced? inClass = none := by
  cases hi : n.introduced? inClass with
  | none => rfl
  | some found =>
    rcases introduced?_cases hi with ⟨name, isAsync, hk, -⟩ | ⟨hk | hk, -⟩ <;>
      simp [hk, Kind.introduces] at h

/-- Only statements introduce functions, and an expression holds no statements. -/
theorem functions_eq_nil : ∀ (n : Node) {cat : Category}, n.Is cat → cat.holdsStatements = false →
    ∀ inClass, n.functions inClass = [] := by
  refine induction fun n ih cat hn hcat inClass => ?_
  obtain ⟨hk, hparts⟩ := n.kind.holdsStatements_layout (hn.category ▸ hcat)
  rw [functions_eq, introduced?_of_not_introduces hk, Option.toList_none, List.nil_append,
    List.flatMap_eq_nil_iff]
  intro c hc
  have hc := mem_children_of_mem_walked hc
  obtain ⟨part, hpart, -, hcIs⟩ := hn.arranged.exists_part c hc
  exact ih c hc hcIs (hparts part hpart) _

theorem flatMap_filter_of_nil {α β : Type} {p : α → Bool} {f : α → List β} {l : List α}
    (h : ∀ a ∈ l, p a = false → f a = []) : (l.filter p).flatMap f = l.flatMap f := by
  induction l with
  | nil => rfl
  | cons a l ih =>
    have ih := ih fun b hb => h b (List.mem_cons_of_mem _ hb)
    cases hp : p a with
    | true => simp [hp, ih]
    | false => simp [hp, ih, h a List.mem_cons_self hp]

/-- What the walk leaves out or takes out of its order holds no statements. -/
theorem flatMap_walked {n : Node} {cat : Category} (hn : n.Is cat) {β : Type} {f : Node → List β}
    (hf : ∀ c ∈ n.children, ∀ cat : Category, c.Is cat → cat.holdsStatements = false → f c = []) :
    n.walked.flatMap f = n.children.flatMap f := by
  have nothing : ∀ c ∈ n.children, (∀ slot ∈ n.kind.layout, slot.role = c.role →
      slot.category.holdsStatements = false) → f c = [] := by
    intro c hc hrole
    obtain ⟨slot, hslot, he, hcIs⟩ := hn.arranged.exists_part c hc
    exact hf c hc _ hcIs (hrole slot hslot he.symm)
  have role : ∀ r, (∀ slot ∈ n.kind.layout, slot.role = r → slot.category.holdsStatements = false) →
      (n.parts r).flatMap f = [] := by
    intro r hr
    refine List.flatMap_eq_nil_iff.2 fun c hc => ?_
    obtain ⟨hc, hrole⟩ := List.mem_filter.1 hc
    exact nothing c hc fun slot hslot he => hr slot hslot (he.trans (eq_of_beq hrole))
  rcases n.walked_cases with he | ⟨⟨name, hk⟩, he⟩ | ⟨hk, he⟩
  · rw [he]
  · -- Only the body of a class holds statements, and the walk takes it in order.
    have hbody : (n.parts .body).flatMap f = n.children.flatMap f := by
      refine flatMap_filter_of_nil fun c hc hrole => nothing c hc fun slot hslot he => ?_
      have hne : slot.role ≠ .body := by simpa [he] using hrole
      rw [hk] at hslot
      simp only [Kind.layout, List.mem_cons, List.not_mem_nil, or_false] at hslot
      rcases hslot with rfl | rfl | rfl | rfl
      · rfl
      · rfl
      · exact absurd rfl hne
      · rfl
    have hdecorator := role .decorator (by simp [hk, Kind.layout, Category.holdsStatements])
    have hbase := role .base (by simp [hk, Kind.layout, Category.holdsStatements])
    simp [he, hbody, hdecorator, hbase]
  · have hparts : ∀ slot ∈ n.kind.layout, slot.category.holdsStatements = false := by
      rcases hk with hk | hk <;> simp [hk, Kind.layout, Category.holdsStatements]
    have hnone := List.flatMap_eq_nil_iff.2 fun c hc => nothing c hc fun slot hslot _ => hparts slot hslot
    rw [hnone, he]
    simp [role _ fun slot hslot _ => hparts slot hslot]

/-- The functions of a well-formed construct are those of all its parts. -/
theorem functions_eq_children {n : Node} {cat : Category} (hn : n.Is cat) (inClass : Bool) :
    n.functions inClass = (n.introduced? inClass).toList ++
      n.children.flatMap fun c => c.functions (n.partInClass inClass c.role) := by
  rw [functions_eq, flatMap_walked hn fun c _ cat hc hcat => functions_eq_nil c hc hcat _]

/-- Every definition of a function below a node is among its functions. -/
theorem exists_mem_functions {m : Node} (hm : m.kind.isFunctionDef = true) :
    ∀ (n : Node) {cat : Category} (inClass : Bool), n.Is cat → m ∈ n.preorder →
      ∃ found ∈ n.functions inClass, found.node = m := by
  refine induction fun n ih cat inClass hn h => ?_
  rw [preorder_eq, List.mem_cons, List.mem_flatMap] at h
  rw [functions_eq_children hn]
  rcases h with rfl | ⟨c, hc, h⟩
  · obtain ⟨found, hf, hn⟩ := introduced?_of_isFunctionDef hm inClass
    exact ⟨found, by simp [hf], hn⟩
  · obtain ⟨part, -, -, hcIs⟩ := hn.arranged.exists_part c hc
    obtain ⟨found, hf, hn⟩ := ih c hc (n.partInClass inClass c.role) hcIs h
    exact ⟨found, List.mem_append_right _ (List.mem_flatMap.2 ⟨c, hc, hf⟩), hn⟩

/-- The numbers of the functions of a node. -/
def functionNumbers (n : Node) (inClass : Bool) : List Nat :=
  (n.functions inClass).map (·.node.index)

theorem functionNumbers_eq (n : Node) (inClass : Bool) :
    n.functionNumbers inClass = (n.introduced? inClass).toList.map (·.node.index) ++
      n.walked.flatMap fun c => c.functionNumbers (n.partInClass inClass c.role) := by
  rw [functionNumbers, functions_eq, List.map_append, List.map_flatMap]
  rfl

theorem functionNumbers_subset (n : Node) (inClass : Bool) :
    n.functionNumbers inClass ⊆ n.preorder.map index := by
  intro i hi
  obtain ⟨found, hf, rfl⟩ := List.mem_map.1 hi
  exact List.mem_map_of_mem (mem_preorder_of_mem_functions n inClass found hf)

/-- No function is listed twice. A lambda expression is listed where it is assigned and not again
as a part of the assignment, which is why a node that is no definition is not among its own
functions. -/
theorem nodup_functionNumbers :
    ∀ (n : Node) (inClass : Bool), (n.preorder.map index).Nodup →
      (n.functionNumbers inClass).Nodup ∧
        (n.kind.isFunctionDef = false → n.index ∉ n.functionNumbers inClass) := by
  refine induction fun n ih inClass h => ?_
  obtain ⟨hself, hnodup, hdisj⟩ := nodup_children h
  have hparts : (n.walked.flatMap fun c =>
      c.functionNumbers (n.partInClass inClass c.role)).Nodup := by
    rw [List.nodup_flatMap]
    refine ⟨fun c hc => ?_, (pairwise_walked (fun _ _ hab => List.disjoint_comm.1 hab) hdisj).imp ?_⟩
    · have hc := mem_children_of_mem_walked hc
      exact (ih c hc _ (hnodup c hc)).1
    · intro a b hab
      exact List.disjoint_of_subset_left (functionNumbers_subset a _)
        (List.disjoint_of_subset_right (functionNumbers_subset b _) hab)
  have hselfParts : n.index ∉ n.walked.flatMap fun c =>
      c.functionNumbers (n.partInClass inClass c.role) := by
    intro hm
    obtain ⟨c, hc, hm⟩ := List.mem_flatMap.1 hm
    exact hself (List.mem_flatMap.2 ⟨c, mem_children_of_mem_walked hc, functionNumbers_subset c _ hm⟩)
  rw [functionNumbers_eq]
  cases hi : n.introduced? inClass with
  | none => exact ⟨by simpa using hparts, fun _ => by simpa using hselfParts⟩
  | some found =>
    simp only [Option.toList_some, List.map_singleton, List.cons_append, List.nil_append,
      List.nodup_cons, List.mem_cons, not_or]
    rcases introduced?_cases hi with ⟨name, isAsync, hk, rfl⟩ | ⟨-, target, value, hv, hk, rfl⟩
    · exact ⟨⟨hselfParts, hparts⟩, fun hk' => by simp [hk, Kind.isFunctionDef] at hk'⟩
    · have hmem := mem_children_of_part? hv
      refine ⟨⟨fun hm => ?_, hparts⟩, fun _ => ⟨fun he => ?_, hselfParts⟩⟩
      · obtain ⟨c, hc, hm⟩ := List.mem_flatMap.1 hm
        have hc := mem_children_of_mem_walked hc
        -- The lambda expression is a child, so the part that lists it again is itself.
        obtain rfl : c = value := child_eq_of_mem h hc hmem (functionNumbers_subset c _ hm)
          (List.mem_map_of_mem value.mem_preorder_self)
        exact (ih _ hc _ (hnodup _ hc)).2 (by rw [hk]; rfl) hm
      · refine hself (List.mem_flatMap.2 ⟨value, hmem, ?_⟩)
        rw [he]
        exact List.mem_map_of_mem value.mem_preorder_self

end Node

/-! ## Projects -/

namespace Definition

theorem same_iff {a b : Definition} : a.same b = true ↔ a.file = b.file ∧ a.node.index = b.node.index := by
  simp [same]

theorem same_trans {a b c : Definition} (hab : a.same b = true) (hcb : c.same b = true) :
    a.same c = true := by
  rw [same_iff] at *
  exact ⟨hab.1.trans hcb.1.symm, hab.2.trans hcb.2.symm⟩

end Definition

namespace Project

variable {P : Project} {ignore : List String}

theorem eq_functions_of_collect {functions : List Function} (h : P.collect ignore = .ok functions) :
    functions = P.functions ignore := by
  unfold collect at h
  split at h
  · exact (Except.ok.inj h).symm
  · cases h

theorem mem_functions {f : Function} :
    f ∈ P.functions ignore ↔ ∃ i file, P.file? i = some file ∧
      isAnalyzed ignore file.source = true ∧
      ∃ found ∈ file.source.tree.root.functions false, f = found.toFunction file.source i := by
  simp only [functions, List.mem_flatMap, Prod.exists, List.mem_zipIdx_iff_getElem?, file?]
  constructor
  · rintro ⟨file, i, hi, hf⟩
    split at hf
    · next ha =>
      obtain ⟨found, hfound, rfl⟩ := List.mem_map.1 hf
      exact ⟨i, file, hi, ha, found, hfound, rfl⟩
    · simp at hf
  · rintro ⟨i, file, hi, ha, found, hfound, rfl⟩
    refine ⟨file, i, hi, ?_⟩
    rw [if_pos ha]
    exact List.mem_map_of_mem hfound

/-- A function of the inventory stands in the tree of its file, which is one of the project's. -/
theorem file_of_mem_functions {f : Function} (hf : f ∈ P.functions ignore) :
    ∃ file, P.file? f.file = some file ∧ isAnalyzed ignore file.source = true ∧
      f.node ∈ file.source.tree.nodes := by
  obtain ⟨i, file, hi, ha, found, hfound, rfl⟩ := mem_functions.1 hf
  exact ⟨file, hi, ha, Node.mem_preorder_of_mem_functions _ _ found hfound⟩

theorem mem_nodes_of_mem_functions {f : Function} (hf : f ∈ P.functions ignore) {file : ScopedFile}
    (hfile : P.file? f.file = some file) : f.node ∈ file.source.tree.nodes := by
  obtain ⟨file', hfile', -, hnode⟩ := file_of_mem_functions hf
  obtain rfl : file = file' := Option.some.inj (hfile.symm.trans hfile')
  exact hnode

theorem isAsync_of_mem {f : Function} (hf : f ∈ P.functions ignore) :
    f.isAsync = true ↔ ∃ name, f.node.kind = .functionDef name true := by
  obtain ⟨i, file, -, -, found, -, rfl⟩ := mem_functions.1 hf
  change _ ↔ ∃ name, found.node.kind = .functionDef name true
  unfold FoundFunction.toFunction
  dsimp only
  split
  · next hkind => simp [hkind]
  · next hkind =>
    refine iff_of_false (by simp) ?_
    rintro ⟨name, h⟩
    exact hkind name true h

theorem isFunction_of_mem {f : Function} (hf : f ∈ P.functions ignore) :
    f.node.kind.isFunction = true := by
  obtain ⟨i, file, -, -, found, hfound, rfl⟩ := mem_functions.1 hf
  exact Node.isFunction_of_mem_functions _ _ found hfound

/-- No construct is in the inventory twice. -/
theorem eq_of_same {f g : Function} (hf : f ∈ P.functions ignore) (hg : g ∈ P.functions ignore)
    (h : f.definition.same g.definition = true) : f = g := by
  obtain ⟨i, file, hi, -, found, hfound, rfl⟩ := mem_functions.1 hf
  obtain ⟨j, file', hj, -, found', hfound', rfl⟩ := mem_functions.1 hg
  obtain ⟨hij, hindex⟩ := Definition.same_iff.1 h
  change i = j at hij
  subst hij
  obtain rfl : file = file' := Option.some.inj (hi.symm.trans hj)
  have hnodup := (Node.nodup_functionNumbers _ false file.source.tree.nodup_index).1
  rw [List.inj_on_of_nodup_map hnodup hfound hfound' hindex]

theorem idOf?_eq_some_iff {d : Definition} {id : String} :
    idOf? (P.functions ignore) d = some id ↔
      ∃ f ∈ P.functions ignore, f.definition.same d = true ∧ f.id = id := by
  constructor
  · intro h
    obtain ⟨f, hf, rfl⟩ := Option.map_eq_some_iff.1 h
    have hsame := List.find?_some hf
    exact ⟨f, List.mem_of_find?_eq_some hf, hsame, rfl⟩
  · rintro ⟨f, hf, hsame, rfl⟩
    cases hfind : (P.functions ignore).find? (·.definition.same d) with
    | none =>
      rw [List.find?_eq_none] at hfind
      exact absurd hsame (hfind f hf)
    | some g =>
      have hg := List.mem_of_find?_eq_some hfind
      have hgd := List.find?_some hfind
      rw [idOf?, hfind, eq_of_same hg hf (Definition.same_trans hgd hsame)]
      rfl

/-- A construct in the inventory stands in one of the project's own files. -/
theorem isOwn_of_same {f : Function} (hf : f ∈ P.functions ignore) {d : Definition}
    (h : f.definition.same d = true) : P.isOwn d = true := by
  obtain ⟨file, hfile, ha, -⟩ := file_of_mem_functions hf
  have hd : P.file? d.file = some file := by rw [← (Definition.same_iff.1 h).1]; exact hfile
  rw [isAnalyzed, Bool.and_eq_true] at ha
  simp [isOwn, hd, ha.1]

/-- Every definition of a function in an analysed file is in the inventory. -/
theorem exists_function_of_mem_nodes {d : Definition} {file : ScopedFile}
    (hfile : P.file? d.file = some file) (ha : isAnalyzed ignore file.source = true)
    (hd : d.node ∈ file.source.tree.nodes) (hk : d.node.kind.isFunctionDef = true) :
    ∃ f ∈ P.functions ignore, f.definition = d := by
  obtain ⟨found, hfound, hn⟩ := Node.exists_mem_functions hk _ false file.source.tree.is_file hd
  refine ⟨found.toFunction file.source d.file,
    mem_functions.2 ⟨d.file, file, hfile, ha, found, hfound, rfl⟩, ?_⟩
  change (⟨d.file, found.node⟩ : Definition) = d
  rw [hn]

end Project

end EffectGraph
