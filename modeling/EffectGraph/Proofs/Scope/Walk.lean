/-
The walk that builds scopes, node by node.

A meeting is a node with the place where it stands and the manner in which the
walk meets it. `arrange` puts the events of the parts of a node in the order of
the text; in a well-formed tree it forgets no part and takes none twice
(`arrange_perm`). So the events of a tree are what the meetings say, each on its
own (`events_perm`), and the order matters only within one scope.
-/
import EffectGraph.Proofs.Scope.Content
import EffectGraph.Proofs.Syntax.Shape
import Mathlib.Algebra.Order.Group.Multiset
import Mathlib.Tactic.Abel

namespace EffectGraph

/-- A node on the walk, the place where it stands, and how the walk meets it. -/
structure Meeting where
  node : Node
  place : Place
  manner : Manner

namespace Meeting

/-- The meeting of a part. `isFirst` holds up to the first clause. -/
def part (v : Meeting) (isFirst : Bool) (c : Node) : Meeting :=
  ⟨c, v.node.placeOf v.place v.manner c.role, v.node.mannerOf v.place v.manner isFirst c.role⟩

/-- The bindings of a meeting in the scope where it stands. -/
def bindings (resolve : Nat → String → String) (v : Meeting) : List Binding :=
  match v.node.kind, v.manner with
  | .functionDef name _, _ => [⟨name, .functionDef, v.node, none, none, none⟩]
  | .classDef name, _ => [⟨name, .classDef, v.node, none, none, none⟩]
  | .importStmt, _ | .importFrom .., _ => v.node.aliasBindings resolve
  | .exceptHandler name, _ | .matchAs name, _ | .matchStar name, _ | .matchMapping name, _ =>
    name.toList.map fun x => ⟨x, .other, v.node, none, none, none⟩
  | .name id _, .target value hint => [⟨id, .assignment, v.node, value, none, hint⟩]
  | _, _ => []

/-- The bindings of a meeting in the scope that its node opens. -/
def innerBindings (v : Meeting) : List Binding :=
  if v.node.kind.isFunction then v.node.parameterBindings else []

/-- The bindings of a meeting in the nearest scope that is no comprehension's. -/
def blockBindings (v : Meeting) : List Binding :=
  match v.node.kind with
  | .namedExpr => (v.node.parts .target).filterMap fun t =>
    match t.kind with
    | .name id _ => some ⟨id, .assignment, t, v.node.part? .value, none, none⟩
    | _ => none
  | _ => []

/-- The scope that opens at a meeting. That of a comprehension opens at its first clause. -/
def openings (v : Meeting) : List Event :=
  match v.node.kind, v.manner with
  | .functionDef .., _ | .lambda, _ | .classDef _, _ => [v.node.openedEvent v.place]
  | .comprehension _, .opening _ opened => [opened]
  | _, _ => []

/-- What a meeting says about declarations and attributes. -/
def remarks (v : Meeting) : List Event :=
  match v.node.kind with
  | .globalStmt names => [.global v.place.here.id names]
  | .nonlocalStmt names => [.nonlocal v.place.here.id names]
  | .assign | .annAssign =>
    ((v.node.part? .value).map fun value =>
      Node.storedIn v.place value (v.node.parts .target)).getD []
  | _ => []

/-- What the walk says at a node, apart from its parts. -/
def events (resolve : Nat → String → String) (v : Meeting) : List Event :=
  (if v.node.kind = .arguments then [] else [.belongs v.node.index v.place.here.id])
    ++ (v.bindings resolve).map (.bound v.place.here.id)
    ++ v.innerBindings.map (.bound v.node.index)
    ++ v.blockBindings.map (.bound v.place.nearestBlock.id)
    ++ v.openings ++ v.remarks

end Meeting

namespace Node

mutual

/-- The meetings of a walk over a tree. -/
def walk (p : Place) (m : Manner) : Node → List Meeting
  | mk i r k s cs => ⟨mk i r k s cs, p, m⟩ :: partWalk (mk i r k s cs) p m true cs

def partWalk (n : Node) (p : Place) (m : Manner) (isFirst : Bool) : List Node → List Meeting
  | [] => []
  | c :: cs =>
    walk (n.placeOf p m c.role) (n.mannerOf p m isFirst c.role) c
      ++ partWalk n p m (isFirst && c.role != .generator) cs

end

theorem walk_eq (p : Place) (m : Manner) (n : Node) :
    n.walk p m = ⟨n, p, m⟩ :: partWalk n p m true n.children := by
  cases n
  rw [walk]
  rfl

/-! ## Events -/

/-- Parts taken role by role are all the parts. -/
theorem flatMap_roles {roles : List Role} (hroles : roles.Nodup) {parts : List (Role × List Event)}
    (hparts : ∀ x ∈ parts, x.1 ∈ roles) :
    (parts.flatMap (·.2)).Perm
      (roles.flatMap fun r => (parts.filter (·.1 == r)).flatMap (·.2)) := by
  induction roles generalizing parts with
  | nil =>
    cases parts with
    | nil => exact .nil
    | cons x parts => exact absurd (hparts x (by simp)) (by simp)
  | cons r roles ih =>
    obtain ⟨hr, hroles⟩ := List.nodup_cons.1 hroles
    have hothers : ∀ x ∈ parts.filter (!·.1 == r), x.1 ∈ roles := by
      intro x hx
      obtain ⟨hx, hne⟩ := List.mem_filter.1 hx
      rcases List.mem_cons.1 (hparts x hx) with he | hmem
      · simp [he] at hne
      · exact hmem
    have hsplit := ((List.filter_append_perm (·.1 == r) parts).symm).flatMap_right (·.2)
    rw [List.flatMap_append] at hsplit
    refine hsplit.trans ?_
    rw [List.flatMap_cons]
    refine ((ih hroles hothers).append_left _).trans ?_
    refine .of_eq (congrArg _ (List.flatMap_congr fun r' hr' => ?_))
    rw [List.filter_filter]
    refine congrArg (List.flatMap _) (List.filter_congr fun x hx => ?_)
    have hne : r' ≠ r := fun he => hr (he ▸ hr')
    by_cases hx : x.1 = r'
    · simp [hx, hne]
    · simp [hx]

/-- `arrange` takes every part once. -/
theorem arrange_perm {n : Node} {resolve : Nat → String → String} {p : Place} {m : Manner}
    {parts : List (Role × List Event)} (hparts : ∀ x ∈ parts, x.1 ∈ n.kind.layout.map (·.role)) :
    (arrange resolve n p m parts).Perm (Meeting.events resolve ⟨n, p, m⟩ ++ parts.flatMap (·.2)) := by
  have hall := Multiset.coe_eq_coe.2 (flatMap_roles n.kind.nodup_layout hparts)
  have absent : ∀ r, r ∉ n.kind.layout.map (·.role) →
      (parts.filter (·.1 == r)).flatMap (·.2) = [] := by
    intro r hr
    rw [List.filter_eq_nil_iff.2 fun x hx he => hr ?_, List.flatMap_nil]
    rw [← eq_of_beq he]
    exact hparts x hx
  rw [← Multiset.coe_eq_coe]
  -- Both sides become sums, in which the order of the terms does not matter.
  cases hk : n.kind
  all_goals
    rw [hk] at hall absent
    simp only [Kind.layout, List.map_cons, List.map_nil, List.flatMap_cons, List.flatMap_nil,
      List.append_nil, ← Multiset.coe_add] at hall
    simp only [arrange, Meeting.events, Meeting.bindings, Meeting.innerBindings, Meeting.blockBindings,
      Meeting.openings, Meeting.remarks, hk, Kind.isFunction, reduceCtorEq, if_false, if_true,
      Bool.false_eq_true, List.map_nil, List.nil_append, List.append_nil, List.map_cons, List.map_map,
      Function.comp_def, ← Multiset.coe_add, ← Multiset.cons_coe, ← Multiset.singleton_add, hall,
      Multiset.coe_nil, add_zero]
  case assign =>
    rw [absent .hint (by decide), Multiset.coe_nil]
    abel
  case listComp | setComp | generatorExp =>
    rw [absent .key (by decide), absent .value (by decide), Multiset.coe_nil]
    abel
  case dictComp =>
    rw [absent .element (by decide), Multiset.coe_nil]
    abel
  case comprehension =>
    cases m <;> simp only [← Multiset.coe_add, ← Multiset.cons_coe, ← Multiset.singleton_add,
      Multiset.coe_nil] <;> abel
  case name => cases m <;> rfl
  case namedExpr =>
    rw [List.map_filterMap]
    have hnames : ∀ t ∈ n.parts .target, Option.map (Event.bound p.nearestBlock.id)
        (match t.kind with
          | .name id _ => some ⟨id, .assignment, t, n.part? .value, none, none⟩
          | _ => none) =
        match t.kind with
          | .name id _ => some (.bound p.nearestBlock.id ⟨id, .assignment, t, n.part? .value, none, none⟩)
          | _ => none := by
      intro t ht
      cases t.kind <;> rfl
    rw [List.filterMap_congr hnames]
    abel
  all_goals abel

theorem events_perm {resolve : Nat → String → String} :
    ∀ (n : Node) {cat : Category} (p : Place) (m : Manner), n.Is cat →
      (n.events resolve p m).Perm ((n.walk p m).flatMap (Meeting.events resolve)) := by
  refine induction fun n ih cat p m hn => ?_
  have hroles : ∀ c ∈ n.children, c.role ∈ n.kind.layout.map (·.role) ∧ ∃ cat, c.Is cat := by
    intro c hc
    obtain ⟨slot, hslot, hrole, hc⟩ := hn.arranged.exists_part c hc
    exact ⟨hrole ▸ List.mem_map_of_mem hslot, _, hc⟩
  have hparts : ∀ (cs : List Node) (isFirst : Bool), (∀ c ∈ cs, c ∈ n.children) →
      ((partEvents resolve n p m isFirst cs).flatMap (·.2)).Perm
        ((partWalk n p m isFirst cs).flatMap (Meeting.events resolve)) := by
    intro cs
    induction cs with
    | nil => exact fun _ _ => .nil
    | cons c cs ihcs =>
      intro isFirst hcs
      obtain ⟨cat, hc⟩ := (hroles c (hcs c (by simp))).2
      rw [partEvents, partWalk, List.flatMap_cons, List.flatMap_append]
      exact (ih c (hcs c (by simp)) _ _ hc).append (ihcs _ fun d hd => hcs d (by simp [hd]))
  rw [events_eq, walk_eq, List.flatMap_cons]
  refine (arrange_perm fun x hx => ?_).trans ((hparts _ true fun c hc => hc).append_left _)
  obtain ⟨c, hc, first, rfl⟩ := mem_partEvents hx
  exact (hroles c hc).1

/-! ## Visits -/

variable {n : Node} {p : Place} {m : Manner} {v : Meeting}

theorem map_node_walk : ∀ (n : Node) (p : Place) (m : Manner),
    (n.walk p m).map (·.node) = n.preorder := by
  refine induction fun n ih p m => ?_
  have hparts : ∀ (cs : List Node) (isFirst : Bool), (∀ c ∈ cs, c ∈ n.children) →
      (partWalk n p m isFirst cs).map (·.node) = cs.flatMap preorder := by
    intro cs
    induction cs with
    | nil => exact fun _ _ => rfl
    | cons c cs ihcs =>
      intro isFirst hcs
      rw [partWalk, List.map_append, ih c (hcs c (by simp)), ihcs _ fun d hd => hcs d (by simp [hd]),
        List.flatMap_cons]
  rw [walk_eq, List.map_cons, hparts _ true fun c hc => hc, preorder_eq]

theorem mem_partWalk : ∀ {cs : List Node} {isFirst : Bool},
    v ∈ partWalk n p m isFirst cs ↔ ∃ before c after, cs = before ++ c :: after ∧
      v ∈ c.walk (n.placeOf p m c.role)
        (n.mannerOf p m (isFirst && before.all (·.role != .generator)) c.role) := by
  intro cs
  induction cs with
  | nil => simp [partWalk]
  | cons d cs ih =>
    intro isFirst
    rw [partWalk, List.mem_append, ih]
    constructor
    · rintro (h | ⟨before, c, after, rfl, h⟩)
      · exact ⟨[], d, cs, rfl, by simpa using h⟩
      · exact ⟨d :: before, c, after, rfl, by simpa [Bool.and_assoc] using h⟩
    · rintro ⟨before, c, after, he, h⟩
      cases before with
      | nil =>
        obtain ⟨rfl, rfl⟩ := List.cons.inj he
        exact .inl (by simpa using h)
      | cons b before =>
        obtain ⟨rfl, rfl⟩ := List.cons.inj he
        exact .inr ⟨before, c, after, rfl, by simpa [Bool.and_assoc] using h⟩

theorem mem_walk : v ∈ n.walk p m ↔ v = ⟨n, p, m⟩ ∨ ∃ before c after,
    n.children = before ++ c :: after ∧ v ∈ c.walk (n.placeOf p m c.role)
      (n.mannerOf p m (before.all (·.role != .generator)) c.role) := by
  rw [walk_eq, List.mem_cons, mem_partWalk]
  simp only [Bool.true_and]

/-- With a node, the walk meets its parts. -/
theorem part_mem_walk {before after : List Node} {c : Node}
    (hc : v.node.children = before ++ c :: after) :
    ∀ (n : Node) {p : Place} {m : Manner}, v ∈ n.walk p m →
      v.part (before.all (·.role != .generator)) c ∈ n.walk p m := by
  refine induction fun n ih p m hv => ?_
  rcases mem_walk.1 hv with rfl | ⟨earlier, d, later, hd, hv⟩
  · exact mem_walk.2 (.inr ⟨before, c, after, hc, mem_walk.2 (.inl rfl)⟩)
  · exact mem_walk.2 (.inr ⟨earlier, d, later, hd, ih d (by simp [hd]) hv⟩)

/-- What holds of the first meeting, and of the parts of a node whenever it holds of the node, holds
of all meetings. -/
theorem walk_induction {motive : Meeting → Prop} :
    ∀ (n : Node) {p : Place} {m : Manner}, motive ⟨n, p, m⟩ →
      (∀ v ∈ n.walk p m, motive v → ∀ before c after, v.node.children = before ++ c :: after →
        motive (v.part (before.all (·.role != .generator)) c)) →
      ∀ v ∈ n.walk p m, motive v := by
  refine induction fun n ih p m start step v hv => ?_
  rcases mem_walk.1 hv with rfl | ⟨before, c, after, hc, hv⟩
  · exact start
  · have hself : ⟨n, p, m⟩ ∈ n.walk p m := mem_walk.2 (.inl rfl)
    refine ih c (by simp [hc]) (step _ hself start before c after hc) (fun w hw => ?_) v hv
    exact step w (mem_walk.2 (.inr ⟨before, c, after, hc, hw⟩))

/-- A walk meets a node once. -/
theorem meeting_eq (hn : (n.preorder.map index).Nodup) {w : Meeting} (hv : v ∈ n.walk p m)
    (hw : w ∈ n.walk p m) (h : v.node = w.node) : v = w := by
  rw [← map_node_walk n p m, List.map_map] at hn
  exact List.inj_on_of_nodup_map hn hv hw (congrArg index h)

theorem exists_meeting {c : Node} (hc : c ∈ n.preorder) (p : Place) (m : Manner) :
    ∃ v ∈ n.walk p m, v.node = c := by
  rw [← map_node_walk n p m] at hc
  exact List.mem_map.1 hc

theorem node_mem_preorder (hv : v ∈ n.walk p m) : v.node ∈ n.preorder := by
  rw [← map_node_walk n p m]
  exact List.mem_map_of_mem hv

end Node

end EffectGraph
