/-
What a node of a body shows.

An effect that is not ambient comes from writing: to a target, by a method that
changes what it is called on, or to a name that `:=`, an import or a handler
gives. Each of these is looked at in one step of the node, and that step never
breaks off (`mem_effectSteps_iff`). So a walk that comes to its end tells of such
an effect exactly if a node of the body has it (`mem_effects_iff`).
-/
import EffectGraph.Proofs.Finding.Nested
import EffectGraph.Proofs.Scope.Block

namespace EffectGraph

/-- A construct gives a name at a node, but not as a target. -/
inductive Node.GivesName (n : Node) : Node → String → Prop
  | named {t : Node} {id : Identifier} {access : Access} : n.kind = .namedExpr → t ∈ n.parts .target →
    t.kind = .name id access → GivesName n t id
  | importModule {a : Node} {name : String} {asName : Option String} : n.kind = .importStmt →
    a ∈ n.parts .importAlias → a.kind = .importAlias name asName →
    GivesName n a (asName.getD (firstPart name))
  | importFrom {a : Node} {module name : String} {level : Nat} {asName : Option String} :
    n.kind = .importFrom module level → a ∈ n.parts .importAlias →
    a.kind = .importAlias name asName → name ≠ "*" → GivesName n a (asName.getD name)
  | handler {name : String} : n.kind = .exceptHandler (some name) → GivesName n n name

namespace Project

variable {P : Project} {f : Function} {n : Node} {e : Effect}

/-! ## Ambient effects -/

theorem isAmbient_of_mem_referenceEffects {q : Option String} (h : e ∈ referenceEffects q) :
    e.isAmbient = true := by
  unfold referenceEffects at h
  split at h
  · cases h
  · simp only [List.mem_append, List.mem_ite_nil_right, List.mem_singleton] at h
    rcases h with ⟨-, rfl⟩ | ⟨-, rfl⟩ <;> rfl

theorem isAmbient_of_mem_globalEffects {q : Option String} (h : e ∈ globalEffects q) :
    e.isAmbient = true := by
  unfold globalEffects at h
  obtain ⟨name, -, rfl⟩ := Option.map_eq_some_iff.1 (Option.mem_toList.1 h)
  rfl

theorem isAmbient_of_mem_callEffects {q : Option String} (h : e ∈ callEffects q) :
    e.isAmbient = true := by
  unfold callEffects at h
  split at h
  · cases h
  · simp only [List.mem_append, List.mem_ite_nil_right, List.mem_singleton, Option.mem_toList,
      Option.map_eq_some_iff] at h
    rcases h with ((⟨-, rfl⟩ | ⟨-, rfl⟩) | ⟨-, rfl⟩) | ⟨name, -, rfl⟩ <;> rfl

/-! ## Steps -/

/-- What a node shows that is not ambient, it shows by writing. -/
theorem writes_of_mem_effectSteps (hamb : e.isAmbient = false) {found : List Effect}
    (h : .ok found ∈ P.effectSteps f n) (he : e ∈ found) :
    (∃ t ∈ n.writtenTargets.flatMap Node.singleTargets, e ∈ P.writeEffects f t) ∨
      (∃ func, n.kind = .call ∧ n.part? .func = some func ∧ e ∈ P.methodEffects f func) ∨
      ∃ m x, n.GivesName m x ∧ e ∈ P.nameWriteEffects f m x := by
  have ambient : ∀ {Q : Prop}, e.isAmbient = true → Q := fun h => by
    rw [hamb] at h
    cases h
  unfold effectSteps at h
  split at h
  case h_1 hk =>
    cases List.mem_singleton.1 h
    obtain ⟨t, ht, he⟩ := List.mem_flatMap.1 he
    split at he
    · next id access hkt => exact .inr (.inr ⟨t, id, .named hk ht hkt, he⟩)
    · cases he
  case h_2 hk =>
    cases List.mem_singleton.1 h
    obtain ⟨a, ha, he⟩ := List.mem_flatMap.1 he
    cases hka : a.kind with
    | importAlias name asName =>
      simp only [hk, hka, Node.fst_importedName] at he
      exact .inr (.inr ⟨a, _, .importModule hk ha hka, he⟩)
    | _ => simp [hk, hka] at he
  case h_3 module level hk =>
    cases List.mem_singleton.1 h
    obtain ⟨a, ha, he⟩ := List.mem_flatMap.1 he
    cases hka : a.kind with
    | importAlias name asName =>
      simp only [hk, hka] at he
      split at he
      · cases he
      · next hstar => exact .inr (.inr ⟨a, _, .importFrom hk ha hka (by simpa using hstar), he⟩)
    | _ => simp [hk, hka] at he
  case h_4 =>
    obtain ⟨q, -, hfound⟩ := Analysis.bind_eq_ok.1 (List.mem_singleton.1 h).symm
    cases hfound
    rcases List.mem_append.1 he with he | he
    · exact ambient (isAmbient_of_mem_globalEffects he)
    · exact ambient (isAmbient_of_mem_referenceEffects he)
  case h_5 =>
    obtain ⟨q, -, hfound⟩ := Analysis.bind_eq_ok.1 (List.mem_singleton.1 h).symm
    cases hfound
    exact ambient (isAmbient_of_mem_referenceEffects he)
  case h_6 hk =>
    split at h
    · next func hfunc =>
      rcases List.mem_cons.1 h with h | h
      · cases h
        exact .inr (.inl ⟨func, hk, hfunc, he⟩)
      · obtain ⟨q, -, hfound⟩ := Analysis.bind_eq_ok.1 (List.mem_singleton.1 h).symm
        cases hfound
        exact ambient (isAmbient_of_mem_callEffects he)
    · cases h
  case h_7 name hk =>
    cases List.mem_singleton.1 h
    rcases List.mem_append.1 he with he | he
    · cases name with
      | none => cases he
      | some name => exact .inr (.inr ⟨n, name, .handler hk, he⟩)
    · split at he
      · cases List.mem_singleton.1 he
        exact ambient rfl
      · cases he
  case h_8 =>
    cases List.mem_singleton.1 h
    exact .inl (List.mem_flatMap.1 he)

/-- A node with targets shows what writing to them does. -/
theorem writes_mem_effectSteps {t : Node} (ht : t ∈ n.writtenTargets) :
    .ok ((n.writtenTargets.flatMap Node.singleTargets).flatMap (P.writeEffects f)) ∈
      P.effectSteps f n := by
  unfold effectSteps
  split
  case h_8 => exact List.mem_singleton_self _
  all_goals
    next hk =>
    simp [Node.writtenTargets, hk] at ht

/-- A node that gives a name shows what writing to it does. -/
theorem exists_step_of_givesName {m : Node} {x : String} (h : n.GivesName m x) :
    ∃ found, .ok found ∈ P.effectSteps f n ∧ ∀ e ∈ P.nameWriteEffects f m x, e ∈ found := by
  unfold effectSteps
  cases h with
  | named hk ht hkt =>
    simp only [hk]
    refine ⟨_, List.mem_singleton_self _, fun e he => List.mem_flatMap.2 ⟨m, ht, ?_⟩⟩
    simpa [hkt] using he
  | importModule hk ha hka =>
    simp only [hk]
    refine ⟨_, List.mem_singleton_self _, fun e he => List.mem_flatMap.2 ⟨m, ha, ?_⟩⟩
    simpa [hka, Node.fst_importedName] using he
  | importFrom hk ha hka hstar =>
    simp only [hk]
    refine ⟨_, List.mem_singleton_self _, fun e he => List.mem_flatMap.2 ⟨m, ha, ?_⟩⟩
    simpa [hka, hstar] using he
  | handler hk =>
    simp only [hk]
    exact ⟨_, List.mem_singleton_self _, fun e he => List.mem_append_left _ he⟩

/-- What a node shows that is not ambient. -/
theorem mem_effectSteps_iff (h : e.isAmbient = false) :
    (∃ found, .ok found ∈ P.effectSteps f n ∧ e ∈ found) ↔
      (∃ t ∈ n.writtenTargets.flatMap Node.singleTargets, e ∈ P.writeEffects f t) ∨
      (∃ func, n.kind = .call ∧ n.part? .func = some func ∧ e ∈ P.methodEffects f func) ∨
      ∃ m x, n.GivesName m x ∧ e ∈ P.nameWriteEffects f m x := by
  constructor
  · rintro ⟨found, hfound, he⟩
    exact writes_of_mem_effectSteps h hfound he
  · rintro (⟨t, ht, he⟩ | ⟨func, hk, hfunc, he⟩ | ⟨m, x, hgives, he⟩)
    · obtain ⟨w, hw, -⟩ := List.mem_flatMap.1 ht
      exact ⟨_, writes_mem_effectSteps hw, List.mem_flatMap.2 ⟨t, ht, he⟩⟩
    · refine ⟨P.methodEffects f func, ?_, he⟩
      simp [effectSteps, hk, hfunc]
    · obtain ⟨found, hfound, hall⟩ := exists_step_of_givesName (P := P) (f := f) hgives
      exact ⟨found, hfound, hall e he⟩

/-- A walk that comes to its end tells of an effect that is not ambient exactly if a node of the body
shows it. -/
theorem mem_effects_iff {effects : List Effect} (heffects : P.effects f = .ok effects)
    (hcut : (collectFindings (P.effectWalk f)).2 ≠ some .tooDeep) (h : e.isAmbient = false) :
    e ∈ effects ↔ ∃ n ∈ f.node.bodyNodes,
      (∃ t ∈ n.writtenTargets.flatMap Node.singleTargets, e ∈ P.writeEffects f t) ∨
      (∃ func, n.kind = .call ∧ n.part? .func = some func ∧ e ∈ P.methodEffects f func) ∨
      ∃ m x, n.GivesName m x ∧ e ∈ P.nameWriteEffects f m x := by
  rw [mem_iff_of_not_cut heffects hcut]
  simp only [← mem_effectSteps_iff h]
  constructor
  · rintro ⟨found, hfound, he⟩
    obtain ⟨n, hn, hfound⟩ := List.mem_flatMap.1 hfound
    exact ⟨n, hn, found, hfound, he⟩
  · rintro ⟨n, hn, found, hfound, he⟩
    exact ⟨found, List.mem_flatMap.2 ⟨n, hn, hfound⟩, he⟩

/-! ## Evaluation -/

/-- A function with its reasons to be impure, and whether the walk over it comes to its end. -/
structure Walked where
  id : String
  parameters : List String
  receiver : Option String
  reasons : Option (List String)
  ends : Bool
  deriving DecidableEq

def walked (P : Project) : List Walked :=
  (P.functions []).map fun f =>
    { id := f.id
      parameters := f.parameters
      receiver := f.receiver
      reasons := (P.localPurity f).toOption.map (·.reasons)
      ends := (collectFindings (P.effectWalk f)).2.isNone }

theorem exists_of_mem_walked {id : String} {parameters : List String} {receiver : Option String}
    {reasons : List String} (h : ⟨id, parameters, receiver, some reasons, true⟩ ∈ P.walked) :
    ∃ f ∈ P.functions [], f.id = id ∧ f.parameters = parameters ∧ f.receiver = receiver ∧
      ∃ result, P.localPurity f = .ok result ∧ result.reasons = reasons ∧
        (collectFindings (P.effectWalk f)).2 ≠ some .tooDeep := by
  obtain ⟨f, hf, he⟩ := List.mem_map.1 h
  simp only [Walked.mk.injEq, Option.isNone_iff_eq_none] at he
  obtain ⟨hid, hparameters, hreceiver, hreasons, hend⟩ := he
  obtain ⟨result, hresult, hreasons⟩ := exists_ok_of_map_toOption hreasons
  exact ⟨f, hf, hid, hparameters, hreceiver, result, hresult, hreasons, by simp [hend]⟩

end Project

end EffectGraph
