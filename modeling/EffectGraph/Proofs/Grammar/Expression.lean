/-
What the rules of expressions read.

Every rule gives a well-formed expression, and a lambda expression starts at a
token that was taken for it (`Expression`). Of all expressions only a lambda
expression may become a function of the inventory, so the places of the others
are not followed: they are `Plain`. The rules are not recursive, so each lemma
assumes of `again` what it proves of its rule, and `gives_solve` ties them
together by induction on the nesting.
-/
import EffectGraph.Proofs.Function.Start
import EffectGraph.Proofs.Grammar.Parser
import EffectGraph.Syntax.Grammar.Expression

namespace EffectGraph

/-- An expression that is no lambda expression. -/
def Kind.isPlain : Kind → Bool
  | lambda => false
  | k => k.category == .expression

theorem Kind.isPlain_iff {k : Kind} : k.isPlain = true ↔ k.category = .expression ∧ k ≠ .lambda := by
  unfold isPlain
  split
  · simp
  · next h => simpa using fun _ => h

namespace Node

def Plain (n : Node) : Prop := n.Is .expression ∧ n.kind ≠ .lambda

/-! ## Targets -/

theorem asTarget?_of_asSingleTarget? {n m : Node} (h : n.asSingleTarget? = some m) :
    n.asTarget? = some m := by
  unfold asSingleTarget? at h
  split at h
  · exact h
  · exact h
  · exact h
  · cases h

theorem asTargets?_eq_some : ∀ {cs ds : List Node}, asTargets? cs = some ds →
    List.Forall₂ (fun c d => c.asTarget? = some d) cs ds
  | [], _, h => by
    cases h
    exact .nil
  | c :: cs, _, h => by
    unfold asTargets? at h
    split at h
    · next hc hcs =>
      cases h
      exact .cons hc (asTargets?_eq_some hcs)
    · cases h

/-- As a target a node stays what it is, but it is bound and not read. -/
theorem asTarget?_is : ∀ n m : Node, n.asTarget? = some m →
    (m.role = n.role ∧ ∀ cat, n.Is cat → m.Is cat) ∧ m.kind ≠ .lambda := by
  refine Node.induction fun n ih m h => ?_
  have container : ∀ {i r k s cs}, n = mk i r k s cs → (asTargets? cs).map (mk i r k s) = some m →
      k ≠ .lambda → (m.role = n.role ∧ ∀ cat, n.Is cat → m.Is cat) ∧ m.kind ≠ .lambda := by
    rintro i r k s cs rfl h hk
    obtain ⟨ds, hds, rfl⟩ := Option.map_eq_some_iff.1 h
    refine ⟨⟨rfl, fun cat hn => is_iff.2 ⟨hn.category, ?_⟩⟩, hk⟩
    refine hn.arranged.of_forall₂ ((forall₂_and_mem (asTargets?_eq_some hds)).imp ?_)
    exact fun c d hcd => (ih c hcd.2.1 d hcd.1).1
  unfold asTarget? at h
  split at h
  · cases h
    exact ⟨⟨rfl, fun cat hn => is_iff.2 ⟨hn.category, hn.arranged⟩⟩, nofun⟩
  · cases h
    exact ⟨⟨rfl, fun cat hn => is_iff.2 ⟨hn.category, hn.arranged⟩⟩, nofun⟩
  · cases h
    exact ⟨⟨rfl, fun cat hn => hn⟩, nofun⟩
  · exact container rfl h nofun
  · exact container rfl h nofun
  · exact container rfl h nofun
  · cases h

mutual

theorem asTarget?_of_asDeleted? : ∀ {n m : Node}, n.asDeleted? = some m → n.asTarget? = some m := by
  intro n m h
  unfold asDeleted? at h
  split at h
  · exact h
  · exact h
  · exact h
  · obtain ⟨ds, hds, rfl⟩ := Option.map_eq_some_iff.1 h
    simp [asTarget?, asTargets?_of_allDeleted? hds]
  · obtain ⟨ds, hds, rfl⟩ := Option.map_eq_some_iff.1 h
    simp [asTarget?, asTargets?_of_allDeleted? hds]
  · cases h

theorem asTargets?_of_allDeleted? : ∀ {cs ds : List Node}, allDeleted? cs = some ds →
    asTargets? cs = some ds
  | [], _, h => h
  | c :: cs, _, h => by
    unfold allDeleted? at h
    split at h
    · next hc hcs =>
      cases h
      simp [asTargets?, asTarget?_of_asDeleted? hc, asTargets?_of_allDeleted? hcs]
    · cases h

end

theorem asTarget?_plain {n m : Node} (h : n.asTarget? = some m) (hn : n.Is .expression) : m.Plain :=
  ⟨(asTarget?_is n m h).1.2 _ hn, (asTarget?_is n m h).2⟩

end Node

namespace Grammar

open Node (Plain)

/-- An expression; if it is a lambda expression, it starts at one of the places. -/
def Expression (L : List Pos) (n : Node) : Prop := n.Is .expression ∧ n.lambdaStart.Sublist L

/-- What a rule may give for an expression it has read: the same, or a larger one. -/
def Extends (n m : Node) : Prop := m = n ∨ m.Plain

variable {α β : Type} {p : Parser Node} {f : Node → Parser Node} {k : Kind} {start : Pos}
  {cs : List Node} {cat : Category}

theorem Expression.of_plain {n : Node} (L : List Pos) (h : n.Plain) : Expression L n :=
  ⟨h.1, by simp [Node.lambdaStart, h.2]⟩

theorem Expression.mono {L L' : List Pos} {n : Node} (h : Expression L n) (hL : L.Sublist L') :
    Expression L' n :=
  ⟨h.1, h.2.trans hL⟩

theorem Extends.is {n m : Node} (h : Extends n m) (hn : n.Is .expression) : m.Is .expression := by
  rcases h with rfl | h
  · exact hn
  · exact h.1

theorem Gives.is (hp : Gives p Expression) : Returns p (·.Is .expression) :=
  hp.imp fun _ _ h => h.1

theorem Gives.plain (hp : Returns p Plain) : Gives p Expression :=
  hp.imp fun L _ h => .of_plain L h

theorem Gives.larger {n : Node} (hp : Returns p Plain) : Returns p (Extends n) :=
  hp.imp fun _ _ h => .inr h

/-- A rule that reads an expression and gives it back as it is or as a part of a larger one. -/
theorem Gives.continued (hp : Gives p Expression)
    (hf : ∀ n, n.Is .expression → Returns (f n) (Extends n)) : Gives (p >>= f) Expression := by
  refine hp.bind fun L n hn => (hf n hn.1).imp fun L' m hm => ?_
  rcases hm with rfl | hm
  · exact hn.mono (List.sublist_append_left L L')
  · exact .of_plain _ hm

/-! ## New nodes -/

theorem returns_node (h : Arranged k.layout cs) :
    Returns (node k start cs) fun n =>
      n.Is k.category ∧ n.kind = k ∧ n.start = start ∧ n.children = cs :=
  looks_get.passes.skip fun _ => .pure ⟨Node.new_is rfl h, rfl, rfl, rfl⟩

theorem node_is (hk : k.category = cat) (h : Arranged k.layout cs) :
    Returns (node k start cs) (·.Is cat) :=
  (returns_node h).imp fun _ _ hn => hk ▸ hn.1

theorem node_plain (hk : k.isPlain = true) (h : Arranged k.layout cs) :
    Returns (node k start cs) Plain :=
  (returns_node h).imp fun _ _ hn => ⟨(Kind.isPlain_iff.1 hk).1 ▸ hn.1, hn.2.1.symm ▸ (Kind.isPlain_iff.1 hk).2⟩

/-- What has been read of a signature: parameters, and defaults for them. -/
structure Parameters.WellFormed (ps : Parameters) : Prop where
  parameters : ∀ p ∈ ps.posonly ++ ps.positional ++ ps.vararg.toList ++ ps.kwonly ++ ps.kwarg.toList,
    p.Is .parameter
  defaults : ∀ d ∈ ps.kwDefaults ++ ps.defaults, d.Is .expression

theorem Parameters.WellFormed.arranged {ps : Parameters} (h : ps.WellFormed) :
    Arranged Kind.arguments.layout
      (ps.posonly.map (·.as .posonly) ++ ps.positional.map (·.as .positional) ++
        ps.vararg.toList.map (·.as .vararg) ++ ps.kwonly.map (·.as .kwonly) ++
        ps.kwDefaults.map (·.as .kwDefault) ++ ps.kwarg.toList.map (·.as .kwarg) ++
        ps.defaults.map (·.as .default)) := by
  obtain ⟨hparameters, hdefaults⟩ := h
  simp only [List.mem_append, Option.mem_toList, or_imp, forall_and] at hparameters hdefaults
  obtain ⟨⟨⟨⟨hposonly, hpositional⟩, hvararg⟩, hkwonly⟩, hkwarg⟩ := hparameters
  exact (((((Arranged.list hposonly).append (.list hpositional)).append (.option hvararg)).append
    (.list hkwonly)).append (.list hdefaults.1)).append (.option hkwarg) |>.append (.list hdefaults.2)

/-- What has been read of the arguments of a call. -/
structure Arguments.WellFormed (args : Arguments) : Prop where
  positional : ∀ a ∈ args.positional, a.Is .expression
  keywords : ∀ k ∈ args.keywords, k.Is .keyword

/-! ## Names, stars and commas -/

/-- The rules at a deeper nesting give expressions. -/
abbrev Reads (again : Again) : Prop := ∀ goal, Gives (again goal) Expression

variable {again : Again} {deeper : Deeper}

theorem returns_starred (h : Reads again) (goal : Goal) : Returns (starred again goal) Plain :=
  looks_here.passes.skip fun _ => (passes_expect "*").skip fun _ =>
    (h goal).andThen fun _ _ hv => node_plain rfl (.one hv.1 .nil)

theorem returns_nameNode (access : Access) : Returns (nameNode access) Plain :=
  looks_here.passes.skip fun _ => passes_identifier.skip fun _ => node_plain rfl .nil

theorem looks_seesNamed : Looks seesNamed :=
  looks_peek.bind fun _ => looks_peekSecond.bind fun _ => .pure _

theorem gives_namedExpression (h : Reads again) : Gives (namedExpression again) Expression := by
  refine looks_here.passes.skip fun _ => looks_seesNamed.passes.skip fun _ => .ite (fun _ => ?_) fun _ => ?_
  · refine Gives.plain <| (returns_nameNode .write).andThen fun _ target ht => ?_
    refine (passes_expect ":=").skip fun _ => (h .expression).andThen fun _ value hv => ?_
    exact node_plain rfl (.one ht.1 (.one hv.1 .nil))
  · refine (h .expression).continued fun value _ => ?_
    exact (looks_sees ":=").passes.skip fun _ => .ite (fun _ => .fail) fun _ => .pure (.inl rfl)

theorem gives_starNamedExpression (h : Reads again) : Gives (starNamedExpression again) Expression :=
  (looks_sees "*").passes.skip fun _ =>
    .ite (fun _ => .plain (returns_starred h _)) fun _ => gives_namedExpression h

theorem gives_starExpression (h : Reads again) : Gives (starExpression again) Expression :=
  (looks_sees "*").passes.skip fun _ =>
    .ite (fun _ => .plain (returns_starred h _)) fun _ => h _

/-- Nodes of one category as the children of a construct that has nothing else. -/
theorem arranged_list {r : Role} {first : Node} {rest : List Node} (hfirst : first.Is cat)
    (hrest : ∀ n ∈ rest, n.Is cat) :
    Arranged [Slot.many r cat] ((first :: rest).map (·.as r)) :=
  .list (List.forall_mem_cons.2 ⟨hfirst, hrest⟩)

theorem gives_starExpressions (h : Reads again) : Gives (starExpressions again) Expression := by
  refine looks_here.passes.skip fun _ => (gives_starExpression h).continued fun first hfirst => ?_
  refine (Returns.afterCommas (gives_starExpression h).is).andThen fun _ ⟨rest, trailing⟩ hrest => ?_
  exact .ite (fun _ => .pure (.inl rfl)) fun _ => .larger (node_plain rfl (arranged_list hfirst hrest))

theorem returns_yieldExpression (h : Reads again) : Returns (yieldExpression again) Plain := by
  refine looks_here.passes.skip fun _ => (passes_expect "yield").skip fun _ => ?_
  refine (passes_accept "from").skip fun _ => .ite (fun _ => ?_) fun _ => ?_
  · exact (h .expression).andThen fun _ _ hv => node_plain rfl (.one hv.1 .nil)
  · refine looks_peek.passes.skip fun _ => .ite (fun _ => ?_) fun _ => node_plain rfl (.absent .nil)
    exact (gives_starExpressions h).andThen fun _ _ hv => node_plain rfl (.present hv.1 .nil)

theorem gives_yieldOrStarExpressions (h : Reads again) : Gives (yieldOrStarExpressions again) Expression :=
  (looks_sees "yield").passes.skip fun _ =>
    .ite (fun _ => .plain (returns_yieldExpression h)) fun _ => gives_starExpressions h

/-! ## Targets -/

theorem returns_target {β : Type} {Q : β → Prop} {n : Node} {g : Node → Parser β}
    (hn : n.Is .expression) (hg : ∀ target, target.Plain → Returns (g target) Q) :
    Returns (match n.asTarget? with | some target => g target | none => fail) Q := by
  split
  · next target ht => exact hg target (Node.asTarget?_plain ht hn)
  · exact .fail

theorem returns_starTarget (h : Reads again) : Returns (starTarget again) Plain := by
  refine looks_here.passes.skip fun _ => (passes_accept "*").skip fun _ => .ite (fun _ => ?_) fun _ => ?_
  · refine (h .primary).andThen fun _ value hv => returns_target hv.1 fun target ht => ?_
    exact node_plain rfl (.one ht.1 .nil)
  · exact (h .primary).andThen fun _ value hv => returns_target hv.1 fun target ht => .pure ht

theorem returns_starTargets (h : Reads again) : Returns (starTargets again) Plain := by
  refine looks_here.passes.skip fun _ => (returns_starTarget h).andThen fun _ first hfirst => ?_
  refine (Returns.afterCommas (returns_starTarget h)).andThen fun _ ⟨rest, trailing⟩ hrest => ?_
  refine .ite (fun _ => .pure hfirst) fun _ => node_plain rfl ?_
  exact arranged_list hfirst.1 fun n hn => (hrest n hn).1

/-! ## Comprehensions -/

theorem looks_seesClause : Looks seesClause :=
  (looks_sees "for").bind fun _ => (looks_sees "async").bind fun _ => looks_peekSecond.bind fun _ => .pure _

theorem returns_clause (h : Reads again) : Returns (clause again) (·.Is .clause) := by
  refine looks_here.passes.skip fun _ => (passes_accept "async").skip fun _ => ?_
  refine (passes_expect "for").skip fun _ => (returns_starTargets h).andThen fun _ target ht => ?_
  refine (passes_expect "in").skip fun _ => (h .disjunction).andThen fun _ iter hi => ?_
  refine (Returns.manyWhen (passes_accept "if") (h .disjunction).is).andThen fun _ conditions hc => ?_
  exact node_is rfl (.one ht.1 (.one hi.1 (.list hc)))

theorem returns_clauses (h : Reads again) :
    Returns (clauses again) (Arranged [Slot.atLeastOne .generator .clause]) := by
  refine (Returns.manyWhen looks_seesClause.passes (returns_clause h)).andThen fun _ cs hcs => ?_
  refine .ite (fun _ => .fail) fun hne => .pure (.single ?_ (by simp) (by simpa using hcs))
  cases cs with
  | nil => exact absurd rfl hne
  | cons c cs => rfl

/-! ## Parameters -/

theorem returns_parameter (h : Reads again) (annotated mayStar : Bool) :
    Returns (parameter again annotated mayStar) (·.Is .parameter) := by
  refine looks_here.passes.skip fun _ => passes_identifier.skip fun _ => ?_
  refine (passes_acceptWhen annotated ":").skip fun _ => .ite (fun _ => ?_) fun _ => ?_
  · refine .andThen_ite (fun _ => (gives_starExpression h).is) (fun _ => (h .expression).is) fun hint hh => ?_
    exact node_is rfl (.present hh .nil)
  · exact node_is rfl (.absent .nil)

theorem passes_parameterEnd (close : String) : Passes (parameterEnd close) :=
  (looks_sees close).passes.skip fun _ => (passes_accept ",").skip fun _ =>
    .ite (fun _ => .pure trivial) fun _ => .fail

theorem returns_parameterStep (h : Reads again) (close : String) (annotated : Bool) {st : Parameters × Stage}
    (hst : st.1.WellFormed) :
    Returns (parameterStep again close annotated st) fun o => ∀ st' ∈ o, st'.1.WellFormed := by
  obtain ⟨ps, stage⟩ := st
  refine (looks_sees close).passes.skip fun _ => .ite (fun _ => .pure (by simp)) fun _ => ?_
  cases stage with
  | finished => exact .fail
  | positional sawDefault sawSlash =>
    refine (passes_accept "/").skip fun _ => .ite (fun _ => .ite (fun _ => .failed) fun _ => ?_) fun _ => ?_
    · exact (passes_parameterEnd close).skip fun _ => .pure (by grind [Parameters.WellFormed])
    refine (passes_accept "**").skip fun _ => .ite (fun _ => ?_) fun _ => ?_
    · refine (returns_parameter h _ _).andThen fun _ p hp => (passes_parameterEnd close).skip fun _ => ?_
      exact .pure (by grind [Parameters.WellFormed])
    refine (passes_accept "*").skip fun _ => .ite (fun _ => ?_) fun _ => ?_
    · refine (passes_accept ",").skip fun _ => .ite (fun _ => .pure (by grind [Parameters.WellFormed])) fun _ => ?_
      refine (returns_parameter h _ _).andThen fun _ p hp => (passes_parameterEnd close).skip fun _ => ?_
      exact .pure (by grind [Parameters.WellFormed])
    refine (returns_parameter h _ _).andThen fun _ p hp => ?_
    refine (passes_accept "=").skip fun _ => .ite (fun _ => ?_) fun _ => .ite (fun _ => .fail) fun _ => ?_
    · refine (h .expression).is.andThen fun _ d hd => (passes_parameterEnd close).skip fun _ => ?_
      exact .pure (by grind [Parameters.WellFormed])
    · exact (passes_parameterEnd close).skip fun _ => .pure (by grind [Parameters.WellFormed])
  | keywords bare =>
    refine (passes_acceptWhen _ "**").skip fun _ => .ite (fun _ => ?_) fun _ => ?_
    · refine (returns_parameter h _ _).andThen fun _ p hp => (passes_parameterEnd close).skip fun _ => ?_
      exact .pure (by grind [Parameters.WellFormed])
    refine (returns_parameter h _ _).andThen fun _ p hp => ?_
    refine (passes_accept "=").skip fun _ => .ite (fun _ => ?_) fun _ => ?_
    · refine (h .expression).is.andThen fun _ d hd => (passes_parameterEnd close).skip fun _ => ?_
      exact .pure (by grind [Parameters.WellFormed])
    · exact (passes_parameterEnd close).skip fun _ => .pure (by grind [Parameters.WellFormed])

theorem returns_signature (h : Reads again) (close : String) (annotated : Bool) :
    Returns (signature again close annotated) (·.Is .signature) := by
  have hstart : (⟨[], [], none, [], [], none, []⟩ : Parameters).WellFormed := ⟨by simp, by simp⟩
  refine looks_here.passes.skip fun _ => ?_
  refine (Returns.extend (fun st hst => returns_parameterStep h close annotated hst)
    hstart).andThen fun _ ⟨ps, stage⟩ hps => ?_
  dsimp only
  split
  · exact .fail
  · exact node_is rfl hps.arranged

theorem gives_lambdaExpression (h : Reads again) : Gives (lambdaExpression again) Expression := by
  intro s
  refine .here (.expect (by decide) ?_)
  refine (returns_signature h _ _).andThen fun _ args ha => (passes_expect ":").skip fun _ => ?_
  refine (h .expression).andThen fun _ body hb => ?_
  refine Gives.imp (returns_node (.one ha (.one hb.1 .nil))) fun L n hn => ⟨hn.1, ?_⟩
  simp [Node.lambdaStart, hn.2.1, hn.2.2.1]

/-! ## Calls -/

theorem returns_argumentStep (h : Reads again) {args : Arguments} (hargs : args.WellFormed) :
    Returns (argumentStep again args) fun o => ∀ args' ∈ o, args'.WellFormed := by
  refine (looks_sees ")").passes.skip fun _ => .ite (fun _ => .pure (by simp)) fun _ => ?_
  refine looks_here.passes.skip fun _ => (passes_accept "**").skip fun _ => .ite (fun _ => ?_) fun _ => ?_
  · refine (h .expression).andThen fun _ value hv => ?_
    refine Gives.andThen (node_is rfl (.one hv.1 .nil)) fun _ k (hk : k.Is .keyword) => ?_
    refine (looks_sees ")").passes.skip fun _ => (passes_accept ",").skip fun _ => ?_
    exact .ite (fun _ => .pure (by grind [Arguments.WellFormed])) fun _ => .failed
  refine (looks_sees "*").passes.skip fun _ => .ite (fun _ => .ite (fun _ => .failed) fun _ => ?_) fun _ => ?_
  · refine (Gives.plain (returns_starred h _)).is.andThen fun _ s hs => ?_
    refine (looks_sees ")").passes.skip fun _ => (passes_accept ",").skip fun _ => ?_
    exact .ite (fun _ => .pure (by grind [Arguments.WellFormed])) fun _ => .failed
  refine looks_peek.passes.skip fun _ => looks_peekSecond.passes.skip fun _ => .ite (fun _ => ?_) fun _ => ?_
  · refine passes_nameText.skip fun _ => (passes_expect "=").skip fun _ => ?_
    refine (h .expression).andThen fun _ value hv => ?_
    refine Gives.andThen (node_is rfl (.one hv.1 .nil)) fun _ k (hk : k.Is .keyword) => ?_
    refine (looks_sees ")").passes.skip fun _ => (passes_accept ",").skip fun _ => ?_
    exact .ite (fun _ => .pure (by grind [Arguments.WellFormed])) fun _ => .failed
  · refine .ite (fun _ => .failed) fun _ => (gives_namedExpression h).is.andThen fun _ value hv => ?_
    refine (looks_sees ")").passes.skip fun _ => (passes_accept ",").skip fun _ => ?_
    exact .ite (fun _ => .pure (by grind [Arguments.WellFormed])) fun _ => .failed

theorem returns_arguments (h : Reads again) : Returns (arguments again) fun args =>
    Arranged [Slot.many .argument .expression] args.1 ∧ Arranged [Slot.many .keyword .keyword] args.2 := by
  refine (Returns.extend (fun args hargs => returns_argumentStep h hargs)
    (⟨by simp, by simp⟩ : Arguments.WellFormed ⟨[], [], 0⟩)).andThen fun _ args hargs => .pure ?_
  exact ⟨.list hargs.positional, .list hargs.keywords⟩

theorem returns_callArguments (h : Reads again) : Returns (callArguments again) fun args =>
    Arranged [Slot.many .argument .expression] args.1 ∧ Arranged [Slot.many .keyword .keyword] args.2 := by
  refine looks_here.passes.skip fun _ => (passes_expect "(").skip fun _ => ?_
  refine (passes_accept ")").skip fun _ => .ite (fun _ => .pure ⟨.none .nil, .none .nil⟩) fun _ => ?_
  refine (looks_sees "*").passes.skip fun _ => (looks_sees "**").passes.skip fun _ => ?_
  refine looks_peek.passes.skip fun _ => looks_peekSecond.passes.skip fun _ => .ite (fun _ => ?_) fun _ => ?_
  · refine (gives_namedExpression h).andThen fun _ first hfirst => ?_
    refine looks_seesClause.passes.skip fun _ => .ite (fun _ => ?_) fun _ => ?_
    · refine (returns_clauses h).andThen fun _ gens hgens => (passes_expect ")").skip fun _ => ?_
      refine Gives.andThen (node_is rfl (.one hfirst.1 hgens)) fun _ g hg => .pure ?_
      exact ⟨.cons_list hg (.none .nil), .none .nil⟩
    · refine (looks_sees ")").passes.skip fun _ => (passes_accept ",").skip fun _ => ?_
      refine .ite (fun _ => ?_) fun _ => .failed
      refine (returns_arguments h).andThen fun _ ⟨positional, keywords⟩ hargs => ?_
      exact (passes_expect ")").skip fun _ => .pure ⟨.cons_list hfirst.1 hargs.1, hargs.2⟩
  · refine (returns_arguments h).andThen fun _ ⟨positional, keywords⟩ hargs => ?_
    exact (passes_expect ")").skip fun _ => .pure hargs

/-! ## Subscripts -/

theorem gives_sliceOrExpression (h : Reads again) : Gives (sliceOrExpression again) Expression := by
  have bound : ∀ r : Role, Returns (do
      if startsExpression (← peek) then return [(← again .expression).as r] else return [])
        (Arranged [Slot.optional r .expression]) := fun r =>
    looks_peek.passes.skip fun _ => .ite
      (fun _ => (h .expression).andThen fun _ n hn => .pure (.present hn.1 .nil))
      fun _ => .pure (.absent .nil)
  refine looks_here.passes.skip fun _ => looks_seesNamed.passes.skip fun _ => ?_
  refine (looks_sees ":").passes.skip fun _ => .join (Gives.bind (R := fun L o => ∀ n ∈ o, Expression L n)
    (.ite (fun _ => .pure (by simp)) fun _ => ?_) fun L lower hlower => ?_)
  · exact (gives_namedExpression h).map fun L n hn => by simpa using hn
  refine (passes_acceptWhen _ ":").skip fun _ => .ite (fun _ => ?_) fun _ => ?_
  · refine (bound .upper).andThen fun _ upper hupper => (passes_accept ":").skip fun _ => ?_
    refine .andThen_ite (fun _ => bound .step) (fun _ => .pure (.absent .nil)) fun step hstep => ?_
    refine Gives.imp (node_plain rfl ?_) fun L' n hn => .of_plain _ hn
    rw [Option.toList_map]
    exact ((Arranged.option fun n hn => (hlower n hn).1).append hupper).append hstep
  · cases lower with
    | none => exact .fail
    | some e => exact .pure (by simpa using hlower e rfl)

theorem gives_indexItem (h : Reads again) : Gives (indexItem again) Expression :=
  (looks_sees "*").passes.skip fun _ =>
    .ite (fun _ => .plain (returns_starred h _)) fun _ => gives_sliceOrExpression h

theorem gives_indexExpression (h : Reads again) : Gives (indexExpression again) Expression := by
  refine looks_here.passes.skip fun _ => (looks_sees "*").passes.skip fun _ => ?_
  refine (gives_indexItem h).continued fun first hfirst => ?_
  refine (Returns.afterCommas (gives_indexItem h).is).andThen fun _ ⟨rest, trailing⟩ hrest => ?_
  exact .ite (fun _ => .pure (.inl rfl)) fun _ => .larger (node_plain rfl (arranged_list hfirst hrest))

/-! ## Atoms -/

theorem gives_parenthesized (h : Reads again) : Gives (parenthesized again) Expression := by
  refine looks_here.passes.skip fun _ => (passes_expect "(").skip fun _ => ?_
  refine (passes_accept ")").skip fun _ => .ite (fun _ => .plain (node_plain rfl (.none .nil))) fun _ => ?_
  refine (looks_sees "yield").passes.skip fun _ => .ite (fun _ => .plain ?_) fun _ => ?_
  · exact (returns_yieldExpression h).andThen fun _ value hv => (passes_expect ")").skip fun _ => .pure hv
  refine (looks_sees "*").passes.skip fun _ => (gives_starNamedExpression h).continued fun first hfirst => ?_
  refine looks_seesClause.passes.skip fun _ => .ite (fun _ => .larger ?_) fun _ => ?_
  · refine (returns_clauses h).andThen fun _ gens hgens => (passes_expect ")").skip fun _ => ?_
    exact node_plain rfl (.one hfirst hgens)
  refine (looks_sees ",").passes.skip fun _ => .ite (fun _ => .larger ?_) fun _ => ?_
  · refine (Returns.afterCommas (gives_starNamedExpression h).is).andThen fun _ ⟨rest, _⟩ hrest => ?_
    exact (passes_expect ")").skip fun _ => node_plain rfl (arranged_list hfirst hrest)
  · exact (passes_expect ")").skip fun _ => .ite (fun _ => .fail) fun _ => .pure (.inl rfl)

theorem returns_listDisplay (h : Reads again) : Returns (listDisplay again) Plain := by
  refine looks_here.passes.skip fun _ => (passes_expect "[").skip fun _ => ?_
  refine (passes_accept "]").skip fun _ => .ite (fun _ => node_plain rfl (.none .nil)) fun _ => ?_
  refine (looks_sees "*").passes.skip fun _ => (gives_starNamedExpression h).is.andThen fun _ first hfirst => ?_
  refine looks_seesClause.passes.skip fun _ => .ite (fun _ => ?_) fun _ => ?_
  · refine (returns_clauses h).andThen fun _ gens hgens => (passes_expect "]").skip fun _ => ?_
    exact node_plain rfl (.one hfirst hgens)
  · refine (Returns.afterCommas (gives_starNamedExpression h).is).andThen fun _ ⟨rest, _⟩ hrest => ?_
    exact (passes_expect "]").skip fun _ => node_plain rfl (arranged_list hfirst hrest)

theorem returns_dictEntry (h : Reads again) : Returns (dictEntry again) fun e =>
    (∀ key ∈ e.1, key.Is .expression) ∧ e.2.Is .expression := by
  refine (passes_accept "**").skip fun _ => .ite (fun _ => ?_) fun _ => ?_
  · exact (h .bitOr).andThen fun _ value hv => .pure ⟨by simp, hv.1⟩
  · refine (h .expression).andThen fun _ key hk => (passes_expect ":").skip fun _ => ?_
    exact (h .expression).andThen fun _ value hv => .pure ⟨by simpa using hk.1, hv.1⟩

theorem returns_dictNode {entries : List (Option Node × Node)}
    (he : ∀ e ∈ entries, (∀ key ∈ e.1, key.Is .expression) ∧ e.2.Is .expression) :
    Returns (dictNode start entries) Plain := by
  have hkeys : Arranged [Slot.many .key .expression]
      (entries.filterMap fun e => e.1.map (·.as .key)) := by
    refine .single rfl ?_ ?_ <;> intro c hc <;> obtain ⟨e, hmem, hc⟩ := List.mem_filterMap.1 hc <;>
      obtain ⟨key, hkey, rfl⟩ := Option.map_eq_some_iff.1 hc
    · simp
    · simpa using (he e hmem).1 key hkey
  have hvalues : Arranged [Slot.many .value .expression] (entries.map fun e => e.2.as .value) := by
    refine .single rfl (List.forall_mem_map.2 fun e _ => by simp) (List.forall_mem_map.2 ?_)
    exact fun e hmem => by simpa using (he e hmem).2
  exact node_plain rfl (hkeys.append hvalues)

theorem returns_braced (h : Reads again) : Returns (braced again) Plain := by
  refine looks_here.passes.skip fun _ => (passes_expect "\x7b").skip fun _ => ?_
  refine (passes_accept "\x7d").skip fun _ => .ite (fun _ => node_plain rfl (.none (.none .nil))) fun _ => ?_
  refine (looks_sees "**").passes.skip fun _ => .ite (fun _ => ?_) fun _ => ?_
  · refine (returns_dictEntry h).andThen fun _ first hfirst => ?_
    refine (Returns.afterCommas (returns_dictEntry h)).andThen fun _ ⟨rest, _⟩ hrest => ?_
    exact (passes_expect "\x7d").skip fun _ => returns_dictNode (List.forall_mem_cons.2 ⟨hfirst, hrest⟩)
  refine (looks_sees "*").passes.skip fun _ => looks_seesNamed.passes.skip fun _ => ?_
  refine (gives_starNamedExpression h).is.andThen fun _ first hfirst => ?_
  refine (passes_acceptWhen _ ":").skip fun _ => .ite (fun _ => ?_) fun _ => ?_
  · refine (h .expression).andThen fun _ value hv => ?_
    refine looks_seesClause.passes.skip fun _ => .ite (fun _ => ?_) fun _ => ?_
    · refine (returns_clauses h).andThen fun _ gens hgens => (passes_expect "\x7d").skip fun _ => ?_
      exact node_plain rfl (.one hfirst (.one hv.1 hgens))
    · refine (Returns.afterCommas (returns_dictEntry h)).andThen fun _ ⟨rest, _⟩ hrest => ?_
      refine (passes_expect "\x7d").skip fun _ => returns_dictNode (List.forall_mem_cons.2 ⟨?_, hrest⟩)
      exact ⟨by simpa using hfirst, hv.1⟩
  refine looks_seesClause.passes.skip fun _ => .ite (fun _ => ?_) fun _ => ?_
  · refine (returns_clauses h).andThen fun _ gens hgens => (passes_expect "\x7d").skip fun _ => ?_
    exact node_plain rfl (.one hfirst hgens)
  · refine (Returns.afterCommas (gives_starNamedExpression h).is).andThen fun _ ⟨rest, _⟩ hrest => ?_
    exact (passes_expect "\x7d").skip fun _ => node_plain rfl (arranged_list hfirst hrest)

/-- The expression of a field is read from tokens of its own, so no token is taken here. -/
theorem returns_fieldExpression (h : Reads again) (text : List Char) (start : Pos) :
    Returns (fieldExpression again text start) (·.Is .expression) := by
  rintro s c n c' - hc
  obtain ⟨tokens, -, hc⟩ := bind_eq_ok.1 hc
  obtain ⟨⟨value, c₁⟩, hvalue, hc⟩ := bind_eq_ok.1 hc
  cases hc
  obtain ⟨L, hn, -⟩ := h .expression _ rfl hvalue
  exact ⟨[], hn.1, .refl _⟩

mutual

theorem returns_fieldNode (h : Reads again) (span : Span) (origin : Pos) : ∀ field,
    Returns (fieldNode again span origin field) Plain
  | .mk text brace none => by
    rw [fieldNode]
    refine (returns_fieldExpression h text _).andThen fun _ value hv => .pure ⟨?_, nofun⟩
    exact Node.new_is rfl (.one hv (.absent .nil))
  | .mk text brace (some fields) => by
    rw [fieldNode]
    refine (returns_fieldExpression h text _).andThen fun _ value hv => ?_
    refine (returns_fieldNodes h span origin fields).andThen fun _ inner hinner => .pure ⟨?_, nofun⟩
    have hspec : (Node.new .joinedStr span (inner.map (·.as .value))).Is .expression :=
      Node.new_is rfl (.list fun n hn => (hinner n hn).1)
    exact Node.new_is rfl (.one hv (.present hspec .nil))

theorem returns_fieldNodes (h : Reads again) (span : Span) (origin : Pos) : ∀ fields,
    Returns (fieldNodes again span origin fields) fun ns => ∀ n ∈ ns, n.Plain
  | [] => by
    rw [fieldNodes]
    exact .pure (by simp)
  | field :: fields => by
    rw [fieldNodes]
    refine (returns_fieldNode h span origin field).andThen fun _ n hn => ?_
    refine (returns_fieldNodes h span origin fields).andThen fun _ ns hns => .pure ?_
    exact List.forall_mem_cons.2 ⟨hn, hns⟩

end

theorem returns_textLiterals (h : Reads again) : Returns (textLiterals again) Plain := by
  have tokens : Passes (many do
      if (← peek).kind = .text then return some (← next) else return none) :=
    (Returns.many (Q := fun _ => True) <| looks_peek.passes.skip fun _ =>
      .ite (fun _ => passes_next.skip fun _ => .pure (by simp)) fun _ => .pure (by simp)).passes
  refine looks_here.passes.skip fun _ => tokens.skip fun _ => looks_get.passes.skip fun _ => ?_
  refine .ite (fun _ => .fail) fun _ => .ite (fun _ => ?_) fun _ => .ite (fun _ => .fail) fun _ =>
    .ite (fun _ => ?_) fun _ => ?_
  · refine Passes.skip (Returns.forIn (fun q _ _ => ?_) _ _ trivial) fun _ => .pure ⟨Node.new_is rfl .nil, nofun⟩
    exact (passes_lift _).skip fun _ => .pure fun _ _ => trivial
  · refine Gives.andThen (Returns.forIn (Q := fun ns : List Node => ∀ n ∈ ns, n.Is .expression)
      (fun q ns hns => ?_) _ [] (by simp)) fun _ ns hns => .pure ⟨Node.new_is rfl (.list hns), nofun⟩
    refine .ite (fun _ => ?_) fun _ => (passes_lift _).skip fun _ => .pure (by simpa using hns)
    refine (passes_lift _).skip fun fields => (returns_fieldNodes h _ _ fields).andThen fun _ new hnew => ?_
    exact .pure (by simpa using List.forall_mem_append.2 ⟨hns, fun n hn => (hnew n hn).1⟩)
  · refine Passes.skip (Returns.forIn (fun q _ _ => ?_) _ _ trivial) fun _ => .pure ⟨Node.new_is rfl .nil, nofun⟩
    exact (passes_lift _).skip fun _ => .pure fun _ _ => trivial

theorem returns_constant (value : Literal) : Returns (constant value) Plain :=
  looks_here.passes.skip fun _ => passes_next.skip fun _ => node_plain rfl .nil

theorem gives_atom (h : Reads again) : Gives (atom again) Expression := by
  refine looks_peek.passes.skip fun t => ?_
  split
  · exact .plain (returns_nameNode .read)
  · exact .plain (returns_constant _)
  · exact .plain (returns_textLiterals h)
  · exact .plain <| .ite (fun _ => returns_constant _) fun _ => .ite (fun _ => returns_constant _) fun _ =>
      .ite (fun _ => returns_constant _) fun _ => .fail
  · exact .ite (fun _ => gives_parenthesized h) fun _ => .ite (fun _ => .plain (returns_listDisplay h)) fun _ =>
      .ite (fun _ => .plain (returns_braced h)) fun _ => .ite (fun _ => .plain (returns_constant _)) fun _ => .fail
  · exact .fail

/-! ## Operators -/

theorem returns_trailer (h : Reads again) (start : Pos) {base : Node} (hbase : base.Is .expression) :
    Returns (trailer again start base) fun o => ∀ n ∈ o, n.Plain := by
  refine (passes_accept ".").skip fun _ => .ite (fun _ => ?_) fun _ => ?_
  · exact passes_identifier.skip fun _ => Returns.found (node_plain rfl (.one hbase .nil))
  refine (looks_sees "(").passes.skip fun _ => .ite (fun _ => ?_) fun _ => ?_
  · refine (returns_callArguments h).andThen fun _ ⟨positional, keywords⟩ hargs => ?_
    exact Returns.found (node_plain rfl ((Arranged.one hbase hargs.1).append hargs.2))
  refine (passes_accept "[").skip fun _ => .ite (fun _ => ?_) fun _ => .pure (by simp)
  refine (gives_indexExpression h).andThen fun _ index hi => (passes_expect "]").skip fun _ => ?_
  exact Returns.found (node_plain rfl (.one hbase (.one hi.1 .nil)))

/-- What extends an expression step by step gives the expression itself or a larger one. -/
theorem Gives.extended {step : Node → Parser (Option Node)} (hp : Gives p Expression)
    (hstep : ∀ n : Node, n.Is .expression → Returns (step n) fun o => ∀ m ∈ o, m.Plain) :
    Gives (p >>= extend step) Expression := by
  refine hp.continued fun n hn => Returns.extend (fun m hm => ?_) (.inl rfl)
  exact (hstep m (hm.is hn)).imp fun _ o ho m' hm' => .inr (ho m' hm')

theorem gives_primary (h : ∀ levels, Reads (deeper levels)) : Gives (primary deeper) Expression :=
  looks_here.passes.skip fun start => (gives_atom (h _)).extended fun _ hn => returns_trailer (h _) start hn

theorem gives_awaitPrimary (h : ∀ levels, Reads (deeper levels)) : Gives (awaitPrimary deeper) Expression := by
  refine looks_here.passes.skip fun _ => (passes_accept "await").skip fun _ => ?_
  refine .ite (fun _ => .plain ?_) fun _ => gives_primary h
  exact (gives_primary h).andThen fun _ value hv => node_plain rfl (.one hv.1 .nil)

theorem gives_power (h : ∀ levels, Reads (deeper levels)) : Gives (power deeper) Expression := by
  refine looks_here.passes.skip fun _ => (gives_awaitPrimary h).continued fun base hbase => ?_
  refine (passes_accept "**").skip fun _ => .ite (fun _ => .larger ?_) fun _ => .pure (.inl rfl)
  exact (h _ .factor).andThen fun _ exponent he => node_plain rfl (.one hbase (.one he.1 .nil))

theorem gives_factor (h : ∀ levels, Reads (deeper levels)) : Gives (factor deeper) Expression := by
  refine looks_here.passes.skip fun _ => (passes_acceptAny _).skip fun _ => ?_
  refine .ite (fun _ => .plain ?_) fun _ => gives_power h
  exact (h _ .factor).andThen fun _ operand ho => node_plain rfl (.one ho.1 .nil)

theorem gives_leftAssociative (ops : List String) (hp : Gives p Expression) :
    Gives (leftAssociative ops p) Expression := by
  refine looks_here.passes.skip fun _ => hp.extended fun left hleft => looks_peek.passes.skip fun _ => ?_
  refine .ite (fun _ => ?_) fun _ => .pure (by simp)
  refine passes_next.skip fun _ => hp.andThen fun _ right hright => ?_
  exact Returns.found (node_plain rfl (.one hleft (.one hright.1 .nil)))

theorem gives_bitOr (h : ∀ levels, Reads (deeper levels)) : Gives (bitOr deeper) Expression :=
  gives_leftAssociative _ <| gives_leftAssociative _ <| gives_leftAssociative _ <|
    gives_leftAssociative _ <| gives_leftAssociative _ <| gives_leftAssociative _ <| gives_factor h

theorem passes_acceptComparison : Passes acceptComparison := by
  refine looks_peek.passes.skip fun _ => .ite (fun _ => passes_next.skip fun _ => .pure trivial) fun _ => ?_
  refine (passes_accept "in").skip fun _ => .ite (fun _ => .pure trivial) fun _ => ?_
  refine (passes_accept "is").skip fun _ => .ite (fun _ => ?_) fun _ => ?_
  · exact (passes_accept "not").skip fun _ => .pure trivial
  refine (looks_sees "not").passes.skip fun _ => looks_peekSecond.passes.skip fun _ => ?_
  exact .ite (fun _ => (passes_expect "not").skip fun _ => passes_accept "in") fun _ => .pure trivial

theorem gives_comparison (h : ∀ levels, Reads (deeper levels)) : Gives (comparison deeper) Expression := by
  refine looks_here.passes.skip fun _ => (gives_bitOr h).continued fun first hfirst => ?_
  refine (Returns.manyWhen passes_acceptComparison (gives_bitOr h).is).andThen fun _ rest hrest => ?_
  exact .ite (fun _ => .pure (.inl rfl)) fun _ => .larger (node_plain rfl (.one hfirst (.list hrest)))

theorem gives_inversion (h : ∀ levels, Reads (deeper levels)) : Gives (inversion deeper) Expression := by
  refine looks_here.passes.skip fun _ => (passes_accept "not").skip fun _ => ?_
  refine .ite (fun _ => .plain ?_) fun _ => gives_comparison h
  exact (h _ .inversion).andThen fun _ operand ho => node_plain rfl (.one ho.1 .nil)

theorem gives_joined (word : String) (hp : Gives p Expression) : Gives (joined word p) Expression := by
  refine looks_here.passes.skip fun _ => hp.continued fun first hfirst => ?_
  refine (Returns.manyWhen (passes_accept word) hp.is).andThen fun _ rest hrest => ?_
  exact .ite (fun _ => .pure (.inl rfl)) fun _ => .larger (node_plain rfl (arranged_list hfirst hrest))

theorem gives_disjunction (h : ∀ levels, Reads (deeper levels)) : Gives (disjunction deeper) Expression :=
  gives_joined "or" (gives_joined "and" (gives_inversion h))

theorem gives_expression (h : ∀ levels, Reads (deeper levels)) : Gives (expression deeper) Expression := by
  refine looks_here.passes.skip fun _ => (looks_sees "lambda").passes.skip fun _ => ?_
  refine .ite (fun _ => gives_lambdaExpression (h _)) fun _ => (gives_disjunction h).continued fun value hv => ?_
  refine (passes_accept "if").skip fun _ => .ite (fun _ => .larger ?_) fun _ => .pure (.inl rfl)
  refine (h _ .disjunction).andThen fun _ test ht => (passes_expect "else").skip fun _ => ?_
  exact (h _ .expression).andThen fun _ other ho => node_plain rfl (.one ht.1 (.one hv (.one ho.1 .nil)))

theorem gives_rule (h : ∀ levels, Reads (deeper levels)) : ∀ goal, Gives (rule deeper goal) Expression
  | .expression => gives_expression h
  | .disjunction => gives_disjunction h
  | .inversion => gives_inversion h
  | .bitOr => gives_bitOr h
  | .factor => gives_factor h
  | .primary => gives_primary h

/-- However much is left of the stack, every rule gives expressions. -/
theorem gives_solve : ∀ (n waiting : Nat) (goal : Goal), Gives (solve n waiting goal) Expression
  | 0, _, _ => .throw
  | n + 1, 0, goal => gives_rule (gives_solve n) goal
  | n + 1, waiting + 1, goal => gives_solve n waiting goal

theorem gives_outermost (goal : Goal) : Gives (outermost goal) Expression := gives_solve _ _ goal

end Grammar

end EffectGraph
