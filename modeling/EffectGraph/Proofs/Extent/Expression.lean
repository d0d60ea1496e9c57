/-
How far expressions and patterns extend.

Every rule gives a node that reaches from the first token it takes to the last
one, so each lemma follows its rule step by step and at the end finds the parts
of the new node among what is known. The expression of a replacement field is
read from tokens of its own. They are cut out of the literal, in which they lie,
but of a literal that stands in a field itself the start is only known if it
ends on the line where it starts (`exists_inside_joinedStr`).
-/
import EffectGraph.Proofs.Extent.Literal
import EffectGraph.Proofs.Extent.Parser
import EffectGraph.Proofs.Grammar.Pattern

namespace EffectGraph.Grammar

open Node (AllFit)

/-- The rules at a deeper nesting give nodes that extend as far as what they take. -/
abbrev Extent (again : Again) : Prop := ∀ ⦃σ : Placing⦄ (goal : Goal), SpansNode σ (again goal)

variable {again : Again} {deeper : Deeper} {p : Parser Node} {σ : Placing} {lo : Pos}

/-! ## Names, stars and commas -/

theorem spans_starred (h : Extent again) (goal : Goal) : SpansNode σ (starred again goal) :=
  .here fun _ => (takes_expect "*").skip fun _ => (h goal).bind fun _ => .node rfl fun _ h => by simp_all

/-- A name starts where its token does. -/
theorem spans_nameNode (access : Access) : SpansNode σ (nameNode access) := by
  intro lo e c n c' hc hlo _ h
  obtain ⟨start, c₁, hstart, h⟩ := bind_ok.1 h
  obtain ⟨rfl, t, rest, hrest, rfl⟩ := here_ok hstart
  obtain ⟨id, c₂, hid, h⟩ := bind_ok.1 h
  cases h
  obtain ⟨u, more, hmore, hnext, hk⟩ := identifier_ok hid
  cases hrest.symm.trans hmore
  obtain ⟨hc', hlo', hlast, hbefore, -, hstands⟩ := next_ok hc hlo hnext
  refine ⟨hc', hlo', hlast, Node.allFit_cons.2 ⟨?_, Node.allFit_nil⟩⟩
  exact .new hbefore (fun _ => hstands.name hk) (le_refl _) Node.allFit_nil

theorem spans_namedExpression (h : Extent again) : SpansNode σ (namedExpression again) := by
  refine .here fun _ => looks_seesNamed.takes.skip fun _ => .ite ?_ ?_
  · refine (spans_nameNode .write).bind fun target => (takes_expect ":=").skip fun _ => ?_
    exact (h .expression).bind fun value => .node rfl fun _ h => by simp_all
  · refine (h .expression).bind fun value => (looks_sees ":=").takes.skip fun _ => ?_
    exact .ite .fail (.pure fun _ h => by simp_all)

theorem spans_starNamedExpression (h : Extent again) : SpansNode σ (starNamedExpression again) := fun _ =>
  (looks_sees "*").takes.skip fun _ => .ite (spans_starred h _).covers (spans_namedExpression h).covers

theorem spans_starExpression (h : Extent again) : SpansNode σ (starExpression again) := fun _ =>
  (looks_sees "*").takes.skip fun _ => .ite (spans_starred h _).covers (h _).covers

/-- An item that stands alone, or several with commas that form a larger node. -/
theorem spans_starExpressions (h : Extent again) : SpansNode σ (starExpressions again) := by
  refine .here fun _ => (spans_starExpression h).bind fun first => ?_
  refine (Spans.afterCommas (spans_starExpression h)).bind fun ⟨rest, trailing⟩ => ?_
  exact .ite (.pure fun _ h => by simp_all) (.node rfl fun _ h => by simp_all)

theorem spans_yieldExpression (h : Extent again) : SpansNode σ (yieldExpression again) := by
  refine .here fun _ => (takes_expect "yield").skip fun _ => (takes_accept "from").skip fun _ => .ite ?_ ?_
  · exact (h .expression).bind fun value => .node rfl fun _ h => by simp_all
  · refine looks_peek.takes.skip fun _ => .ite ?_ (.node rfl fun _ _ => by simp)
    exact (spans_starExpressions h).bind fun value => .node rfl fun _ h => by simp_all

theorem spans_yieldOrStarExpressions (h : Extent again) : SpansNode σ (yieldOrStarExpressions again) := fun _ =>
  (looks_sees "yield").takes.skip fun _ => .ite (spans_yieldExpression h).covers (spans_starExpressions h).covers

/-! ## Targets -/

theorem covers_target {β : Type} {n : Node} {g : Node → Parser β} {known : List Node} {Q : Pos → β → Prop}
    (hg : ∀ target, Covers σ lo (target :: known) (g target) Q) :
    Covers σ lo (n :: known) (match n.asTarget? with | some target => g target | none => fail) Q := by
  split
  · next target ht =>
    refine (hg target).weaken fun hi h => ?_
    rw [Node.allFit_cons] at h ⊢
    exact ⟨Node.fits_asTarget? n target ht σ lo hi h.1, h.2⟩
  · exact .fail

theorem spans_starTarget (h : Extent again) : SpansNode σ (starTarget again) := by
  refine .here fun _ => (takes_accept "*").skip fun _ => .ite ?_ ?_
  · exact (h .primary).bind fun value => covers_target fun target => .node rfl fun _ h => by simp_all
  · exact (h .primary).bind fun value => covers_target fun target => .pure fun _ h => by simp_all

theorem spans_starTargets (h : Extent again) : SpansNode σ (starTargets again) := by
  refine .here fun _ => (spans_starTarget h).bind fun first => ?_
  refine (Spans.afterCommas (spans_starTarget h)).bind fun ⟨rest, trailing⟩ => ?_
  exact .ite (.pure fun _ h => by simp_all) (.node rfl fun _ h => by simp_all)

/-! ## Comprehensions -/

theorem spans_clause (h : Extent again) : SpansNode σ (clause again) := by
  refine .here fun _ => (takes_accept "async").skip fun _ => (takes_expect "for").skip fun _ => ?_
  refine (spans_starTargets h).bind fun target => (takes_expect "in").skip fun _ => ?_
  refine (h .disjunction).bind fun iter => ?_
  refine (Spans.manyWhen (takes_accept "if") (h .disjunction)).bind fun conditions => ?_
  exact .node rfl fun _ h => by simp_all

theorem spans_clauses (h : Extent again) : Spans σ (clauses again) id := fun _ =>
  (Spans.manyWhen looks_seesClause.takes (spans_clause h)).bind fun cs =>
    .ite .fail (.pure fun _ h => by simp_all)

/-! ## Parameters -/

/-- The nodes that have been read of a signature. -/
def Parameters.nodes (ps : Parameters) : List Node :=
  ps.posonly ++ ps.positional ++ ps.vararg.toList ++ ps.kwonly ++ ps.kwDefaults ++ ps.kwarg.toList ++ ps.defaults

theorem spans_parameter (h : Extent again) (annotated mayStar : Bool) :
    SpansNode σ (parameter again annotated mayStar) := by
  refine .here fun _ => takes_identifier.skip fun _ => (takes_acceptWhen annotated ":").skip fun _ => ?_
  refine .ite (.bind_ite (spans_starExpression h).covers (h .expression).covers fun hint => ?_) ?_
  · exact .node rfl fun _ h => by simp_all
  · exact .node rfl fun _ _ => by simp

theorem takes_parameterEnd (close : String) : Takes σ (parameterEnd close) := fun _ =>
  (looks_sees close).takes.skip fun _ => (takes_accept ",").skip fun _ =>
    .ite (.pure fun _ _ => by simp) .fail

theorem covers_parameterStep (h : Extent again) (close : String) (annotated : Bool) (st : Parameters × Stage) :
    Covers σ lo st.1.nodes (parameterStep again close annotated st) fun hi o =>
      AllFit σ lo hi (o.toList.flatMap (·.1.nodes)) := by
  obtain ⟨ps, stage⟩ := st
  -- Every way to go on ends with the end of a parameter and adds to `ps` what was read before.
  have finish : ∀ {known : List Node} {ps' : Parameters} {stage' : Stage},
      (∀ hi, AllFit σ lo hi known → AllFit σ lo hi ps'.nodes) →
      Covers σ lo known (do parameterEnd close; return some (ps', stage')) fun hi o =>
        AllFit σ lo hi (o.toList.flatMap (·.1.nodes)) := fun h =>
    (takes_parameterEnd close).skip fun _ => .pure fun hi hknown => by simpa using h hi hknown
  refine (looks_sees close).takes.skip fun _ => .ite (.pure fun _ _ => by simp) ?_
  cases stage with
  | finished => exact .fail
  | positional sawDefault sawSlash =>
    refine (takes_accept "/").skip fun _ => .ite (.ite .failed ?_) ?_
    · exact finish fun _ h => by simp_all [Parameters.nodes]
    refine (takes_accept "**").skip fun _ => .ite ?_ ?_
    · exact (spans_parameter h _ _).bind fun p => finish fun _ h => by simp_all [Parameters.nodes]
    refine (takes_accept "*").skip fun _ => .ite ?_ ?_
    · refine (takes_accept ",").skip fun _ => .ite (.pure fun _ h => by simp_all) ?_
      exact (spans_parameter h _ _).bind fun p => finish fun _ h => by simp_all [Parameters.nodes]
    refine (spans_parameter h _ _).bind fun p => (takes_accept "=").skip fun _ => .ite ?_ (.ite .fail ?_)
    · exact (h .expression).bind fun d => finish fun _ h => by simp_all [Parameters.nodes]
    · exact finish fun _ h => by simp_all [Parameters.nodes]
  | keywords bare =>
    refine (takes_acceptWhen _ "**").skip fun _ => .ite ?_ ?_
    · exact (spans_parameter h _ _).bind fun p => finish fun _ h => by simp_all [Parameters.nodes]
    refine (spans_parameter h _ _).bind fun p => (takes_accept "=").skip fun _ => .ite ?_ ?_
    · exact (h .expression).bind fun d => finish fun _ h => by simp_all [Parameters.nodes]
    · exact finish fun _ h => by simp_all [Parameters.nodes]

theorem spans_signature (h : Extent again) (close : String) (annotated : Bool) :
    SpansNode σ (signature again close annotated) := by
  refine .here fun _ => ?_
  refine (Covers.extend (covers_parameterStep h close annotated) fun _ _ => by simp [Parameters.nodes]).bind
    fun ⟨ps, stage⟩ => ?_
  dsimp only
  split
  · exact .fail
  · exact .node rfl fun _ h => by simp_all [Parameters.nodes]

theorem spans_lambdaExpression (h : Extent again) : SpansNode σ (lambdaExpression again) := by
  refine .here fun _ => (takes_expect "lambda").skip fun _ => (spans_signature h _ _).bind fun args => ?_
  refine (takes_expect ":").skip fun _ => (h .expression).bind fun body => ?_
  exact .node rfl fun _ h => by simp_all

/-! ## Calls -/

/-- The nodes that have been read of the arguments of a call. -/
def Arguments.nodes (args : Arguments) : List Node := args.positional ++ args.keywords

theorem covers_argumentStep (h : Extent again) (args : Arguments) :
    Covers σ lo args.nodes (argumentStep again args) fun hi o => AllFit σ lo hi (o.toList.flatMap (·.nodes)) := by
  refine (looks_sees ")").takes.skip fun _ => .ite (.pure fun _ _ => by simp) (.here fun start hlo => ?_)
  -- What stands before this argument is known from `lo` on, and the argument from its start on.
  have finish : ∀ {known : List Node} {args' : Arguments},
      (∀ hi, AllFit σ lo hi known → AllFit σ lo hi args.nodes → AllFit σ lo hi args'.nodes) →
      Covers σ start known (do
        unless (← sees ")") || (← accept ",") do fail
        return some args') fun hi o => AllFit σ lo hi args.nodes →
          AllFit σ lo hi (o.toList.flatMap (·.nodes)) := fun h =>
    (looks_sees ")").takes.skip fun _ => (takes_accept ",").skip fun _ =>
      .ite (.pure fun hi hknown hargs => by simpa using h hi (hknown.mono hlo (le_refl _)) hargs) .failed
  refine (takes_accept "**").skip fun _ => .ite ?_ ?_
  · refine (h .expression).bind fun value => ?_
    refine Covers.bind (.node rfl fun _ h => by simp_all) fun k => finish fun _ h => ?_
    simp_all [Arguments.nodes]
  refine (looks_sees "*").takes.skip fun _ => .ite (.ite .failed ?_) ?_
  · exact (spans_starred h _).bind fun s => finish fun _ h => by simp_all [Arguments.nodes]
  refine looks_peek.takes.skip fun _ => looks_peekSecond.takes.skip fun _ => .ite ?_ (.ite .failed ?_)
  · refine takes_nameText.skip fun _ => (takes_expect "=").skip fun _ => (h .expression).bind fun value => ?_
    refine Covers.bind (.node rfl fun _ h => by simp_all) fun k => finish fun _ h => ?_
    simp_all [Arguments.nodes]
  · exact (spans_namedExpression h).bind fun value => finish fun _ h => by simp_all [Arguments.nodes]

theorem spans_arguments (h : Extent again) : Spans σ (arguments again) fun args => args.1 ++ args.2 := fun _ =>
  (Covers.extend (covers_argumentStep h) fun _ _ => by simp [Arguments.nodes]).bind fun args =>
    .pure fun _ h => by simp_all [Arguments.nodes]

theorem spans_callArguments (h : Extent again) :
    Spans σ (callArguments again) fun args => args.1 ++ args.2 := by
  refine .here fun _ => (takes_expect "(").skip fun _ => ?_
  refine (takes_accept ")").skip fun _ => .ite (.pure fun _ _ => by simp) ?_
  refine (looks_sees "*").takes.skip fun _ => (looks_sees "**").takes.skip fun _ => ?_
  refine looks_peek.takes.skip fun _ => looks_peekSecond.takes.skip fun _ => .ite ?_ ?_
  · refine (spans_namedExpression h).bind fun first => looks_seesClause.takes.skip fun _ => .ite ?_ ?_
    · refine (spans_clauses h).bind fun gens => (takes_expect ")").skip fun _ => ?_
      exact Covers.bind (.node rfl fun _ h => by simp_all) fun g => .pure fun _ h => by simp_all
    · refine (looks_sees ")").takes.skip fun _ => (takes_accept ",").skip fun _ => .ite ?_ .failed
      refine (spans_arguments h).bind fun ⟨positional, keywords⟩ => (takes_expect ")").skip fun _ => ?_
      exact .pure fun _ h => by simp_all
  · refine (spans_arguments h).bind fun ⟨positional, keywords⟩ => (takes_expect ")").skip fun _ => ?_
    exact .pure fun _ h => by simp_all

/-! ## Subscripts -/

theorem spans_sliceOrExpression (h : Extent again) : SpansNode σ (sliceOrExpression again) := by
  have bound : ∀ r : Role, Spans σ (do
      if startsExpression (← peek) then return [(← again .expression).as r] else return []) id := fun r _ =>
    looks_peek.takes.skip fun _ => .ite
      ((h .expression).bind fun _ => .pure fun _ h => by simp_all) (.pure fun _ _ => by simp)
  refine .here fun _ => looks_seesNamed.takes.skip fun _ => (looks_sees ":").takes.skip fun _ => ?_
  refine .bind_ite (.pure fun _ _ => by simp) (spans_namedExpression h).present.covers fun lower => ?_
  refine (takes_acceptWhen _ ":").skip fun _ => .ite ?_ ?_
  · refine (bound .upper).bind fun upper => (takes_accept ":").skip fun _ => ?_
    refine .bind_ite (bound .step).covers (.pure fun _ _ => by simp) fun step => ?_
    exact .node rfl fun _ h => by simp_all [Option.toList_map]
  · cases lower with
    | none => exact .fail
    | some e => exact .pure fun _ h => by simp_all

theorem spans_indexItem (h : Extent again) : SpansNode σ (indexItem again) := fun _ =>
  (looks_sees "*").takes.skip fun _ => .ite (spans_starred h _).covers (spans_sliceOrExpression h).covers

theorem spans_indexExpression (h : Extent again) : SpansNode σ (indexExpression again) := by
  refine .here fun _ => (looks_sees "*").takes.skip fun _ => (spans_indexItem h).bind fun first => ?_
  refine (Spans.afterCommas (spans_indexItem h)).bind fun ⟨rest, trailing⟩ => ?_
  exact .ite (.pure fun _ h => by simp_all) (.node rfl fun _ h => by simp_all)

/-! ## Atoms -/

theorem spans_parenthesized (h : Extent again) : SpansNode σ (parenthesized again) := by
  refine .here fun _ => (takes_expect "(").skip fun _ => ?_
  refine (takes_accept ")").skip fun _ => .ite (.node rfl fun _ _ => by simp) ?_
  refine (looks_sees "yield").takes.skip fun _ => .ite ?_ ?_
  · refine (spans_yieldExpression h).bind fun value => (takes_expect ")").skip fun _ => ?_
    exact .pure fun _ h => by simp_all
  refine (looks_sees "*").takes.skip fun _ => (spans_starNamedExpression h).bind fun first => ?_
  refine looks_seesClause.takes.skip fun _ => .ite ?_ ?_
  · refine (spans_clauses h).bind fun gens => (takes_expect ")").skip fun _ => ?_
    exact .node rfl fun _ h => by simp_all
  refine (looks_sees ",").takes.skip fun _ => .ite ?_ ?_
  · refine (Spans.afterCommas (spans_starNamedExpression h)).bind fun ⟨rest, _⟩ => ?_
    exact (takes_expect ")").skip fun _ => .node rfl fun _ h => by simp_all
  · exact (takes_expect ")").skip fun _ => .ite .fail (.pure fun _ h => by simp_all)

theorem spans_listDisplay (h : Extent again) : SpansNode σ (listDisplay again) := by
  refine .here fun _ => (takes_expect "[").skip fun _ => ?_
  refine (takes_accept "]").skip fun _ => .ite (.node rfl fun _ _ => by simp) ?_
  refine (looks_sees "*").takes.skip fun _ => (spans_starNamedExpression h).bind fun first => ?_
  refine looks_seesClause.takes.skip fun _ => .ite ?_ ?_
  · refine (spans_clauses h).bind fun gens => (takes_expect "]").skip fun _ => ?_
    exact .node rfl fun _ h => by simp_all
  · refine (Spans.afterCommas (spans_starNamedExpression h)).bind fun ⟨rest, _⟩ => ?_
    exact (takes_expect "]").skip fun _ => .node rfl fun _ h => by simp_all

/-- The nodes of an entry of a dictionary. -/
def entryNodes (e : Option Node × Node) : List Node := e.1.toList ++ [e.2]

theorem spans_dictEntry (h : Extent again) : Spans σ (dictEntry again) entryNodes := fun _ => by
  refine (takes_accept "**").skip fun _ => .ite ?_ ?_
  · exact (h .bitOr).bind fun value => .pure fun _ h => by simp_all [entryNodes]
  · refine (h .expression).bind fun key => (takes_expect ":").skip fun _ => ?_
    exact (h .expression).bind fun value => .pure fun _ h => by simp_all [entryNodes]

theorem covers_dictNode {known : List Node} {entries : List (Option Node × Node)}
    (he : ∀ hi, AllFit σ lo hi known → AllFit σ lo hi (entries.flatMap entryNodes)) :
    Covers σ lo known (dictNode lo entries) fun hi n => AllFit σ lo hi [n] := by
  refine .node rfl fun hi hknown => ?_
  have hfit := Node.allFit_flatMap.1 (he hi hknown)
  refine Node.allFit_append.2 ⟨fun n hn => ?_, fun n hn => ?_⟩
  · obtain ⟨e, hmem, hn⟩ := List.mem_filterMap.1 hn
    obtain ⟨key, hkey, rfl⟩ := Option.map_eq_some_iff.1 hn
    exact Node.fits_as.2 (hfit e hmem key (by simp [entryNodes, hkey]))
  · obtain ⟨e, hmem, rfl⟩ := List.mem_map.1 hn
    exact Node.fits_as.2 (hfit e hmem e.2 (by simp [entryNodes]))

theorem spans_braced (h : Extent again) : SpansNode σ (braced again) := by
  refine .here fun _ => (takes_expect "\x7b").skip fun _ => ?_
  refine (takes_accept "\x7d").skip fun _ => .ite (.node rfl fun _ _ => by simp) ?_
  refine (looks_sees "**").takes.skip fun _ => .ite ?_ ?_
  · refine (spans_dictEntry h).bind fun first => ?_
    refine (Spans.afterCommas (spans_dictEntry h)).bind fun ⟨rest, _⟩ => (takes_expect "\x7d").skip fun _ => ?_
    exact covers_dictNode fun _ h => by simp_all
  refine (looks_sees "*").takes.skip fun _ => looks_seesNamed.takes.skip fun _ => ?_
  refine (spans_starNamedExpression h).bind fun first => (takes_acceptWhen _ ":").skip fun _ => .ite ?_ ?_
  · refine (h .expression).bind fun value => looks_seesClause.takes.skip fun _ => .ite ?_ ?_
    · refine (spans_clauses h).bind fun gens => (takes_expect "\x7d").skip fun _ => ?_
      exact .node rfl fun _ h => by simp_all
    · refine (Spans.afterCommas (spans_dictEntry h)).bind fun ⟨rest, _⟩ => (takes_expect "\x7d").skip fun _ => ?_
      exact covers_dictNode fun _ h => by simp_all [entryNodes]
  refine looks_seesClause.takes.skip fun _ => .ite ?_ ?_
  · refine (spans_clauses h).bind fun gens => (takes_expect "\x7d").skip fun _ => ?_
    exact .node rfl fun _ h => by simp_all
  · refine (Spans.afterCommas (spans_starNamedExpression h)).bind fun ⟨rest, _⟩ => ?_
    exact (takes_expect "\x7d").skip fun _ => .node rfl fun _ h => by simp_all

/-! ## Literals -/

/-- A field counts as starting somewhere between the start of its literal and its brace. -/
theorem fieldStart_within {origin brace : Pos} (h : origin ≤ brace) (text : List Char) :
    origin ≤ fieldStart origin brace text ∧ fieldStart origin brace text ≤ brace := by
  unfold fieldStart
  split
  · split
    · exact ⟨le_refl _, h⟩
    · next hline =>
      rw [Pos.le_iff, Pos.le_iff]
      rw [Pos.le_iff] at h
      grind
  · exact ⟨h, le_refl _⟩

/-- The expression of a field lies after the start of the field, as far as is known, and before the
end of its text. -/
theorem covers_fieldExpression (h : Extent again) (text : List Char) (start : Pos) :
    Covers σ lo [] (fieldExpression again text start) fun _ n =>
      n.Fits (.field start) start (start.advance ('(' :: text ++ [')'])) := by
  intro e c n c' hc hlo _ hn
  obtain ⟨tokens, htokens, hn⟩ := bind_eq_ok.1 hn
  obtain ⟨⟨value, c₁⟩, hvalue, hn⟩ := bind_eq_ok.1 hn
  cases hn
  have hplaced : Token.Placed (.field start) _ _ (tokens.map (placed start)) :=
    (Token.ordered_scanAt htokens).placed (Nat.le_refl _)
  rw [Pos.moved_advance (show start.line ≤ (⟨start.line, 0⟩ : Pos).line from Nat.le_refl _),
    Pos.moved_lineStart] at hplaced
  have hordered : (Cursor.ofTokens (tokens.map (placed start)) start).Ordered (.field start) _ := hplaced
  obtain ⟨hc₁, -, -, hfit⟩ := h .expression start hordered hordered.startsAfter Node.allFit_nil hvalue
  exact ⟨hc, hlo, le_refl _, (hfit n List.mem_cons_self).mono .rfl hc₁.le⟩

section Fields

variable {span : Span} {origin start : Pos}

/-- A field in a literal that is one of several adjacent ones. -/
theorem covers_field (h : Extent again) (hspan : span.start.line ≤ origin.line) (hstart : start ≤ origin)
    {text : List Char} {brace : Pos} (hbrace : origin ≤ brace)
    (hstop : brace.advance ('(' :: text ++ [')']) ≤ span.stop) :
    Covers σ lo [] (fieldExpression again text (fieldStart origin brace text)) fun _ n =>
      n.Fits (.field start) span.start span.stop := by
  obtain ⟨hafter, hbefore⟩ := fieldStart_within hbrace text
  refine (covers_fieldExpression h text _).imp fun _ n hn => ?_
  refine (hn.field_mono (hstart.trans hafter)).mono ?_ ((Pos.advance_mono hbefore _).trans hstop)
  exact Nat.le_trans hspan (Pos.line_le hafter)

mutual

theorem covers_fieldNode (h : Extent again) (hspan : span.start.line ≤ origin.line) (hstart : start ≤ origin) :
    ∀ field, field.Lies origin span.stop →
      Covers σ lo [] (fieldNode again span origin field) fun _ n => n.Fits (.field start) span.start span.stop
  | .mk text brace none, .mk hbrace hstop _ => by
    rw [fieldNode]
    refine (covers_field h hspan hstart hbrace hstop).andThen fun value hvalue => .pure fun _ _ => ?_
    exact .new .rfl (by simp [Kind.isName]) (le_refl _) (by simpa [Placing.inside, Kind.isFormatted] using hvalue)
  | .mk text brace (some fields), .mk hbrace hstop hspec => by
    rw [fieldNode]
    refine (covers_field h hspan hstart hbrace hstop).andThen fun value hvalue => ?_
    refine (covers_fieldNodes h hspan hstart fields (hspec fields rfl)).andThen fun inner hinner => .pure fun _ _ => ?_
    have hjoined : (Node.new .joinedStr span (inner.map (·.as .value))).Fits (.field start) span.start span.stop := by
      refine .new .rfl (by simp [Kind.isName]) (le_refl _) (Node.allFit_as.2 fun n hn => (hinner n hn).field_mono ?_)
      split
      · exact Pos.le_iff.2 (by simp only; omega)
      · exact le_refl _
    refine .new .rfl (by simp [Kind.isName]) (le_refl _) ?_
    simpa [Placing.inside, Kind.isFormatted] using ⟨hvalue, hjoined⟩

theorem covers_fieldNodes (h : Extent again) (hspan : span.start.line ≤ origin.line) (hstart : start ≤ origin) :
    ∀ fields : List Field, (∀ f ∈ fields, f.Lies origin span.stop) →
      Covers σ lo [] (fieldNodes again span origin fields) fun _ => AllFit (.field start) span.start span.stop
  | [], _ => by
    rw [fieldNodes]
    exact .pure fun _ _ => Node.allFit_nil
  | field :: fields, hfields => by
    rw [fieldNodes]
    obtain ⟨hfield, hfields⟩ := List.forall_mem_cons.1 hfields
    refine (covers_fieldNode h hspan hstart field hfield).andThen fun n hn => ?_
    refine (covers_fieldNodes h hspan hstart fields hfields).andThen fun ns hns => .pure fun _ _ => ?_
    exact Node.allFit_cons.2 ⟨hn, hns⟩

end

end Fields

/-- A text token lies between two places. -/
def TextLies (σ : Placing) (lo hi : Pos) (t : Token) : Prop :=
  σ.Le lo t.span.start ∧ t.span.start.advance t.text.toList ≤ hi ∧
    (σ.Keeps t.span.start ∨ t.span.start.line < (t.span.start.advance t.text.toList).line)

theorem covers_textTokens {known : List Node} : Covers σ lo known
    (many do if (← peek).kind = .text then return some (← next) else return none) fun hi tokens =>
      ∀ t ∈ tokens, TextLies σ lo hi t := by
  refine .manyOf (fun hhi h => ⟨h.1, h.2.1.trans hhi, h.2.2⟩) ?_
  intro e c o c' hc hlo _ h
  obtain ⟨t, c₁, hpeek, htaken⟩ := bind_ok.1 h
  obtain rfl := looks_peek hpeek
  split at htaken
  · next ht =>
    obtain ⟨u, c₂, hnext, ho⟩ := bind_ok.1 htaken
    obtain rfl := peek_next hpeek hnext
    obtain ⟨hc', hlo', hlast, hstart, hstop, hstands⟩ := next_ok hc hlo hnext
    cases ho
    have hend : u.span.start.advance u.text.toList = c'.last := by
      rw [← hstands.size ht, hstop (by simp [Token.isLayout, ht])]
    refine ⟨hc', hlo', hlast, ?_⟩
    rintro v ⟨⟩
    exact ⟨hstart, le_of_eq hend, hstands.size ht ▸ hstands.text ht⟩
  · cases htaken
    exact ⟨hc, hlo, le_refl _, by simp⟩

theorem covers_lift {α : Type} {x : Except Fault α} {known : List Node} :
    Covers σ lo known (liftM x : Parser α) fun _ a => x = .ok a := by
  intro e c a c' hc hlo _ h
  cases x with
  | error e => cases h
  | ok b =>
    cases h
    exact ⟨hc, hlo, le_refl _, rfl⟩

/-- In a formatted text, places are known from some place on that all of its literals start after. -/
theorem exists_inside_joinedStr {hi : Pos} {tokens : List Token} (h : ∀ t ∈ tokens, TextLies σ lo hi t) :
    ∃ start, σ.inside .joinedStr ⟨lo, hi⟩ = .field start ∧ ∀ t ∈ tokens, start ≤ t.span.start := by
  cases σ with
  | exact => exact ⟨lo, rfl, fun t ht => (h t ht).1⟩
  | field start =>
    refine ⟨_, rfl, fun t ht => ?_⟩
    obtain ⟨hstart, hstop, hkeeps⟩ := h t ht
    split
    · exact Pos.le_iff.2 (by simp only; omega)
    · -- A literal of several lines makes a text of several lines.
      next hshort =>
      refine hkeeps.resolve_right fun hlong => hshort ?_
      have hline : lo.line ≤ t.span.start.line := hstart
      simpa [Kind.isFormatted] using Nat.lt_of_le_of_lt hline (Nat.lt_of_lt_of_le hlong (Pos.line_le hstop))

theorem spans_textLiterals (h : Extent again) : SpansNode σ (textLiterals again) := by
  refine .here fun start => .last covers_textTokens fun tokens c hc => ?_
  -- The literal reaches from its first token to the end of its last one.
  have whole : ∀ {k : Kind} {cs : List Node}, k.isName = false → AllFit (σ.inside k ⟨start, c.last⟩) start c.last cs →
      Covers σ start [] (pure (Node.new k ⟨start, c.last⟩ cs)) fun hi n => c.last ≤ hi → AllFit σ start hi [n] :=
    fun hk hcs => .pure fun hi _ hhi => Node.allFit_cons.2 ⟨.new .rfl (by simp [hk]) hhi hcs, Node.allFit_nil⟩
  refine .ite .fail (.ite ?_ (.ite .fail (.ite ?_ ?_)))
  · refine Covers.andThen (.forIn (Q := fun _ => True) trivial fun q _ _ _ => ?_) fun _ _ => whole rfl Node.allFit_nil
    exact covers_lift.andThen fun _ _ => .pure fun _ _ _ _ => trivial
  · obtain ⟨first, hinside, hfirst⟩ := exists_inside_joinedStr hc
    refine Covers.andThen (.forIn (Q := AllFit (.field first) start c.last) Node.allFit_nil fun q hq nodes hnodes => ?_)
      fun nodes hnodes => whole rfl (hinside ▸ Node.allFit_as.2 hnodes)
    obtain ⟨t, ht, rfl⟩ := List.mem_map.1 hq
    refine .ite (covers_lift.andThen fun fields hfields => ?_) ?_
    · have hwithin := QuotedText.ofToken_within t
      have hlies : ∀ f ∈ fields, f.Lies t.span.start c.last := fun f hf =>
        (Field.ofBody_lies hfields f hf).mono hwithin.1 (hwithin.2.trans (hc t ht).2.1)
      refine (covers_fieldNodes h (hc t ht).1.line_le (hfirst t ht) fields hlies).andThen fun new hnew =>
        .pure fun _ _ => ?_
      simpa using ⟨hnodes, hnew⟩
    · exact covers_lift.andThen fun _ _ => .pure fun _ _ => by simpa using hnodes
  · refine Covers.andThen (.forIn (Q := fun _ => True) trivial fun q _ _ _ => ?_) fun _ _ => whole rfl Node.allFit_nil
    exact covers_lift.andThen fun _ _ => .pure fun _ _ _ _ => trivial

theorem spans_constant (value : Literal) : SpansNode σ (constant value) :=
  .here fun _ => takes_next.skip fun _ => .node rfl fun _ _ => by simp

theorem spans_atom (h : Extent again) : SpansNode σ (atom again) := fun lo => by
  refine looks_peek.takes.skip fun t => ?_
  split
  · exact spans_nameNode .read lo
  · exact spans_constant _ lo
  · exact spans_textLiterals h lo
  · exact .ite (spans_constant _ lo) (.ite (spans_constant _ lo) (.ite (spans_constant _ lo) .fail))
  · exact .ite (spans_parenthesized h lo) (.ite (spans_listDisplay h lo)
      (.ite (spans_braced h lo) (.ite (spans_constant _ lo) .fail)))
  · exact .fail

/-! ## Operators -/

/-- A new node that is found. -/
theorem Covers.found {known : List Node} (hp : Covers σ lo known p fun hi n => AllFit σ lo hi [n]) :
    Covers σ lo known (do return some (← p)) fun hi o => AllFit σ lo hi (o.toList.flatMap fun n => [n]) :=
  hp.bind fun _ => .pure fun _ h => by simp_all

theorem covers_trailer (h : Extent again) (base : Node) :
    Covers σ lo [base] (trailer again lo base) fun hi o => AllFit σ lo hi (o.toList.flatMap fun n => [n]) := by
  refine (takes_accept ".").skip fun _ => .ite ?_ ?_
  · exact takes_identifier.skip fun _ => .found (.node rfl fun _ h => by simp_all)
  refine (looks_sees "(").takes.skip fun _ => .ite ?_ ?_
  · exact (spans_callArguments h).bind fun ⟨positional, keywords⟩ => .found (.node rfl fun _ h => by simp_all)
  refine (takes_accept "[").skip fun _ => .ite ?_ (.pure fun _ _ => by simp)
  refine (spans_indexExpression h).bind fun index => (takes_expect "]").skip fun _ => ?_
  exact .found (.node rfl fun _ h => by simp_all)

theorem spans_primary (h : ∀ levels, Extent (deeper levels)) : SpansNode σ (primary deeper) :=
  .here fun _ => (spans_atom (h _)).bind fun _ =>
    .extend (N := fun n => [n]) (covers_trailer (h _)) fun _ h => by simp_all

theorem spans_awaitPrimary (h : ∀ levels, Extent (deeper levels)) : SpansNode σ (awaitPrimary deeper) := by
  refine .here fun _ => (takes_accept "await").skip fun _ => .ite ?_ (spans_primary h _)
  exact (spans_primary h).bind fun value => .node rfl fun _ h => by simp_all

theorem spans_power (h : ∀ levels, Extent (deeper levels)) : SpansNode σ (power deeper) := by
  refine .here fun _ => (spans_awaitPrimary h).bind fun base => (takes_accept "**").skip fun _ => ?_
  refine .ite ?_ (.pure fun _ h => by simp_all)
  exact (h _ .factor).bind fun exponent => .node rfl fun _ h => by simp_all

theorem spans_factor (h : ∀ levels, Extent (deeper levels)) : SpansNode σ (factor deeper) := by
  refine .here fun _ => (takes_acceptAny _).skip fun _ => .ite ?_ (spans_power h _)
  exact (h _ .factor).bind fun operand => .node rfl fun _ h => by simp_all

theorem spans_leftAssociative (ops : List String) (hp : SpansNode σ p) : SpansNode σ (leftAssociative ops p) := by
  refine .here fun _ => hp.bind fun first => .extend (N := fun n => [n]) (fun left => ?_) fun _ h => by simp_all
  refine looks_peek.takes.skip fun _ => .ite ?_ (.pure fun _ _ => by simp)
  exact takes_next.skip fun _ => hp.bind fun right => .found (.node rfl fun _ h => by simp_all)

theorem spans_bitOr (h : ∀ levels, Extent (deeper levels)) : SpansNode σ (bitOr deeper) :=
  spans_leftAssociative _ <| spans_leftAssociative _ <| spans_leftAssociative _ <|
    spans_leftAssociative _ <| spans_leftAssociative _ <| spans_leftAssociative _ <| spans_factor h

theorem takes_acceptComparison : Takes σ acceptComparison := fun _ => by
  refine looks_peek.takes.skip fun _ => .ite (takes_next.skip fun _ => .pure fun _ _ => by simp) ?_
  refine (takes_accept "in").skip fun _ => .ite (.pure fun _ _ => by simp) ?_
  refine (takes_accept "is").skip fun _ => .ite ?_ ?_
  · exact (takes_accept "not").skip fun _ => .pure fun _ _ => by simp
  refine (looks_sees "not").takes.skip fun _ => looks_peekSecond.takes.skip fun _ => ?_
  exact .ite ((takes_expect "not").skip fun _ => takes_accept "in" _) (.pure fun _ _ => by simp)

theorem spans_comparison (h : ∀ levels, Extent (deeper levels)) : SpansNode σ (comparison deeper) := by
  refine .here fun _ => (spans_bitOr h).bind fun first => ?_
  refine (Spans.manyWhen takes_acceptComparison (spans_bitOr h)).bind fun rest => ?_
  exact .ite (.pure fun _ h => by simp_all) (.node rfl fun _ h => by simp_all)

theorem spans_inversion (h : ∀ levels, Extent (deeper levels)) : SpansNode σ (inversion deeper) := by
  refine .here fun _ => (takes_accept "not").skip fun _ => .ite ?_ (spans_comparison h _)
  exact (h _ .inversion).bind fun operand => .node rfl fun _ h => by simp_all

theorem spans_joined (word : String) (hp : SpansNode σ p) : SpansNode σ (joined word p) := by
  refine .here fun _ => hp.bind fun first => (Spans.manyWhen (takes_accept word) hp).bind fun rest => ?_
  exact .ite (.pure fun _ h => by simp_all) (.node rfl fun _ h => by simp_all)

theorem spans_disjunction (h : ∀ levels, Extent (deeper levels)) : SpansNode σ (disjunction deeper) :=
  spans_joined "or" (spans_joined "and" (spans_inversion h))

theorem spans_expression (h : ∀ levels, Extent (deeper levels)) : SpansNode σ (expression deeper) := by
  refine .here fun _ => (looks_sees "lambda").takes.skip fun _ => .ite (spans_lambdaExpression (h _) _) ?_
  refine (spans_disjunction h).bind fun value => (takes_accept "if").skip fun _ => ?_
  refine .ite ?_ (.pure fun _ h => by simp_all)
  refine (h _ .disjunction).bind fun test => (takes_expect "else").skip fun _ => ?_
  exact (h _ .expression).bind fun other => .node rfl fun _ h => by simp_all

theorem spans_rule (h : ∀ levels, Extent (deeper levels)) : Extent (rule deeper)
  | _, .expression => spans_expression h
  | _, .disjunction => spans_disjunction h
  | _, .inversion => spans_inversion h
  | _, .bitOr => spans_bitOr h
  | _, .factor => spans_factor h
  | _, .primary => spans_primary h

/-- However deep the nesting may be, every rule gives nodes that extend as far as what it takes. -/
theorem spans_solve : ∀ n waiting : Nat, Extent (solve n waiting)
  | 0, _, _, _, _ => .throw
  | n + 1, 0, _, goal, lo => spans_rule (spans_solve n) goal lo
  | n + 1, waiting + 1, _, goal, lo => spans_solve n waiting goal lo

theorem spans_outermost : Extent outermost := spans_solve _ _

/-! ## Patterns -/

theorem takes_captureName : Takes σ captureName := fun _ => by
  refine (looks_seesWord "_").takes.skip fun _ => .ite .failed (takes_nameText.skip fun _ => ?_)
  refine (looks_sees ".").takes.skip fun _ => (looks_sees "(").takes.skip fun _ => ?_
  exact (looks_sees "=").takes.skip fun _ => .ite .fail (.pure fun _ _ => by simp)

/-- A number is a node that extends as far as its token. -/
theorem spans_number : Spans σ (expectKind .number) fun t => [Node.new (.constant .number) t.span []] := by
  intro lo e c t c' hc hlo _ h
  obtain ⟨hnext, hk⟩ := expectKind_ok h
  obtain ⟨hc', hlo', hlast, hstart, hstop, -⟩ := next_ok hc hlo hnext
  have hend : t.span.stop = c'.last := hstop (by simp [Token.isLayout, hk])
  refine ⟨hc', hlo', hlast, Node.allFit_cons.2 ⟨?_, Node.allFit_nil⟩⟩
  exact .new hstart (by simp [Kind.isName]) (le_of_eq hend) Node.allFit_nil

theorem spans_signedNumber : SpansNode σ signedNumber := by
  refine .here fun _ => (takes_accept "-").skip fun _ => .ite ?_ ?_
  · exact spans_number.bind fun t => .node rfl fun _ h => by simp_all
  · exact (takes_expectKind .number).skip fun _ => .node rfl fun _ _ => by simp

theorem spans_numberLiteral : SpansNode σ numberLiteral := by
  refine .here fun _ => (looks_sees "-").takes.skip fun _ => ?_
  refine .bind_ite looks_peekSecond.takes.covers looks_peek.takes.covers fun _ => ?_
  refine spans_signedNumber.bind fun real => (takes_acceptAny _).skip fun _ => .ite ?_ (.pure fun _ h => by simp_all)
  exact spans_number.bind fun t => .ite .failed (.node rfl fun _ h => by simp_all)

theorem spans_dottedName : SpansNode σ dottedName := by
  refine .here fun _ => (spans_nameNode .read).bind fun name => ?_
  refine .extend (N := fun n => [n]) (fun base => ?_) fun _ h => by simp_all
  refine (takes_accept ".").skip fun _ => .ite ?_ (.pure fun _ _ => by simp)
  exact takes_identifier.skip fun _ => .found (.node rfl fun _ h => by simp_all)

theorem spans_literal? : Spans σ literal? fun o => o.toList.flatMap fun n => [n] := fun _ => by
  refine looks_peek.takes.skip fun _ => .ite (.found spans_numberLiteral.covers) (.ite ?_ ?_)
  · exact .found (spans_textLiterals spans_outermost).covers
  · exact .pure fun _ _ => by simp

theorem spans_singleton? : Spans σ singleton? fun o => o.toList.flatMap fun n => [n] := fun _ => by
  refine (looks_sees "None").takes.skip fun _ => .ite (.found (spans_constant _).covers) ?_
  refine (looks_sees "True").takes.skip fun _ => .ite (.found (spans_constant _).covers) ?_
  refine (looks_sees "False").takes.skip fun _ => .ite (.found (spans_constant _).covers) ?_
  exact .pure fun _ _ => by simp

theorem spans_starPattern : SpansNode σ starPattern := by
  refine .here fun _ => (takes_expect "*").skip fun _ => (looks_seesWord "_").takes.skip fun _ => .ite ?_ ?_
  · exact takes_next.skip fun _ => .node rfl fun _ _ => by simp
  · exact takes_captureName.skip fun _ => .node rfl fun _ _ => by simp

theorem spans_maybeStarPattern (h : SpansNode σ p) : SpansNode σ (maybeStarPattern p) := fun lo =>
  (looks_sees "*").takes.skip fun _ => .ite (spans_starPattern lo) (h lo)

theorem covers_sequence {known patterns : List Node} (h : ∀ hi, AllFit σ lo hi known → AllFit σ lo hi patterns) :
    Covers σ lo known (sequence lo patterns) fun hi n => AllFit σ lo hi [n] :=
  .node rfl fun hi hknown => Node.allFit_as.2 (h hi hknown)

theorem spans_enclosedPattern (h : SpansNode σ p) : SpansNode σ (enclosedPattern p) := by
  have hitem := spans_maybeStarPattern h
  refine .here fun _ => (takes_accept "[").skip fun _ => .ite ?_ ?_
  · refine (takes_accept "]").skip fun _ => .ite (covers_sequence fun _ _ => by simp) ?_
    refine hitem.bind fun first => (Spans.afterCommas hitem).bind fun ⟨rest, _⟩ => ?_
    exact (takes_expect "]").skip fun _ => covers_sequence fun _ h => by simp_all
  · refine (takes_expect "(").skip fun _ => (takes_accept ")").skip fun _ => ?_
    refine .ite (covers_sequence fun _ _ => by simp) ((looks_sees "*").takes.skip fun _ => ?_)
    refine hitem.bind fun first => (looks_sees ",").takes.skip fun _ => .ite ?_ ?_
    · refine (Spans.afterCommas hitem).bind fun ⟨rest, _⟩ => (takes_expect ")").skip fun _ => ?_
      exact covers_sequence fun _ h => by simp_all
    · exact (takes_expect ")").skip fun _ => .ite .fail (.pure fun _ h => by simp_all)

/-- The nodes that have been read of a mapping pattern. -/
def MappingEntries.nodes (m : MappingEntries) : List Node := m.keys ++ m.patterns

theorem covers_mappingStep (h : SpansNode σ p) (m : MappingEntries) :
    Covers σ lo m.nodes (mappingStep p m) fun hi o => AllFit σ lo hi (o.toList.flatMap (·.nodes)) := by
  refine (looks_sees "\x7d").takes.skip fun _ => .ite (.pure fun _ _ => by simp) (.ite .failed ?_)
  have finish : ∀ {known : List Node} (m' : MappingEntries),
      (∀ hi, AllFit σ lo hi known → AllFit σ lo hi m'.nodes) → Covers σ lo known (do
        unless (← sees "\x7d") || (← accept ",") do fail
        return some m') fun hi o => AllFit σ lo hi (o.toList.flatMap (·.nodes)) := fun _ h =>
    (looks_sees "\x7d").takes.skip fun _ => (takes_accept ",").skip fun _ =>
      .ite (.pure fun hi hknown => by simpa using h hi hknown) .failed
  have entry : ∀ {known : List Node} {key : Node},
      (∀ hi, AllFit σ lo hi known → AllFit σ lo hi (key :: m.nodes)) → Covers σ lo known (do
        expect ":"
        let pattern ← p
        let m ← pure { m with keys := m.keys ++ [key], patterns := m.patterns ++ [pattern] }
        unless (← sees "\x7d") || (← accept ",") do fail
        return some m) fun hi o => AllFit σ lo hi (o.toList.flatMap (·.nodes)) := fun hkey =>
    (takes_expect ":").skip fun _ => h.bind fun pattern => finish _ fun hi h => by
      simp only [List.cons_append, List.nil_append, Node.allFit_cons] at h
      have := hkey hi h.2
      simp_all [MappingEntries.nodes]
  refine (takes_accept "**").skip fun _ => .ite ?_ ?_
  · exact takes_captureName.skip fun name => finish { m with rest := some name } fun _ h => h
  refine spans_literal?.bind fun literal => ?_
  cases literal with
  | some key => exact entry fun _ h => by simp_all
  | none =>
    refine spans_singleton?.bind fun singleton => ?_
    cases singleton with
    | some key => exact entry fun _ h => by simp_all
    | none =>
      refine spans_dottedName.bind fun key => ?_
      dsimp only
      split
      · exact entry fun _ h => by simp_all
      · exact .failed

theorem spans_mappingPattern (h : SpansNode σ p) : SpansNode σ (mappingPattern p) := by
  refine .here fun _ => (takes_expect "\x7b").skip fun _ => ?_
  refine (Covers.extend (covers_mappingStep h) fun _ _ => by simp [MappingEntries.nodes]).bind fun m => ?_
  exact (takes_expect "\x7d").skip fun _ => .node rfl fun _ h => by simp_all [MappingEntries.nodes]

theorem covers_classStep (h : SpansNode σ p) (ps : List Node × List Node) :
    Covers σ lo (ps.1 ++ ps.2) (classStep p ps) fun hi o =>
      AllFit σ lo hi (o.toList.flatMap fun ps => ps.1 ++ ps.2) := by
  have finish : ∀ {known : List Node} (ps' : List Node × List Node),
      (∀ hi, AllFit σ lo hi known → AllFit σ lo hi (ps'.1 ++ ps'.2)) → Covers σ lo known (do
        unless (← sees ")") || (← accept ",") do fail
        return some ps') fun hi o => AllFit σ lo hi (o.toList.flatMap fun ps => ps.1 ++ ps.2) := fun _ h =>
    (looks_sees ")").takes.skip fun _ => (takes_accept ",").skip fun _ =>
      .ite (.pure fun hi hknown => by simpa using h hi hknown) .failed
  refine (looks_sees ")").takes.skip fun _ => .ite (.pure fun _ _ => by simp) ?_
  refine looks_peek.takes.skip fun _ => looks_peekSecond.takes.skip fun _ => .ite ?_ ?_
  · refine takes_identifier.skip fun _ => (takes_expect "=").skip fun _ => h.bind fun n => ?_
    exact finish (ps.1, ps.2 ++ [n]) fun _ h => by simp_all
  · refine .ite (h.bind fun n => ?_) .failed
    exact finish (ps.1 ++ [n], ps.2) fun _ h => by simp_all

theorem spans_namePattern (h : SpansNode σ p) : SpansNode σ (namePattern p) := by
  refine .here fun _ => (looks_seesWord "_").takes.skip fun _ => .ite ?_ ?_
  · exact takes_next.skip fun _ => .node rfl fun _ _ => by simp
  refine spans_dottedName.bind fun value => (takes_accept "(").skip fun _ => .ite ?_ ?_
  · refine (Covers.extend (covers_classStep h) fun _ _ => by simp).bind fun ps => ?_
    exact (takes_expect ")").skip fun _ => .node rfl fun _ h => by simp_all
  refine (looks_sees "=").takes.skip fun _ => .ite .fail ?_
  split
  · exact .node rfl fun _ _ => by simp
  · exact .node rfl fun _ h => by simp_all

theorem spans_closedPattern (h : SpansNode σ p) : SpansNode σ (closedPattern p) := by
  refine .here fun start => looks_peek.takes.skip fun _ => spans_literal?.bind fun literal => ?_
  cases literal with
  | some value => exact .node rfl fun _ h => by simp_all
  | none =>
    refine spans_singleton?.bind fun singleton => ?_
    cases singleton with
    | some value => exact .node rfl fun _ _ => by simp
    | none =>
      exact .ite (spans_namePattern h start) (.ite (spans_mappingPattern h start) (spans_enclosedPattern h start))

theorem spans_patternRule (h : SpansNode σ p) : SpansNode σ (patternRule p) := by
  refine .here fun _ => (spans_closedPattern h).bind fun first => ?_
  refine (Spans.manyWhen (takes_accept "|") (spans_closedPattern h)).bind fun rest => ?_
  refine .bind_ite (N := fun n => [n]) (.pure fun _ h => by simp_all) (.node rfl fun _ h => by simp_all) fun value => ?_
  refine (takes_accept "as").skip fun _ => .ite ?_ (.pure fun _ h => by simp_all)
  exact takes_captureName.skip fun _ => .node rfl fun _ h => by simp_all

theorem spans_pattern : ∀ n : Nat, SpansNode σ (pattern n)
  | 0, _ => .throw
  | n + 1, lo => spans_patternRule (spans_pattern n) lo

theorem spans_patterns : SpansNode σ patterns := by
  have hitem : SpansNode σ _ := spans_maybeStarPattern (spans_pattern maxDepth)
  refine .here fun _ => (looks_sees "*").takes.skip fun _ => hitem.bind fun first => ?_
  refine (looks_sees ",").takes.skip fun _ => .ite ?_ (.ite .fail (.pure fun _ h => by simp_all))
  exact (Spans.afterCommas hitem).bind fun ⟨rest, _⟩ => covers_sequence fun _ h => by simp_all

end EffectGraph.Grammar
