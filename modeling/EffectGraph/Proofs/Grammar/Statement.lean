/-
What the rules of statements read.

Every rule gives well-formed statements, and the functions in them start at
tokens that were taken for them, in the order of the tokens (`Phrases`). So a
whole file makes a tree unless it nests too deeply (`Tree.exists_parse`), and the
starts of its functions are, in order, starts of tokens (`Tree.parse_starts`).
-/
import EffectGraph.Proofs.Grammar.Pattern
import EffectGraph.Syntax.Parse

namespace EffectGraph

/-- A statement without blocks that introduces no function. -/
def Kind.isSimple (k : Kind) : Bool :=
  k.category == .statement && !k.introduces && k.layout.all (!·.category.holdsStatements)

namespace Grammar

open Node (Plain functionStarts functionStarts_eq_nil)

/-- A phrase whose functions start at the places, in order. -/
def Phrase (cat : Category) (L : List Pos) (n : Node) : Prop :=
  n.Is cat ∧ n.functionStarts.Sublist L

def Phrases (cat : Category) (L : List Pos) (ns : List Node) : Prop :=
  (∀ n ∈ ns, n.Is cat) ∧ (ns.flatMap functionStarts).Sublist L

/-- A statement with no functions in it. -/
def Simple (n : Node) : Prop := n.Is .statement ∧ n.functionStarts = []

variable {p : Parser Node} {k : Kind} {start : Pos} {cs : List Node} {cat : Category} {L L' : List Pos}

theorem Phrase.mono {n : Node} (h : Phrase cat L n) (hL : L.Sublist L') : Phrase cat L' n :=
  ⟨h.1, h.2.trans hL⟩

theorem Simple.phrase {n : Node} (h : Simple n) : Phrase .statement L n := ⟨h.1, by simp [h.2]⟩

theorem Gives.phrase (hp : Returns p Simple) : Gives p (Phrase .statement) :=
  hp.imp fun _ _ hn => hn.phrase

theorem node_phrase (hk : k.category = cat) (hi : k.introduces = false) (h : Arranged k.layout cs)
    (hL : (cs.flatMap functionStarts).Sublist L) :
    Gives (node k start cs) fun L' => Phrase cat (L ++ L') := by
  refine (returns_node h).imp fun L' n hn => ⟨hk ▸ hn.1, ?_⟩
  rw [Node.functionStarts_eq hn.1, Node.introducedStarts_of_not_introduces (hn.2.1 ▸ hi), hn.2.2.2]
  exact hL.trans (List.sublist_append_left L L')

theorem node_simple (hk : k.isSimple = true) (h : Arranged k.layout cs) :
    Returns (node k start cs) Simple := by
  simp only [Kind.isSimple, Bool.and_eq_true, beq_iff_eq, Bool.not_eq_true', List.all_eq_true] at hk
  refine (returns_node h).imp fun _ n hn => ⟨hk.1.1 ▸ hn.1, ?_⟩
  rw [Node.functionStarts_eq hn.1, Node.introducedStarts_of_not_introduces (hn.2.1 ▸ hk.1.2), hn.2.2.2]
  refine List.flatMap_eq_nil_iff.2 fun c hc => ?_
  obtain ⟨part, hpart, -, hcat⟩ := h.exists_part c hc
  exact functionStarts_eq_nil c hcat (hk.2 part hpart)

/-! ## Simple statements -/

theorem returns_targetsOf : ∀ {es : List Node}, (∀ e ∈ es, e.Is .expression) →
    Returns (targetsOf es) fun ts => ∀ t ∈ ts, t.Is .expression
  | [], _ => .pure (by simp)
  | e :: es, h => by
    rw [targetsOf]
    refine returns_target (h e (by simp)) fun target ht => ?_
    refine (returns_targetsOf fun d hd => h d (by simp [hd])).andThen fun _ ts hts => .pure ?_
    exact List.forall_mem_cons.2 ⟨ht.1, hts⟩

theorem returns_singleTarget {β : Type} {R : List Pos → β → Prop} {n : Node} {g : Node → Parser β}
    (hn : n.Is .expression) (hg : ∀ target, target.Is .expression → Gives (g target) R) :
    Gives (match n.asSingleTarget? with | none => fail | some target => g target) R := by
  split
  · exact .fail
  · next target ht => exact hg target (Node.asTarget?_plain (Node.asTarget?_of_asSingleTarget? ht) hn).1

/-- What an assignment introduces is its value, so it starts where the value starts. -/
theorem node_assignment (hk : k = .assign ∨ k = .annAssign) (h : Arranged k.layout cs)
    (hv : ∀ value ∈ cs.find? (·.role == .value), value.lambdaStart.Sublist L) :
    Gives (node k start cs) fun L' => Phrase .statement (L ++ L') := by
  have hcategory : k.category = .statement := by rcases hk with rfl | rfl <;> rfl
  have hparts : ∀ part ∈ k.layout, part.category.holdsStatements = false := by
    rcases hk with rfl | rfl <;> simp [Kind.layout, Category.holdsStatements]
  refine (returns_node h).imp fun L' n hn => ⟨hcategory ▸ hn.1, ?_⟩
  have hchildren : n.children.flatMap functionStarts = [] := by
    refine List.flatMap_eq_nil_iff.2 fun c hc => ?_
    obtain ⟨part, hpart, -, hcat⟩ := h.exists_part c (hn.2.2.2 ▸ hc)
    exact functionStarts_eq_nil c hcat (hparts part hpart)
  rw [Node.functionStarts_eq hn.1, hchildren, List.append_nil]
  have hintroduced := Node.introducedStarts_assignment (hn.2.1 ▸ hk) (by rw [Node.part?, hn.2.2.2]; exact hv)
  exact hintroduced.trans (List.sublist_append_left L L')

theorem gives_expressionStatement : Gives expressionStatement (Phrase .statement) := by
  have hvalue := gives_yieldOrStarExpressions gives_outermost
  refine looks_here.passes.skip fun _ => (gives_starExpressions gives_outermost).bind fun L first hfirst => ?_
  refine looks_peek.passes.skip fun t => .ite (fun _ => ?_) fun _ => .ite (fun _ => ?_) fun _ =>
    .ite (fun _ => ?_) fun _ => ?_
  · refine passes_next.skip fun _ => returns_singleTarget hfirst.1 fun target ht => ?_
    refine (gives_outermost .expression).andThen fun _ hint hh => ?_
    refine (passes_accept "=").skip fun _ => .ite (fun _ => ?_) fun _ => ?_
    · refine hvalue.more fun L' value hv => ?_
      refine node_assignment (.inr rfl) (.one ht (.one hh.1 (.present hv.1 .nil))) ?_
      simpa [Node.lambdaStart_as] using hv.2.trans (List.sublist_append_right L L')
    · exact node_assignment (.inr rfl) (.one ht (.one hh.1 (.absent .nil))) (by simp)
  · have hrest : Gives (many do
        if ← accept "=" then return some (← yieldOrStarExpressions outermost) else return none)
          fun L rest => ∀ n ∈ rest, Expression L n := by
      refine Gives.many (by simp) fun L found hfound => (passes_accept "=").skip fun _ => ?_
      refine .ite (fun _ => hvalue.bind fun L' n hn => .pure ?_) fun _ => .pure (by simp)
      simp only [Option.mem_def, Option.some.injEq, forall_eq', List.append_nil]
      refine List.forall_mem_append.2 ⟨fun m hm => (hfound m hm).mono (List.sublist_append_left L L'), ?_⟩
      simpa using hn.mono (List.sublist_append_right L L')
    refine hrest.more fun L' rest hrest => ?_
    have hall : ∀ n ∈ (first :: rest).reverse, Expression (L ++ L') n := by
      intro n hn
      rcases List.mem_cons.1 (List.mem_reverse.1 hn) with rfl | hn
      · exact hfirst.mono (List.sublist_append_left L L')
      · exact (hrest n hn).mono (List.sublist_append_right L L')
    split
    · next value targets heq =>
      rw [heq] at hall
      obtain ⟨hv, htargets⟩ := List.forall_mem_cons.1 hall
      have htargets : ∀ n ∈ targets.reverse, n.Is .expression := by
        simpa using fun n hn => (htargets n hn).1
      refine (returns_targetsOf htargets).andThen fun _ ts hts => ?_
      refine node_assignment (.inl rfl) ((Arranged.list hts).append (.one hv.1 .nil)) ?_
      have hnone : (ts.map (·.as .target)).find? (·.role == .value) = none := by simp
      simpa [List.find?_append, hnone, Node.lambdaStart_as] using hv.2
    · exact .fail
  · refine passes_next.skip fun _ => returns_singleTarget hfirst.1 fun target ht => ?_
    refine hvalue.andThen fun _ value hv => ?_
    exact Gives.imp (node_simple rfl (.one ht (.one hv.1 .nil))) fun _ _ hn => hn.phrase
  · exact Gives.imp (node_simple rfl (.one hfirst.1 .nil)) fun _ _ hn => hn.phrase

theorem returns_deleteStatement : Returns deleteStatement Simple := by
  refine looks_here.passes.skip fun _ => (passes_expect "del").skip fun _ => ?_
  refine Gives.andThen (R := fun _ n => n.Is .expression) ?item fun _ first hfirst =>
    (Returns.afterCommas ?item).andThen fun _ rest hrest => ?_
  case item =>
    refine (gives_outermost .primary).andThen fun _ value hv => ?_
    split
    · next t ht => exact .pure (Node.asTarget?_plain (Node.asTarget?_of_asDeleted? ht) hv.1).1
    · exact .fail
  refine (looks_sees ";").passes.skip fun _ => looks_peek.passes.skip fun _ => .ite (fun _ => ?_) fun _ => .failed
  exact node_simple rfl (arranged_list hfirst hrest)

theorem returns_raiseStatement : Returns raiseStatement Simple := by
  refine looks_here.passes.skip fun _ => (passes_expect "raise").skip fun _ => looks_peek.passes.skip fun _ => ?_
  refine .ite (fun _ => ?_) fun _ => node_simple rfl (.absent (.absent .nil))
  refine (gives_outermost .expression).andThen fun _ value hv => (passes_accept "from").skip fun _ => ?_
  refine .ite (fun _ => ?_) fun _ => node_simple rfl (.present hv.1 (.absent .nil))
  exact (gives_outermost .expression).andThen fun _ cause hc =>
    node_simple rfl (.present hv.1 (.present hc.1 .nil))

theorem returns_assertStatement : Returns assertStatement Simple := by
  refine looks_here.passes.skip fun _ => (passes_expect "assert").skip fun _ => ?_
  refine (gives_outermost .expression).andThen fun _ test ht => (passes_accept ",").skip fun _ => ?_
  refine .ite (fun _ => ?_) fun _ => node_simple rfl (.one ht.1 (.absent .nil))
  exact (gives_outermost .expression).andThen fun _ message hm =>
    node_simple rfl (.one ht.1 (.present hm.1 .nil))

theorem passes_dotted : Passes dotted :=
  passes_nameText.skip fun _ =>
    (Returns.manyWhen (passes_accept ".") passes_nameText).passes.skip fun _ => .pure trivial

theorem passes_names : Passes names :=
  passes_nameText.skip fun _ =>
    (Returns.manyWhen (passes_accept ",") passes_nameText).passes.skip fun _ => .pure trivial

theorem passes_asName? : Passes asName? :=
  (passes_accept "as").skip fun _ => .ite (fun _ => passes_nameText.skip fun _ => .pure trivial) fun _ =>
    .pure trivial

theorem returns_importStatement : Returns importStatement Simple := by
  have hitem : Returns (do
      let start ← here
      let name ← dotted
      let asName ← asName?
      node (.importAlias name asName) start []) (·.Is .importAlias) :=
    looks_here.passes.skip fun _ => passes_dotted.skip fun _ => passes_asName?.skip fun _ => node_is rfl .nil
  refine looks_here.passes.skip fun _ => (passes_expect "import").skip fun _ => ?_
  refine hitem.andThen fun _ first hfirst => ?_
  refine (Returns.manyWhen (passes_accept ",") hitem).andThen fun _ rest hrest => ?_
  exact node_simple rfl (arranged_list hfirst hrest)

theorem returns_importedName : Returns importedName (·.Is .importAlias) :=
  looks_here.passes.skip fun _ => passes_nameText.skip fun _ => passes_asName?.skip fun _ => node_is rfl .nil

theorem returns_importedNames : Returns importedNames fun ns => ∀ n ∈ ns, n.Is .importAlias := by
  refine looks_here.passes.skip fun _ => (passes_accept "*").skip fun _ => .ite (fun _ => ?_) fun _ => ?_
  · exact Gives.andThen (node_is rfl .nil) fun _ n (hn : n.Is .importAlias) => .pure (by simpa using hn)
  refine (passes_accept "(").skip fun _ => .ite (fun _ => ?_) fun _ => ?_
  · refine returns_importedName.andThen fun _ first hfirst => ?_
    refine (Returns.afterCommas returns_importedName).andThen fun _ rest hrest => ?_
    exact (passes_expect ")").skip fun _ => .pure (List.forall_mem_cons.2 ⟨hfirst, hrest⟩)
  · refine returns_importedName.andThen fun _ first hfirst => ?_
    refine (Returns.manyWhen (passes_accept ",") returns_importedName).andThen fun _ rest hrest => ?_
    exact .pure (List.forall_mem_cons.2 ⟨hfirst, hrest⟩)

theorem returns_importFromStatement : Returns importFromStatement Simple := by
  have dots : Passes (many do
      if ← accept "." then return some 1
      else if ← accept "..." then return some 3
      else return none) :=
    (Returns.many (Q := fun _ => True) <| (passes_accept ".").skip fun _ => .ite
      (fun _ => .pure (by simp)) fun _ => (passes_accept "...").skip fun _ => .ite
        (fun _ => .pure (by simp)) fun _ => .pure (by simp)).passes
  have finish : ∀ (start : Pos) (level : Nat) (module : String), Returns (do
      expect "import"
      let aliases ← importedNames
      node (.importFrom module level) start (aliases.map (·.as .importAlias))) Simple := fun _ _ _ =>
    (passes_expect "import").skip fun _ => returns_importedNames.andThen fun _ aliases ha =>
      node_simple rfl (.list ha)
  refine looks_here.passes.skip fun _ => (passes_expect "from").skip fun _ => dots.skip fun _ => ?_
  refine looks_peek.passes.skip fun _ => .ite (fun _ => passes_dotted.skip fun _ => finish _ _ _) fun _ => ?_
  exact .ite (fun _ => .failed) fun _ => finish _ _ _

theorem returns_wordStatement (hk : k.isSimple = true) (hl : k.layout = []) :
    Returns (wordStatement k) Simple :=
  looks_here.passes.skip fun _ => passes_next.skip fun _ => node_simple hk (hl ▸ .nil)

theorem returns_namesStatement {kind : List String → Kind} (hk : ∀ ns, (kind ns).isSimple = true)
    (hl : ∀ ns, (kind ns).layout = []) : Returns (namesStatement kind) Simple :=
  looks_here.passes.skip fun _ => passes_next.skip fun _ => passes_names.skip fun ns =>
    node_simple (hk ns) (hl ns ▸ .nil)

theorem returns_returnStatement : Returns returnStatement Simple := by
  refine looks_here.passes.skip fun _ => (passes_expect "return").skip fun _ => looks_peek.passes.skip fun _ => ?_
  refine .ite (fun _ => ?_) fun _ => node_simple rfl (.absent .nil)
  exact (gives_starExpressions gives_outermost).andThen fun _ value hv => node_simple rfl (.present hv.1 .nil)

theorem returns_yieldStatement : Returns yieldStatement Simple :=
  looks_here.passes.skip fun _ => (returns_yieldExpression gives_outermost).andThen fun _ _ hv =>
    node_simple rfl (.one hv.1 .nil)

theorem gives_simpleStatement : Gives simpleStatement (Phrase .statement) := by
  refine looks_peek.passes.skip fun _ => .ite (fun _ => ?_) fun _ => gives_expressionStatement
  exact .ite (fun _ => .phrase returns_returnStatement) fun _ =>
    .ite (fun _ => .phrase returns_importStatement) fun _ =>
    .ite (fun _ => .phrase returns_importFromStatement) fun _ =>
    .ite (fun _ => .phrase returns_raiseStatement) fun _ =>
    .ite (fun _ => .phrase (returns_wordStatement rfl rfl)) fun _ =>
    .ite (fun _ => .phrase returns_deleteStatement) fun _ =>
    .ite (fun _ => .phrase returns_yieldStatement) fun _ =>
    .ite (fun _ => .phrase returns_assertStatement) fun _ =>
    .ite (fun _ => .phrase (returns_wordStatement rfl rfl)) fun _ =>
    .ite (fun _ => .phrase (returns_wordStatement rfl rfl)) fun _ =>
    .ite (fun _ => .phrase (returns_namesStatement (fun _ => rfl) fun _ => rfl)) fun _ =>
    .ite (fun _ => .phrase (returns_namesStatement (fun _ => rfl) fun _ => rfl)) fun _ =>
    gives_expressionStatement

theorem gives_simpleStatements : Gives simpleStatements (Phrases .statement) := by
  refine gives_simpleStatement.bind fun L first hfirst => ?_
  have hrest : Gives (many do
      if (← sees ";") && (← peekSecond).kind ≠ .newline then
        expect ";"
        return some (← simpleStatement)
      else return none) (Phrases .statement) := by
    refine .manyStarts _ ((looks_sees ";").passes.skip fun _ => looks_peekSecond.passes.skip fun _ => ?_)
    refine .ite (fun _ => (passes_expect ";").skip fun _ => ?_) fun _ => .pure (by simp)
    exact gives_simpleStatement.bind fun L n hn => .pure (by simpa [Phrase] using hn)
  refine hrest.more fun L' rest hrest => (passes_accept ";").skip fun _ => ?_
  refine (passes_expectKind .newline).skip fun _ => .pure ?_
  refine ⟨List.forall_mem_cons.2 ⟨hfirst.1, hrest.1⟩, ?_⟩
  simpa using hfirst.2.append hrest.2

/-! ## Compound statements -/

section Compound

variable {block : Block}

theorem gives_headed (h : Gives block (Phrases .statement)) : Gives (headed block) (Phrases .statement) :=
  (passes_expect ":").skip fun _ => h

/-- A further block of a statement, which may be missing. -/
theorem gives_further (h : Gives block (Phrases .statement)) (word : String) (r : Role) :
    Gives (do if ← accept word then return (← headed block).map (·.as r) else return []) fun L ns =>
      Arranged [Slot.many r .statement] ns ∧ (ns.flatMap functionStarts).Sublist L := by
  refine (passes_accept word).skip fun _ => .ite (fun _ => ?_) fun _ => .pure ⟨.none .nil, by simp⟩
  refine (gives_headed h).bind fun L ns hns => .pure ⟨.list hns.1, ?_⟩
  simpa [List.flatMap_map] using hns.2

theorem gives_elsePart (h : Gives block (Phrases .statement)) : Gives (elsePart block) fun L ns =>
    Arranged [Slot.many .orelse .statement] ns ∧ (ns.flatMap functionStarts).Sublist L :=
  gives_further h "else" .orelse

theorem gives_finallyPart (h : Gives block (Phrases .statement)) : Gives (finallyPart block) fun L ns =>
    Arranged [Slot.many .finalBody .statement] ns ∧ (ns.flatMap functionStarts).Sublist L :=
  gives_further h "finally" .finalBody

theorem gives_whileStatement (h : Gives block (Phrases .statement)) :
    Gives (whileStatement block) (Phrase .statement) := by
  refine looks_here.passes.skip fun _ => (passes_expect "while").skip fun _ => ?_
  refine (gives_namedExpression gives_outermost).andThen fun _ test ht => ?_
  refine (gives_headed h).bind fun L body hbody => (gives_elsePart h).more fun L' orelse horelse => ?_
  refine node_phrase rfl rfl ((Arranged.one ht.1 (.list hbody.1)).append horelse.1) ?_
  simpa [List.flatMap_map, functionStarts_eq_nil test ht.1 rfl] using hbody.2.append horelse.2

theorem gives_forStatement (h : Gives block (Phrases .statement)) (start : Pos) (isAsync : Bool) :
    Gives (forStatement block start isAsync) (Phrase .statement) := by
  refine (passes_expect "for").skip fun _ => (returns_starTargets gives_outermost).andThen fun _ target ht => ?_
  refine (passes_expect "in").skip fun _ => (gives_starExpressions gives_outermost).andThen fun _ iter hi => ?_
  refine (gives_headed h).bind fun L body hbody => (gives_elsePart h).more fun L' orelse horelse => ?_
  refine node_phrase rfl rfl ((Arranged.one ht.1 (.one hi.1 (.list hbody.1))).append horelse.1) ?_
  simpa [List.flatMap_map, functionStarts_eq_nil target ht.1 rfl, functionStarts_eq_nil iter hi.1 rfl] using
    hbody.2.append horelse.2

/-- What has been read of a chain of conditions. -/
def Branch.WellFormed (b : Branch) : Prop := b.test.Is .expression ∧ ∀ n ∈ b.body, n.Is .statement

theorem nestBranches_is (stop : Pos) {orelse : List Node} (horelse : ∀ n ∈ orelse, n.Is .statement) :
    ∀ {bs : List Branch}, (∀ b ∈ bs, b.WellFormed) →
      (∀ n ∈ nestBranches stop bs orelse, n.Is .statement) ∧
        (nestBranches stop bs orelse).flatMap functionStarts =
          bs.flatMap (·.body.flatMap functionStarts) ++ orelse.flatMap functionStarts
  | [], _ => ⟨horelse, by simp [nestBranches]⟩
  | b :: bs, h => by
    obtain ⟨hb, hbs⟩ := List.forall_mem_cons.1 h
    obtain ⟨hrest, hstarts⟩ := nestBranches_is stop horelse hbs
    have harranged := (Arranged.one (r := .test) hb.1 (.list (r := .body) hb.2)).append
      (.list (r := .orelse) hrest)
    refine ⟨?_, ?_⟩
    · simp only [nestBranches, List.mem_singleton, forall_eq]
      exact Node.new_is rfl harranged
    · rw [nestBranches, List.flatMap_singleton,
        Node.functionStarts_eq (Node.new_is (k := .ifStmt) rfl harranged),
        Node.introducedStarts_of_not_introduces rfl]
      simp [Node.new, Node.children, List.flatMap_map, functionStarts_eq_nil b.test hb.1 rfl, hstarts]

theorem gives_branch (h : Gives block (Phrases .statement)) (word : String) :
    Gives (branch block word) fun L b => b.WellFormed ∧ (b.body.flatMap functionStarts).Sublist L :=
  looks_here.passes.skip fun _ => (passes_expect word).skip fun _ =>
    (gives_namedExpression gives_outermost).andThen fun _ test ht =>
      (gives_headed h).bind fun L body hbody => .pure ⟨⟨ht.1, hbody.1⟩, by simpa using hbody.2⟩

/-- A chain of conditions whose functions start at the places, in order. -/
def Branches (L : List Pos) (x : List Branch × List Node) : Prop :=
  (∀ b ∈ x.1, b.WellFormed) ∧ (∀ n ∈ x.2, n.Is .statement) ∧
    (x.1.flatMap (·.body.flatMap functionStarts) ++ x.2.flatMap functionStarts).Sublist L

theorem gives_branches (h : Gives block (Phrases .statement)) : Gives (branches block) Branches := by
  have hfurther : Gives (many (furtherBranch block)) fun L bs =>
      (∀ b ∈ bs, b.WellFormed) ∧ (bs.flatMap (·.body.flatMap functionStarts)).Sublist L :=
    .manyWhen _ (looks_sees "elif").passes (gives_branch h "elif")
  refine (gives_branch h "if").bind fun L first hfirst => hfurther.more fun L' rest hrest => ?_
  refine (gives_elsePart h).more fun L'' orelse horelse => .pure ⟨?_, ?_, ?_⟩
  · exact List.forall_mem_cons.2 ⟨hfirst.1, hrest.1⟩
  · exact fun n hn => (horelse.1.of_single n hn).2
  · simpa using (hfirst.2.append hrest.2).append horelse.2

theorem gives_ifStatement (h : Gives block (Phrases .statement)) :
    Gives (ifStatement block) (Phrase .statement) := by
  refine (gives_branches h).bind fun L ⟨bs, orelse⟩ hbs => looks_get.passes.skip fun c => ?_
  have hnested := nestBranches_is c.last hbs.2.1 hbs.1
  split
  · next n ns heq =>
    rw [heq, List.flatMap_cons] at hnested
    refine .pure ⟨hnested.1 n (by simp), ?_⟩
    have hn := List.sublist_append_left n.functionStarts (ns.flatMap functionStarts)
    rw [hnested.2] at hn
    rw [List.append_nil]
    exact hn.trans hbs.2.2
  · exact .fail

theorem returns_withItem : Returns withItem (·.Is .withItem) := by
  refine looks_here.passes.skip fun _ => (gives_outermost .expression).andThen fun _ context hc => ?_
  refine (passes_accept "as").skip fun _ => .ite (fun _ => ?_) fun _ => node_is rfl (.one hc.1 (.absent .nil))
  refine (returns_starTarget gives_outermost).andThen fun _ target ht => (looks_sees ",").passes.skip fun _ => ?_
  refine (looks_sees ")").passes.skip fun _ => (looks_sees ":").passes.skip fun _ => ?_
  exact .ite (fun _ => node_is rfl (.one hc.1 (.present ht.1 .nil))) fun _ => .failed

theorem returns_enclosedItems : Returns enclosedItems fun ns => ∀ n ∈ ns, n.Is .withItem := by
  refine (passes_expect "(").skip fun _ => returns_withItem.andThen fun _ first hfirst => ?_
  refine (Returns.afterCommas returns_withItem).andThen fun _ rest hrest => (passes_expect ")").skip fun _ => ?_
  refine (looks_sees ":").passes.skip fun _ => .ite (fun _ => ?_) fun _ => .fail
  exact .pure (List.forall_mem_cons.2 ⟨hfirst, hrest⟩)

theorem returns_openItems : Returns openItems fun ns => ∀ n ∈ ns, n.Is .withItem := by
  refine returns_withItem.andThen fun _ first hfirst => ?_
  refine (Returns.manyWhen (passes_accept ",") returns_withItem).andThen fun _ rest hrest => ?_
  exact .pure (List.forall_mem_cons.2 ⟨hfirst, hrest⟩)

theorem gives_withStatement (h : Gives block (Phrases .statement)) (start : Pos) (isAsync : Bool) :
    Gives (withStatement block start isAsync) (Phrase .statement) := by
  have finish : ∀ items : List Node, (∀ n ∈ items, n.Is .withItem) → Gives (do
      let body ← headed block
      node (.withStmt isAsync) start (items.map (·.as .item) ++ body.map (·.as .body)))
        (Phrase .statement) := by
    refine fun items hitems => (gives_headed h).bind fun L body hbody => ?_
    refine node_phrase rfl rfl ((Arranged.list hitems).append (.list hbody.1)) ?_
    simpa [List.flatMap_map, Node.flatMap_functionStarts_eq_nil hitems rfl] using hbody.2
  refine (passes_expect "with").skip fun _ => (Gives.attempt returns_enclosedItems).andThen fun _ items hitems => ?_
  cases items with
  | some items => exact finish items (hitems items rfl)
  | none => exact returns_openItems.andThen fun _ items hitems => finish items hitems

theorem gives_exceptHandler (h : Gives block (Phrases .statement)) :
    Gives (exceptHandler block) fun L handler => Phrase .handler L handler.2 := by
  refine looks_here.passes.skip fun _ => (passes_expect "except").skip fun _ => (passes_accept "*").skip fun _ => ?_
  refine (looks_sees ":").passes.skip fun _ => .ite (fun _ => ?_) fun _ => ?_
  · refine (gives_headed h).bind fun L body hbody => ?_
    refine Gives.bind (node_phrase rfl rfl (.absent (.list hbody.1)) ?_)
      fun L' n (hn : Phrase .handler (L ++ L') n) => .pure (by simpa using hn)
    simpa [List.flatMap_map] using hbody.2
  · refine (gives_outermost .expression).andThen fun _ type ht => passes_asName?.skip fun _ => ?_
    refine (gives_headed h).bind fun L body hbody => ?_
    refine Gives.bind (node_phrase rfl rfl (.present ht.1 (.list hbody.1)) ?_)
      fun L' n (hn : Phrase .handler (L ++ L') n) => .pure (by simpa using hn)
    simpa [List.flatMap_map, functionStarts_eq_nil type ht.1 rfl] using hbody.2

theorem gives_tryStatement (h : Gives block (Phrases .statement)) :
    Gives (tryStatement block) (Phrase .statement) := by
  refine looks_here.passes.skip fun _ => (passes_expect "try").skip fun _ => ?_
  refine (gives_headed h).bind fun L body hbody => ?_
  refine Gives.more (Gives.manyWhen (fun handler : Bool × Node => handler.2.functionStarts)
    (looks_sees "except").passes (gives_exceptHandler h)) fun L' handlers hhandlers => ?_
  refine .ite (fun _ => .failed) fun _ => .join (Gives.more (.ite (fun _ => .pure ⟨.none .nil, by simp⟩)
    fun _ => gives_elsePart h) fun L'' orelse horelse => ?_)
  refine (gives_finallyPart h).more fun _ finalBody hfinal => .ite (fun _ => .failed) fun _ => ?_
  have harranged : Arranged [Slot.many .handler .handler] (handlers.map (·.2.as .handler)) :=
    .single rfl (List.forall_mem_map.2 fun _ _ => by simp)
      (List.forall_mem_map.2 fun handler hmem => by simpa using hhandlers.1 handler hmem)
  refine node_phrase rfl rfl ((((Arranged.list hbody.1).append harranged).append horelse.1).append hfinal.1) ?_
  simpa [List.flatMap_map] using ((hbody.2.append hhandlers.2).append horelse.2).append hfinal.2

/-- A function starts where its statement starts, which may be before the word that introduces it. -/
theorem gives_functionStatement (h : Gives block (Phrases .statement)) (s start : Pos) (isAsync : Bool)
    {decorators : List Node} (hd : ∀ n ∈ decorators, n.Is .expression) :
    GivesAt s (functionStatement block start isAsync decorators) fun L n =>
      ∃ L', L = s :: L' ∧ Phrase .statement (start :: L') n := by
  refine .expect (by decide) ?_
  refine Gives.imp (R := fun L => Phrase .statement (start :: L)) ?_ fun L n hn => ⟨L, rfl, hn⟩
  refine passes_identifier.skip fun name => (passes_expect "(").skip fun _ => ?_
  refine (returns_signature gives_outermost _ _).andThen fun _ args ha => (passes_expect ")").skip fun _ => ?_
  refine (passes_accept "->").skip fun _ => .andThen_ite (Q := fun o => ∀ n ∈ o, n.Is .expression)
    (fun _ => ?_) (fun _ => .pure (by simp)) fun returns hr => ?_
  · exact (gives_outermost .expression).is.map fun _ n hn => by simpa using hn
  refine (gives_headed h).bind fun L body hbody => ?_
  have harranged := ((Arranged.one (r := .signature) ha (.list (r := .body) hbody.1)).append
    (.list (r := .decorator) hd)).append (.option (r := .returns) hr)
  have hreturns : returns.toList.flatMap functionStarts = [] :=
    Node.flatMap_functionStarts_eq_nil (fun n hn => hr n (Option.mem_toList.1 hn)) rfl
  rw [Option.toList_map]
  refine Gives.imp (returns_node harranged) fun L' n hn => ⟨hn.1, ?_⟩
  rw [Node.functionStarts_eq hn.1, Node.introducedStarts, hn.2.1, hn.2.2.1, hn.2.2.2]
  simpa [List.flatMap_map, functionStarts_eq_nil args ha rfl, Node.flatMap_functionStarts_eq_nil hd rfl,
    hreturns] using hbody.2.trans (List.sublist_append_left L L')

theorem gives_classStatement (h : Gives block (Phrases .statement)) {decorators : List Node}
    (hd : ∀ n ∈ decorators, n.Is .expression) :
    Gives (classStatement block decorators) (Phrase .statement) := by
  have finish : ∀ (start : Pos) (name : Identifier) (args : List Node × List Node),
      (∀ n ∈ args.1, n.Is .expression) → Arranged [Slot.many .keyword .keyword] args.2 → Gives (do
        let body ← headed block
        node (.classDef name) start (args.1.map (·.as .base) ++ args.2 ++ body.map (·.as .body) ++
          decorators.map (·.as .decorator))) (Phrase .statement) := by
    intro start name args hbases hkeywords
    refine (gives_headed h).bind fun L body hbody => ?_
    refine node_phrase rfl rfl ((((Arranged.list hbases).append hkeywords).append (.list hbody.1)).append
      (.list hd)) ?_
    simpa [List.flatMap_map, Node.flatMap_functionStarts_eq_nil hbases rfl,
      Node.flatMap_functionStarts_eq_nil (fun n hn => (hkeywords.of_single n hn).2) rfl,
      Node.flatMap_functionStarts_eq_nil hd rfl] using hbody.2
  refine looks_here.passes.skip fun start => (passes_expect "class").skip fun _ => ?_
  refine passes_identifier.skip fun name => (passes_accept "(").skip fun _ => .ite (fun _ => ?_) fun _ => ?_
  · refine (returns_arguments gives_outermost).andThen fun _ args hargs => (passes_expect ")").skip fun _ => ?_
    exact finish start name args (fun n hn => (hargs.1.of_single n hn).2) hargs.2
  · exact finish start name ([], []) (by simp) (.none .nil)

theorem returns_decorator : Returns decorator (·.Is .expression) := by
  refine (passes_expect "@").skip fun _ => (gives_namedExpression gives_outermost).is.andThen fun _ value hv => ?_
  exact (passes_expectKind .newline).skip fun _ => .pure hv

theorem gives_plainFunction (h : Gives block (Phrases .statement)) (s : Pos) {decorators : List Node}
    (hd : ∀ n ∈ decorators, n.Is .expression) :
    GivesAt s (functionStatement block s false decorators) (Phrase .statement) := by
  refine (gives_functionStatement h s s false hd).imp ?_
  rintro _ n ⟨L, rfl, hn⟩
  exact hn

/-- The word before a function is taken before it, so its place comes first. -/
theorem gives_asyncFunction (h : Gives block (Phrases .statement)) (start : Pos) {decorators : List Node}
    (hd : ∀ n ∈ decorators, n.Is .expression) :
    Gives (functionStatement block start true decorators) fun L => Phrase .statement (start :: L) := by
  intro s
  refine (gives_functionStatement h s start true hd).imp ?_
  rintro _ n ⟨L, rfl, hn⟩
  exact hn.mono ((List.sublist_cons_self s L).cons_cons start)

theorem gives_decoratedStatement (h : Gives block (Phrases .statement)) :
    Gives (decoratedStatement block) (Phrase .statement) := by
  refine (Returns.manyWhen (looks_sees "@").passes returns_decorator).andThen fun _ decorators hd s => ?_
  refine .here ((looks_sees "class").andThen fun _ => .ite (fun _ => gives_classStatement h hd s) fun _ => ?_)
  exact .accept (by decide) (gives_asyncFunction h s hd) (gives_plainFunction h s hd)

theorem gives_asyncStatement (h : Gives block (Phrases .statement)) :
    Gives (asyncStatement block) (Phrase .statement) := by
  refine fun s => .here (.expect (by decide) ?_)
  refine (looks_sees "def").passes.skip fun _ => .ite (fun _ => gives_asyncFunction h s (by simp)) fun _ => ?_
  refine (looks_sees "with").passes.skip fun _ => .ite (fun _ => ?_) fun _ => ?_
  · exact (gives_withStatement h s true).imp fun L n hn => hn.mono (List.sublist_cons_self s L)
  · exact (gives_forStatement h s true).imp fun L n hn => hn.mono (List.sublist_cons_self s L)

theorem returns_matchSubject : Returns matchSubject (·.Is .expression) := by
  have hitem := (gives_starNamedExpression gives_outermost).is
  refine looks_here.passes.skip fun _ => (looks_sees "*").passes.skip fun _ => hitem.andThen fun _ first hfirst => ?_
  refine (looks_sees ",").passes.skip fun _ => .ite (fun _ => ?_) fun _ => ?_
  · exact (Returns.afterCommas hitem).andThen fun _ rest hrest => node_is rfl (arranged_list hfirst hrest)
  · exact .ite (fun _ => .fail) fun _ => .pure hfirst

theorem gives_matchCase (h : Gives block (Phrases .statement)) :
    Gives (matchCase block) (Phrase .matchCase) := by
  refine looks_here.passes.skip fun _ => passes_next.skip fun _ => returns_patterns.andThen fun _ p hp => ?_
  refine (passes_accept "if").skip fun _ => .andThen_ite (Q := fun o => ∀ n ∈ o, n.Is .expression)
    (fun _ => ?_) (fun _ => .pure (by simp)) fun guard hg => ?_
  · exact (gives_namedExpression gives_outermost).is.map fun _ n hn => by simpa using hn
  refine (gives_headed h).bind fun L body hbody => ?_
  have hguard : guard.toList.flatMap functionStarts = [] :=
    Node.flatMap_functionStarts_eq_nil (fun n hn => hg n (Option.mem_toList.1 hn)) rfl
  rw [Option.toList_map]
  refine node_phrase rfl rfl ((Arranged.one hp (.option hg)).append (.list hbody.1)) ?_
  simpa [List.flatMap_map, functionStarts_eq_nil p hp rfl, hguard] using hbody.2

theorem gives_matchStatement (h : Gives block (Phrases .statement)) :
    Gives (matchStatement block) (Phrase .statement) := by
  refine looks_here.passes.skip fun _ => passes_next.skip fun _ => returns_matchSubject.andThen fun _ subject hs => ?_
  refine (passes_expect ":").skip fun _ => (passes_expectKind .newline).skip fun _ => ?_
  refine (passes_expectKind .indent).skip fun _ => ?_
  refine Gives.bind (Gives.manyWhen functionStarts (looks_seesWord "case").passes (gives_matchCase h))
    fun L cases hcases => (passes_expectKind .dedent).skip fun _ => .ite (fun _ => .failed) fun _ => ?_
  refine node_phrase rfl rfl (.one hs (.list hcases.1)) ?_
  simpa [List.flatMap_map, functionStarts_eq_nil subject hs rfl] using hcases.2

/-! ## Blocks and files -/

theorem GivesAt.singleton {s : Pos} (hp : GivesAt s p (Phrase cat)) :
    GivesAt s (do return [← p]) (Phrases cat) :=
  hp.bind fun L n hn => .pure ⟨by simpa using hn.1, by simpa using hn.2⟩

theorem gives_statement (h : Gives block (Phrases .statement)) :
    Gives (statement block) (Phrases .statement) := by
  refine fun s => looks_peek.andThen fun t => ?_
  refine .ite (fun _ => (gives_ifStatement h s).singleton) fun _ => ?_
  refine .ite (fun _ => (gives_whileStatement h s).singleton) fun _ => ?_
  refine .ite (fun _ => .here (gives_forStatement h s false s).singleton) fun _ => ?_
  refine .ite (fun _ => .here (gives_withStatement h s false s).singleton) fun _ => ?_
  refine .ite (fun _ => (gives_tryStatement h s).singleton) fun _ => ?_
  refine .ite (fun _ => .here (gives_plainFunction h s (by simp)).singleton) fun _ => ?_
  refine .ite (fun _ => (gives_classStatement h (by simp) s).singleton) fun _ => ?_
  refine .ite (fun _ => (gives_asyncStatement h s).singleton) fun _ => ?_
  refine .ite (fun _ => (gives_decoratedStatement h s).singleton) fun _ => ?_
  refine (looks_seesWord "match").andThen fun _ => .ite (fun _ => ?_) fun _ => gives_simpleStatements s
  refine (gives_matchStatement h).attempt.places_of_none.bind (fun L o ho => ?_) s
  cases o with
  | some n => exact .pure ⟨by simpa using (ho.2 n rfl).1, by simpa using (ho.2 n rfl).2⟩
  | none =>
    obtain rfl := ho.1 rfl
    exact gives_simpleStatements

theorem gives_statementsUntil (h : Gives block (Phrases .statement)) (closing : TokenKind) :
    Gives (statementsUntil closing block) (Phrases .statement) := by
  refine Gives.bind (Gives.manyStarts (Q := fun ns => ∀ n ∈ ns, n.Is .statement)
    (·.flatMap functionStarts) (looks_peek.passes.skip fun _ => .ite (fun _ => .pure (by simp)) fun _ => ?_))
    fun L groups hgroups => .pure ?_
  · exact (gives_statement h).bind fun L ns hns => .pure (by simpa [Phrases] using hns)
  · refine ⟨fun n hn => ?_, ?_⟩
    · obtain ⟨ns, hns, hn⟩ := List.mem_flatten.1 hn
      exact hgroups.1 ns hns n hn
    · rw [List.append_nil, ← List.flatMap_id, List.flatMap_assoc]
      exact hgroups.2

theorem gives_blockRule (h : Gives block (Phrases .statement)) :
    Gives (blockRule block) (Phrases .statement) := by
  refine looks_peek.passes.skip fun _ => .ite (fun _ => ?_) fun _ => gives_simpleStatements
  refine passes_next.skip fun _ => (passes_expectKind .indent).skip fun _ => ?_
  refine (gives_statementsUntil h .dedent).bind fun L body hbody => (passes_expectKind .dedent).skip fun _ => ?_
  exact .ite (fun _ => .fail) fun _ => .pure (by simpa using hbody)

theorem gives_block : ∀ n : Nat, Gives (Grammar.block n) (Phrases .statement)
  | 0 => .throw
  | n + 1 => gives_blockRule (gives_block n)

theorem gives_file : Gives file (Phrase .file) := by
  refine (gives_statementsUntil (gives_block maxDepth) .stop).bind fun L body hbody => ?_
  refine node_phrase rfl rfl (.list hbody.1) ?_
  simpa [List.flatMap_map] using hbody.2

end Compound

end Grammar

/-- The tree of a node is the node, numbered. -/
theorem Tree.ofNode?_eq_some {n : Node} {t : Tree} (h : Tree.ofNode? n = some t) : t.root = n.number 0 := by
  unfold Tree.ofNode? at h
  split at h
  · cases h
    rfl
  · cases h

/-- A file that the grammar gives makes a tree. -/
theorem Tree.exists_ofNode? {n : Node} (h : n.Is .file) : ∃ t, Tree.ofNode? n = some t :=
  ⟨_, dif_pos (Node.isFile_iff.2 (h.number n 0))⟩

/-- A tree is what the grammar gives for the tokens of the text, numbered. -/
theorem Tree.parse_eq_ok {text : String} {t : Tree} (h : Tree.parse text = .ok t) :
    ∃ tokens n c, Token.scanFile text = .ok tokens ∧
      Grammar.file (.ofTokens tokens .start) = .ok (n, c) ∧ t.root = n.number 0 := by
  obtain ⟨tokens, htokens, h⟩ := bind_eq_ok.1 h
  obtain ⟨⟨n, c⟩, hn, h⟩ := bind_eq_ok.1 h
  obtain ⟨m, hm, h⟩ := bind_eq_ok.1 h
  obtain rfl : n = m := by
    unfold refuseDeep at hm
    split at hm
    · cases hm
    · exact Except.ok.inj hm
  split at h
  · next ht =>
    cases h
    exact ⟨tokens, n, c, htokens, hn, Tree.ofNode?_eq_some ht⟩
  · cases h

/-- What the grammar gives is refused only for its depth. -/
theorem Tree.exists_parse {text : String} {tokens : List Token} {n : Node} {c : Grammar.Cursor}
    (htokens : Token.scanFile text = .ok tokens)
    (hn : Grammar.file (.ofTokens tokens .start) = .ok (n, c)) (hdeep : n.height ≤ Grammar.maxDepth) :
    ∃ t, Tree.parse text = .ok t := by
  obtain ⟨L, hfile, -⟩ := Grammar.gives_file _ rfl hn
  obtain ⟨t, ht⟩ := Tree.exists_ofNode? hfile.1
  refine ⟨t, bind_eq_ok.2 ⟨tokens, htokens, bind_eq_ok.2 ⟨(n, c), hn, bind_eq_ok.2 ⟨n, ?_, ?_⟩⟩⟩⟩
  · rw [refuseDeep, if_neg (Nat.not_lt.2 hdeep)]
  · simp only [ht]
    rfl

/-- The functions of a file start at tokens, in their order. -/
theorem Tree.parse_starts {text : String} {t : Tree} (h : Tree.parse text = .ok t) :
    ∃ tokens, Token.scanFile text = .ok tokens ∧
      t.root.functionStarts.Sublist (Grammar.marks tokens) := by
  obtain ⟨tokens, n, c, htokens, hn, hroot⟩ := Tree.parse_eq_ok h
  obtain ⟨L, hfile, hL⟩ := Grammar.gives_file _ rfl hn
  refine ⟨tokens, htokens, ?_⟩
  rw [hroot, Node.functionStarts_number n 0 hfile.1]
  exact hfile.2.trans ((List.sublist_append_left L _).trans hL)

end EffectGraph
