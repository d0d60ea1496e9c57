/-
How far statements extend, and with them the nodes of a whole file.

A compound statement reaches to the end of its last block. Two rules need care:
the parts of a chain of conditions nest, so each starts after the one before
(`Chained`), and decorators stand before the definition they belong to
(`Node.Fits.decorated`). Statements are read from the tokens of the file itself,
so their places are known exactly, and so are those of all functions
(`WasRead.fits`).
-/
import EffectGraph.Proofs.Extent.Expression
import EffectGraph.Proofs.Model.Declaration

namespace EffectGraph

namespace Grammar

open Node (AllFit)

variable {lo hi : Pos} {known : List Node} {p : Parser Node}

/-! ## Simple statements -/

theorem covers_targetsOf (es : List Node) : Covers .exact lo es (targetsOf es) fun hi ts => AllFit .exact lo hi ts := by
  induction es with
  | nil => exact .pure fun _ _ => by simp
  | cons e es ih =>
    rw [targetsOf]
    refine covers_target fun target => ?_
    refine Covers.bind (N := id) (ih.weaken fun hi h => ?_) fun ts => ?_
    · exact (Node.allFit_cons.1 h).2
    · exact .pure fun _ h => by simp_all

theorem covers_singleTarget {β : Type} {n : Node} {g : Node → Parser β} {Q : Pos → β → Prop}
    (hg : ∀ target, Covers .exact lo (target :: known) (g target) Q) :
    Covers .exact lo (n :: known) (match n.asSingleTarget? with | none => fail | some target => g target) Q := by
  split
  · exact .fail
  · next target ht =>
    refine (hg target).weaken fun hi h => ?_
    rw [Node.allFit_cons] at h ⊢
    exact ⟨Node.fits_asTarget? n target (Node.asTarget?_of_asSingleTarget? ht) _ lo hi h.1, h.2⟩

theorem spans_expressionStatement : SpansNode .exact expressionStatement := by
  have hvalue : SpansNode .exact _ := spans_yieldOrStarExpressions spans_outermost
  refine .here fun start => (spans_starExpressions spans_outermost).bind fun first => ?_
  refine looks_peek.takes.skip fun t => .ite ?_ (.ite ?_ (.ite ?_ (.node rfl fun _ h => by simp_all)))
  · refine takes_next.skip fun _ => covers_singleTarget fun target => ?_
    refine (spans_outermost .expression).bind fun hint => (takes_accept "=").skip fun _ => .ite ?_ ?_
    · exact hvalue.bind fun value => .node rfl fun _ h => by simp_all
    · exact .node rfl fun _ h => by simp_all
  · refine (Spans.manyWhen (takes_accept "=") hvalue).bind fun rest => ?_
    split
    · next value targets heq =>
      refine Covers.weaken (?_ : Covers .exact start (value :: targets.reverse) _ _) fun hi h => ?_
      · refine Covers.bind (N := id) ((covers_targetsOf _).weaken fun hi h => ?_) fun ts => ?_
        · exact (Node.allFit_cons.1 h).2
        · exact .node rfl fun _ h => by simp_all
      · have hall : AllFit .exact start hi (first :: rest).reverse := by simpa [and_comm] using h
        simpa [heq] using hall
    · exact .fail
  · refine takes_next.skip fun _ => covers_singleTarget fun target => ?_
    exact hvalue.bind fun value => .node rfl fun _ h => by simp_all

/-- One of the targets of a `del` statement. -/
def deleted : Parser Node := do
  match (← outermost .primary).asDeleted? with
  | some t => return t
  | none => fail

theorem spans_deleted : SpansNode .exact deleted := by
  intro lo
  refine (spans_outermost .primary).bind fun n => ?_
  split
  · next target ht =>
    refine .pure fun hi h => ?_
    simpa using Node.fits_asTarget? _ _ (Node.asTarget?_of_asDeleted? ht) _ lo hi (by simpa using h)
  · exact .fail

theorem spans_deleteStatement : SpansNode .exact deleteStatement := by
  refine .here fun _ => (takes_expect "del").skip fun _ => spans_deleted.bind fun first => ?_
  refine (Spans.afterCommas spans_deleted).bind fun found => ?_
  obtain ⟨rest, trailing⟩ := found
  refine (looks_sees ";").takes.skip fun _ => ?_
  exact looks_peek.takes.skip fun _ => .ite (.node rfl fun _ h => by simp_all) .failed

theorem spans_raiseStatement : SpansNode .exact raiseStatement := by
  refine .here fun _ => (takes_expect "raise").skip fun _ => looks_peek.takes.skip fun _ => ?_
  refine .ite ?_ (.node rfl fun _ _ => by simp)
  refine (spans_outermost .expression).bind fun value => (takes_accept "from").skip fun _ => .ite ?_ ?_
  · exact (spans_outermost .expression).bind fun cause => .node rfl fun _ h => by simp_all
  · exact .node rfl fun _ h => by simp_all

theorem spans_assertStatement : SpansNode .exact assertStatement := by
  refine .here fun _ => (takes_expect "assert").skip fun _ => (spans_outermost .expression).bind fun test => ?_
  refine (takes_accept ",").skip fun _ => .ite ?_ (.node rfl fun _ h => by simp_all)
  exact (spans_outermost .expression).bind fun message => .node rfl fun _ h => by simp_all

/-- Words between separators. -/
theorem takes_dotted : Takes .exact dotted := fun _ =>
  takes_nameText.skip fun _ => (Spans.manyWhen (takes_accept ".") takes_nameText).takes.skip fun _ =>
    .pure fun _ _ => by simp

theorem takes_names : Takes .exact names := fun _ =>
  takes_nameText.skip fun _ => (Spans.manyWhen (takes_accept ",") takes_nameText).takes.skip fun _ =>
    .pure fun _ _ => by simp

theorem takes_asName? : Takes .exact asName? := fun _ =>
  (takes_accept "as").skip fun _ => .ite (takes_nameText.skip fun _ => .pure fun _ _ => by simp)
    (.pure fun _ _ => by simp)

theorem spans_importStatement : SpansNode .exact importStatement := by
  have hitem : SpansNode .exact (do
      let start ← here
      let name ← dotted
      let asName ← asName?
      node (.importAlias name asName) start []) :=
    .here fun _ => takes_dotted.skip fun _ => takes_asName?.skip fun _ => .node rfl fun _ _ => by simp
  refine .here fun _ => (takes_expect "import").skip fun _ => hitem.bind fun first => ?_
  exact (Spans.manyWhen (takes_accept ",") hitem).bind fun rest => .node rfl fun _ h => by simp_all

theorem spans_importedName : SpansNode .exact importedName :=
  .here fun _ => takes_nameText.skip fun _ => takes_asName?.skip fun _ => .node rfl fun _ _ => by simp

theorem spans_importedNames : Spans .exact importedNames id := by
  refine .here fun _ => (takes_accept "*").skip fun _ => .ite ?_ ?_
  · exact Covers.bind (.node rfl fun _ _ => by simp) fun n => .pure fun _ h => by simp_all
  refine (takes_accept "(").skip fun _ => .ite ?_ ?_
  · refine spans_importedName.bind fun first => (Spans.afterCommas spans_importedName).bind fun ⟨rest, _⟩ => ?_
    exact (takes_expect ")").skip fun _ => .pure fun _ h => by simp_all
  · refine spans_importedName.bind fun first => ?_
    exact (Spans.manyWhen (takes_accept ",") spans_importedName).bind fun rest => .pure fun _ h => by simp_all

theorem spans_importFromStatement : SpansNode .exact importFromStatement := by
  have dots : Takes .exact (many do
      if ← accept "." then return some 1
      else if ← accept "..." then return some 3
      else return none) := Spans.takes (N := fun as => as.flatMap fun _ => []) fun _ =>
    .many <| (takes_accept ".").skip fun _ => .ite (.pure fun _ _ => by simp) <|
      (takes_accept "...").skip fun _ => .ite (.pure fun _ _ => by simp) (.pure fun _ _ => by simp)
  have finish : ∀ (start : Pos) (level : Nat) (module : String), Covers .exact start [] (do
      expect "import"
      let aliases ← importedNames
      node (.importFrom module level) start (aliases.map (·.as .importAlias))) fun hi n =>
        AllFit .exact start hi [n] := fun _ _ _ =>
    (takes_expect "import").skip fun _ => spans_importedNames.bind fun aliases => .node rfl fun _ h => by simp_all
  refine .here fun _ => (takes_expect "from").skip fun _ => dots.skip fun _ => looks_peek.takes.skip fun _ => ?_
  exact .ite (takes_dotted.skip fun _ => finish _ _ _) (.ite .failed (finish _ _ _))

theorem spans_wordStatement {k : Kind} (hk : (k.isName || k.isFormatted) = false) :
    SpansNode .exact (wordStatement k) :=
  .here fun _ => takes_next.skip fun _ => .node hk fun _ _ => by simp

theorem spans_namesStatement {kind : List String → Kind}
    (hk : ∀ names, ((kind names).isName || (kind names).isFormatted) = false) :
    SpansNode .exact (namesStatement kind) :=
  .here fun _ => takes_next.skip fun _ => takes_names.skip fun _ => .node (hk _) fun _ _ => by simp

theorem spans_returnStatement : SpansNode .exact returnStatement := by
  refine .here fun _ => (takes_expect "return").skip fun _ => looks_peek.takes.skip fun _ => ?_
  refine .ite ?_ (.node rfl fun _ _ => by simp)
  exact (spans_starExpressions spans_outermost).bind fun value => .node rfl fun _ h => by simp_all

theorem spans_yieldStatement : SpansNode .exact yieldStatement :=
  .here fun _ => (spans_yieldExpression spans_outermost).bind fun _ => .node rfl fun _ h => by simp_all

theorem spans_simpleStatement : SpansNode .exact simpleStatement := fun lo => by
  refine looks_peek.takes.skip fun _ => .ite ?_ (spans_expressionStatement lo)
  exact .ite (spans_returnStatement lo) <| .ite (spans_importStatement lo) <|
    .ite (spans_importFromStatement lo) <| .ite (spans_raiseStatement lo) <|
    .ite (spans_wordStatement rfl lo) <| .ite (spans_deleteStatement lo) <| .ite (spans_yieldStatement lo) <|
    .ite (spans_assertStatement lo) <| .ite (spans_wordStatement rfl lo) <| .ite (spans_wordStatement rfl lo) <|
    .ite (spans_namesStatement (fun _ => rfl) lo) <| .ite (spans_namesStatement (fun _ => rfl) lo) <|
    spans_expressionStatement lo

theorem spans_simpleStatements : Spans .exact simpleStatements id := fun _ => by
  refine spans_simpleStatement.bind fun first => ?_
  refine Covers.bind (N := id) (.imp (.many (N := fun n => [n]) <| (looks_sees ";").takes.skip fun _ =>
    looks_peekSecond.takes.skip fun _ => .ite ((takes_expect ";").skip fun _ =>
      .found spans_simpleStatement.covers) (.pure fun _ _ => by simp)) fun _ _ h => by simpa using h) fun rest => ?_
  refine (takes_accept ";").skip fun _ => (takes_expectKind .newline).skip fun _ => ?_
  exact .pure fun _ h => by simp_all

/-! ## Compound statements -/

section Compound

variable {block : Block}

theorem spans_headed (h : Spans .exact block id) : Spans .exact (headed block) id := fun lo =>
  (takes_expect ":").skip fun _ => h lo

/-- A further block of a statement, which may be missing. -/
theorem spans_further (h : Spans .exact block id) (word : String) (r : Role) :
    Spans .exact (do if ← accept word then return (← headed block).map (·.as r) else return []) id := fun _ =>
  (takes_accept word).skip fun _ => .ite
    ((spans_headed h).bind fun _ => .pure fun _ h => by simp_all) (.pure fun _ _ => by simp)

theorem spans_elsePart (h : Spans .exact block id) : Spans .exact (elsePart block) id := spans_further h "else" .orelse

theorem spans_finallyPart (h : Spans .exact block id) : Spans .exact (finallyPart block) id :=
  spans_further h "finally" .finalBody

theorem spans_whileStatement (h : Spans .exact block id) : SpansNode .exact (whileStatement block) := by
  refine .here fun _ => (takes_expect "while").skip fun _ => ?_
  refine (spans_namedExpression spans_outermost).bind fun test => (spans_headed h).bind fun body => ?_
  exact (spans_elsePart h).bind fun orelse => .node rfl fun _ h => by simp_all

theorem covers_forStatement (h : Spans .exact block id) (start : Pos) (isAsync : Bool) :
    Covers .exact start [] (forStatement block start isAsync) fun hi n => AllFit .exact start hi [n] := by
  refine (takes_expect "for").skip fun _ => (spans_starTargets spans_outermost).bind fun target => ?_
  refine (takes_expect "in").skip fun _ => (spans_starExpressions spans_outermost).bind fun iter => ?_
  refine (spans_headed h).bind fun body => (spans_elsePart h).bind fun orelse => ?_
  exact .node rfl fun _ h => by simp_all

/-- The branches of a chain of conditions start one after the other, and the last block follows. -/
inductive Chained : Pos → Pos → List Branch → List Node → Prop
  | nil {lo hi : Pos} {orelse : List Node} : AllFit .exact lo hi orelse → Chained lo hi [] orelse
  | cons {lo hi : Pos} {b : Branch} {bs : List Branch} {orelse : List Node} : lo ≤ b.start →
    AllFit .exact b.start hi (b.test :: b.body) → Chained b.start hi bs orelse → Chained lo hi (b :: bs) orelse

theorem Chained.fits_nestBranches {bs : List Branch} {orelse : List Node} (h : Chained lo hi bs orelse) :
    AllFit .exact lo hi (nestBranches hi bs orelse) := by
  induction h with
  | nil horelse => exact horelse
  | cons hstart hparts _ ih =>
    refine Node.allFit_cons.2 ⟨.new hstart nofun (le_refl _) ?_, Node.allFit_nil⟩
    exact fun c hc => (by simp_all : AllFit .exact _ _ _) c hc

/-- A branch that is read before something else. -/
theorem covers_branch {β : Type} (h : Spans .exact block id) (word : String) {f : Branch → Parser β}
    {R : Branch → Pos → β → Prop} (hf : ∀ b, Covers .exact b.start [] (f b) (R b)) :
    Covers .exact lo [] (branch block word >>= f) fun hi x =>
      ∃ b : Branch, lo ≤ b.start ∧ AllFit .exact b.start hi (b.test :: b.body) ∧ R b hi x := by
  simp only [branch, bind_assoc, pure_bind]
  refine .here fun start hlo => (takes_expect word).skip fun _ => ?_
  refine (spans_namedExpression spans_outermost).bind fun test => (spans_headed h).bind fun body => ?_
  refine (hf ⟨start, test, body⟩).keep.imp fun hi x hx _ => ⟨⟨start, test, body⟩, hlo, ?_, hx.2⟩
  simpa [and_comm] using hx.1

/-- Further branches, up to the last block. -/
theorem covers_furtherBranches (h : Spans .exact block id) {f : List Branch → List Branch} :
    ∀ (n : Nat) (done : List Branch) (lo : Pos), Covers .exact lo [] (do
      let bs ← repeatFor (furtherBranch block) n done
      let orelse ← elsePart block
      return (f bs, orelse)) fun hi x => ∃ new, x.1 = f (done.reverse ++ new) ∧ Chained lo hi new x.2 := by
  have finish : ∀ (done : List Branch) (lo : Pos), Covers .exact lo [] (do
      let orelse ← elsePart block
      return (f done.reverse, orelse)) fun hi x =>
        ∃ new, x.1 = f (done.reverse ++ new) ∧ Chained lo hi new x.2 :=
    fun done lo => (spans_elsePart h).bind fun orelse => .pure fun _ h => ⟨[], by simp, .nil (by simp_all)⟩
  intro n
  induction n with
  | zero => exact fun done lo => by simpa [repeatFor] using finish done lo
  | succ n ih =>
    intro done lo
    simp only [repeatFor, furtherBranch, bind_assoc]
    refine (looks_sees "elif").takes.skip fun found => ?_
    cases found with
    | false => simpa using finish done lo
    | true =>
      simp only [if_true, bind_assoc, pure_bind]
      refine (covers_branch h "elif" fun b => ih (b :: done) b.start).imp ?_
      rintro hi x ⟨b, hb, hparts, new, hx, hchain⟩
      exact ⟨b :: new, by simpa using hx, .cons hb hparts hchain⟩

theorem covers_branches (h : Spans .exact block id) :
    Covers .exact lo [] (branches block) fun hi x => Chained lo hi x.1 x.2 := by
  refine (covers_branch (R := fun first hi x => ∃ new, x.1 = first :: new ∧ Chained first.start hi new x.2) h "if"
    fun first => ?_).imp ?_
  · simp only [many, bind_assoc]
    exact looks_get.takes.skip fun c => covers_furtherBranches h c.total [] first.start
  · rintro hi ⟨bs, orelse⟩ ⟨b, hb, hparts, new, rfl, hchain⟩
    exact .cons hb hparts hchain

theorem spans_ifStatement (h : Spans .exact block id) : SpansNode .exact (ifStatement block) := fun lo => by
  refine .last (covers_branches h) fun x c hx => ?_
  dsimp only
  split
  · next n ns heq =>
    have hn : n.Fits .exact lo c.last := hx.fits_nestBranches n (by simp [heq])
    exact .pure fun hi _ hhi => by simpa using hn.mono .rfl hhi
  · exact .fail

theorem spans_withItem : SpansNode .exact withItem := by
  refine .here fun _ => (spans_outermost .expression).bind fun context => (takes_accept "as").skip fun _ => ?_
  refine .ite ?_ (.node rfl fun _ h => by simp_all)
  refine (spans_starTarget spans_outermost).bind fun target => (looks_sees ",").takes.skip fun _ => ?_
  refine (looks_sees ")").takes.skip fun _ => (looks_sees ":").takes.skip fun _ => ?_
  exact .ite (.node rfl fun _ h => by simp_all) .failed

theorem spans_enclosedItems : Spans .exact enclosedItems id := fun _ => by
  refine (takes_expect "(").skip fun _ => spans_withItem.bind fun first => ?_
  refine (Spans.afterCommas spans_withItem).bind fun ⟨rest, _⟩ => (takes_expect ")").skip fun _ => ?_
  exact (looks_sees ":").takes.skip fun _ => .ite (.pure fun _ h => by simp_all) .fail

theorem spans_openItems : Spans .exact openItems id := fun _ =>
  spans_withItem.bind fun _ => (Spans.manyWhen (takes_accept ",") spans_withItem).bind fun _ =>
    .pure fun _ h => by simp_all

theorem covers_withStatement (h : Spans .exact block id) (start : Pos) (isAsync : Bool) :
    Covers .exact start [] (withStatement block start isAsync) fun hi n => AllFit .exact start hi [n] := by
  have finish : ∀ items : List Node, Covers .exact start items (do
      let body ← headed block
      node (.withStmt isAsync) start (items.map (·.as .item) ++ body.map (·.as .body))) fun hi n =>
        AllFit .exact start hi [n] := fun items =>
    (spans_headed h).bind fun body => .node rfl fun _ h => by simp_all
  refine (takes_expect "with").skip fun _ => spans_enclosedItems.attempt.bind fun items => ?_
  cases items with
  | some items => exact (finish items).weaken fun _ h => by simp_all
  | none => exact spans_openItems.bind fun items => (finish items).weaken fun _ h => by simp_all

theorem spans_exceptHandler (h : Spans .exact block id) :
    Spans .exact (exceptHandler block) fun handler => [handler.2] := by
  refine .here fun _ => (takes_expect "except").skip fun _ => (takes_accept "*").skip fun _ => ?_
  refine (looks_sees ":").takes.skip fun _ => .ite ?_ ?_
  · refine (spans_headed h).bind fun body => ?_
    exact Covers.bind (.node rfl fun _ h => by simp_all) fun n => .pure fun _ h => by simp_all
  · refine (spans_outermost .expression).bind fun type => takes_asName?.skip fun _ => ?_
    refine (spans_headed h).bind fun body => ?_
    exact Covers.bind (.node rfl fun _ h => by simp_all) fun n => .pure fun _ h => by simp_all

theorem spans_tryStatement (h : Spans .exact block id) : SpansNode .exact (tryStatement block) := by
  refine .here fun start => (takes_expect "try").skip fun _ => (spans_headed h).bind fun body => ?_
  refine (Spans.manyWhen (looks_sees "except").takes (spans_exceptHandler h)).bind fun handlers => ?_
  refine .ite .failed (.bind_ite (N := id) (.pure fun _ _ => by simp) (spans_elsePart h).covers fun orelse => ?_)
  refine (spans_finallyPart h).bind fun finalBody => .ite .failed (.node rfl fun hi h => ?_)
  simp only [id_eq, Node.allFit_append, Node.allFit_flatMap] at h
  have hhandlers : AllFit .exact start hi (handlers.map (·.2.as .handler)) := List.forall_mem_map.2 fun handler hmem =>
    Node.fits_as.2 (h.2.2.1 handler hmem _ List.mem_cons_self)
  simp_all

/-- A definition, whose decorators were read before it. -/
theorem covers_functionStatement (h : Spans .exact block id) (start : Pos) (isAsync : Bool) (decorators : List Node) :
    Covers .exact start [] (functionStatement block start isAsync decorators) fun hi n =>
      ∀ lo, lo ≤ start → AllFit .exact lo hi decorators → AllFit .exact lo hi [n] := by
  refine (takes_expect "def").skip fun _ => takes_identifier.skip fun _ => (takes_expect "(").skip fun _ => ?_
  refine (spans_signature spans_outermost _ _).bind fun args => (takes_expect ")").skip fun _ => ?_
  refine (takes_accept "->").skip fun _ => ?_
  refine .bind_ite (spans_outermost .expression).present.covers (.pure fun _ _ => by simp) fun returns => ?_
  refine (spans_headed h).bind fun body => .newNode fun hi hknown lo hlo hd => ?_
  rw [Option.toList_map]
  exact Node.allFit_cons.2 ⟨.decorated rfl hlo (le_refl _) (by simp_all) hd, Node.allFit_nil⟩

theorem covers_classStatement (h : Spans .exact block id) (decorators : List Node) (before : Pos) :
    Covers .exact before [] (classStatement block decorators) fun hi n =>
      ∀ lo, lo ≤ before → AllFit .exact lo hi decorators → AllFit .exact lo hi [n] := by
  have finish : ∀ (start : Pos) (name : Identifier) (args : List Node × List Node),
      Covers .exact start (args.1 ++ args.2) (do
      let body ← headed block
      node (.classDef name) start (args.1.map (·.as .base) ++ args.2 ++ body.map (·.as .body) ++
        decorators.map (·.as .decorator))) fun hi n => ∀ lo, lo ≤ start → AllFit .exact lo hi decorators →
          AllFit .exact lo hi [n] := by
    intro start name args
    refine (spans_headed h).bind fun body => .newNode fun hi hknown lo hlo hd => ?_
    rw [← List.append_nil (_ ++ decorators.map _)]
    exact Node.allFit_cons.2 ⟨.decorated rfl hlo (le_refl _) (by simp_all) hd, Node.allFit_nil⟩
  refine .here fun start hstart => Covers.imp (R := fun hi n => ∀ lo, lo ≤ start → AllFit .exact lo hi decorators →
    AllFit .exact lo hi [n]) ?_ fun hi n hn _ lo hlo => hn lo (le_trans hlo hstart)
  refine (takes_expect "class").skip fun _ => takes_identifier.skip fun name => (takes_accept "(").skip fun _ => ?_
  refine .ite ?_ (finish start name ([], []))
  refine (spans_arguments spans_outermost).bind fun args => (takes_expect ")").skip fun _ => ?_
  exact (finish start name args).weaken fun _ h => by simp_all

theorem spans_decorator : SpansNode .exact decorator := fun _ => by
  refine (takes_expect "@").skip fun _ => (spans_namedExpression spans_outermost).bind fun value => ?_
  exact (takes_expectKind .newline).skip fun _ => .pure fun _ h => by simp_all

theorem spans_decoratedStatement (h : Spans .exact block id) :
    SpansNode .exact (decoratedStatement block) := fun lo => by
  refine (Spans.manyWhen (looks_sees "@").takes spans_decorator).bind fun decorators => ?_
  refine .here fun start hlo => (looks_sees "class").takes.skip fun _ => .ite ?_ ?_
  · exact (covers_classStatement h decorators start).imp fun hi n hn hd => hn lo hlo (by simpa using hd)
  · refine (takes_accept "async").skip fun _ => .ite ?_ ?_
    · exact (covers_functionStatement h start true decorators).imp fun hi n hn hd => hn lo hlo (by simpa using hd)
    · exact (covers_functionStatement h start false decorators).imp fun hi n hn hd => hn lo hlo (by simpa using hd)

theorem spans_plainFunction (h : Spans .exact block id) (start : Pos) (isAsync : Bool) :
    Covers .exact start [] (functionStatement block start isAsync []) fun hi n => AllFit .exact start hi [n] :=
  (covers_functionStatement h start isAsync []).imp fun _ _ hn => hn start (le_refl _) Node.allFit_nil

theorem spans_plainClass (h : Spans .exact block id) : SpansNode .exact (classStatement block []) := fun lo =>
  (covers_classStatement h [] lo).imp fun _ _ hn => hn lo (le_refl _) Node.allFit_nil

theorem spans_asyncStatement (h : Spans .exact block id) : SpansNode .exact (asyncStatement block) := by
  refine .here fun start => (takes_expect "async").skip fun _ => (looks_sees "def").takes.skip fun _ => ?_
  refine .ite (spans_plainFunction h start true) ((looks_sees "with").takes.skip fun _ => ?_)
  exact .ite (covers_withStatement h start true) (covers_forStatement h start true)

theorem spans_matchSubject : SpansNode .exact matchSubject := by
  have hitem : SpansNode .exact _ := spans_starNamedExpression spans_outermost
  refine .here fun _ => (looks_sees "*").takes.skip fun _ => hitem.bind fun first => ?_
  refine (looks_sees ",").takes.skip fun _ => .ite ?_ (.ite .fail (.pure fun _ h => by simp_all))
  exact (Spans.afterCommas hitem).bind fun ⟨rest, _⟩ => .node rfl fun _ h => by simp_all

theorem spans_matchCase (h : Spans .exact block id) : SpansNode .exact (matchCase block) := by
  refine .here fun _ => takes_next.skip fun _ => spans_patterns.bind fun p => (takes_accept "if").skip fun _ => ?_
  refine .bind_ite (spans_namedExpression spans_outermost).present.covers (.pure fun _ _ => by simp) fun guard => ?_
  exact (spans_headed h).bind fun body => .node rfl fun _ h => by simp_all [Option.toList_map]

theorem spans_matchStatement (h : Spans .exact block id) : SpansNode .exact (matchStatement block) := by
  refine .here fun _ => takes_next.skip fun _ => spans_matchSubject.bind fun subject => ?_
  refine (takes_expect ":").skip fun _ => (takes_expectKind .newline).skip fun _ => ?_
  refine (takes_expectKind .indent).skip fun _ => ?_
  refine (Spans.manyWhen (looks_seesWord "case").takes (spans_matchCase h)).bind fun cases => ?_
  exact (takes_expectKind .dedent).skip fun _ => .ite .failed (.node rfl fun _ h => by simp_all)

/-! ## Blocks and files -/

theorem Covers.singleton (hp : Covers .exact lo [] p fun hi n => AllFit .exact lo hi [n]) :
    Covers .exact lo [] (do return [← p]) fun hi ns => AllFit .exact lo hi ns :=
  hp.bind fun _ => .pure fun _ h => by simp_all

theorem spans_statement (h : Spans .exact block id) : Spans .exact (statement block) id := fun lo => by
  refine looks_peek.takes.skip fun t => .ite (spans_ifStatement h lo).singleton ?_
  refine .ite (spans_whileStatement h lo).singleton ?_
  refine .ite (Spans.here (fun start => (covers_forStatement h start false).singleton) lo) ?_
  refine .ite (Spans.here (fun start => (covers_withStatement h start false).singleton) lo) ?_
  refine .ite (spans_tryStatement h lo).singleton ?_
  refine .ite (Spans.here (fun start => (spans_plainFunction h start false).singleton) lo) ?_
  refine .ite (spans_plainClass h lo).singleton ?_
  refine .ite (spans_asyncStatement h lo).singleton ?_
  refine .ite (spans_decoratedStatement h lo).singleton ?_
  refine (looks_seesWord "match").takes.skip fun _ => .ite ?_ (spans_simpleStatements lo)
  refine (spans_matchStatement h).attempt.bind fun o => ?_
  cases o with
  | some n => exact .pure fun _ h => by simp_all
  | none => exact spans_simpleStatements.covers

theorem spans_statementsUntil (h : Spans .exact block id) (closing : TokenKind) :
    Spans .exact (statementsUntil closing block) id := fun lo => by
  refine Covers.bind (.many (N := id) <| looks_peek.takes.skip fun _ => .ite (.pure fun _ _ => by simp) ?_)
    fun groups => .pure fun _ h => by simpa using h
  exact (spans_statement h).bind fun ns => .pure fun _ h => by simp_all

theorem spans_blockRule (h : Spans .exact block id) : Spans .exact (blockRule block) id := fun lo => by
  refine looks_peek.takes.skip fun _ => .ite ?_ (spans_simpleStatements lo)
  refine takes_next.skip fun _ => (takes_expectKind .indent).skip fun _ => ?_
  refine (spans_statementsUntil h .dedent).bind fun body => (takes_expectKind .dedent).skip fun _ => ?_
  exact .ite .fail (.pure fun _ h => by simp_all)

theorem spans_block : ∀ n : Nat, Spans .exact (Grammar.block n) id
  | 0, _ => .throw
  | n + 1, lo => spans_blockRule (spans_block n) lo

theorem covers_file : Covers .exact .start [] file fun hi n => AllFit .exact .start hi [n] :=
  (spans_statementsUntil (spans_block maxDepth) .stop).bind fun _ => .node rfl fun _ h => by simp_all

end Compound

end Grammar

/-- Whatever stands in a file lies after its start, and in the constructs around it. -/
theorem Tree.parse_fits {text : String} {t : Tree} (h : Tree.parse text = .ok t) :
    ∃ hi, Node.Fits .exact .start hi t.root := by
  obtain ⟨tokens, n, c, htokens, hn, hroot⟩ := Tree.parse_eq_ok h
  obtain ⟨stop, hordered⟩ : ∃ stop, (Grammar.Cursor.ofTokens tokens .start).Ordered .exact stop := by
    unfold Token.scanFile at htokens
    simp only at htokens
    split at htokens
    · cases htokens
    · exact ⟨_, (Token.ordered_scanAt htokens).exact⟩
  obtain ⟨-, -, -, hfits⟩ := Grammar.covers_file hordered hordered.startsAfter Node.allFit_nil hn
  rw [hroot]
  exact ⟨c.last, Node.fits_number n 0 _ _ _ (hfits n List.mem_cons_self)⟩

/-- No function is introduced in a formatted text, so the places of all functions are known exactly. -/
theorem Node.Fits.of_mem_functions : ∀ (n : Node) {cat : Category} {lo hi : Pos}, n.Is cat → n.Fits .exact lo hi →
    ∀ inClass, ∀ found ∈ n.functions inClass, ∃ lo hi, Fits .exact lo hi found.node := by
  refine induction fun n ih cat lo hi hn hfits inClass found hfound => ?_
  have hformatted : n.kind.isFormatted = false := by
    rw [← Bool.not_eq_true, Kind.isFormatted_iff]
    intro hk
    rw [functions_eq_nil n hn (by rw [← hn.category, hk]; rfl)] at hfound
    cases hfound
  have hinside : ∀ c ∈ n.children, c.Fits .exact lo hi := by
    obtain ⟨-, -, -, hall, -⟩ := hfits
    rwa [Placing.inside_of_not_isFormatted hformatted] at hall
  rw [functions_eq, List.mem_append, Option.mem_toList, List.mem_flatMap] at hfound
  rcases hfound with hfound | ⟨c, hc, hfound⟩
  · rcases introduced?_cases hfound with ⟨name, isAsync, -, rfl⟩ | ⟨-, target, value, hv, -, rfl⟩
    · exact ⟨lo, hi, hfits⟩
    · exact ⟨lo, hi, hinside value (mem_children_of_part? hv)⟩
  · have hc := mem_children_of_mem_walked hc
    obtain ⟨part, -, -, hcIs⟩ := hn.arranged.exists_part c hc
    exact ih c hc hcIs (hinside c hc) _ found hfound

theorem Project.WasRead.fits {P : Project} (h : P.WasRead) {ignore : List String} {f : Function}
    (hf : f ∈ P.functions ignore) : ∃ lo hi, f.node.Fits .exact lo hi := by
  obtain ⟨i, file, hfile, -, found, hfound, rfl⟩ := mem_functions.1 hf
  obtain ⟨-, hroot, -⟩ := h.sources.2 hfile
  obtain ⟨text, htext⟩ := h.parsed hfile
  obtain ⟨hi, hfits⟩ := Tree.parse_fits htext
  exact hfits.of_mem_functions _ hroot _ found hfound

end EffectGraph
