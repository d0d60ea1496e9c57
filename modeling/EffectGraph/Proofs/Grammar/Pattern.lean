/-
What the rules of patterns read: well-formed patterns (`returns_pattern`,
`returns_patterns`). No function can start in a pattern, so no places are
followed.
-/
import EffectGraph.Proofs.Grammar.Expression
import EffectGraph.Syntax.Grammar.Pattern

namespace EffectGraph.Grammar

open Node (Plain)

/-! ## Names and literals -/

theorem passes_captureName : Passes captureName := by
  refine (looks_seesWord "_").passes.skip fun _ => .ite (fun _ => .failed) fun _ => ?_
  refine passes_nameText.skip fun _ => (looks_sees ".").passes.skip fun _ => ?_
  refine (looks_sees "(").passes.skip fun _ => (looks_sees "=").passes.skip fun _ => ?_
  exact .ite (fun _ => .fail) fun _ => .pure trivial

theorem number_is (span : Span) : (Node.new (.constant .number) span []).Is .expression :=
  Node.new_is rfl .nil

theorem returns_signedNumber : Returns signedNumber Plain := by
  refine looks_here.passes.skip fun _ => (passes_accept "-").skip fun _ => .ite (fun _ => ?_) fun _ => ?_
  · exact (passes_expectKind .number).skip fun t => node_plain rfl (.one (number_is t.span) .nil)
  · exact (passes_expectKind .number).skip fun _ => node_plain rfl .nil

theorem returns_numberLiteral : Returns numberLiteral Plain := by
  refine looks_here.passes.skip fun _ => (looks_sees "-").passes.skip fun _ => ?_
  refine .andThen_ite (fun _ => looks_peekSecond.passes) (fun _ => looks_peek.passes) fun _ _ => ?_
  refine returns_signedNumber.andThen fun _ real hreal => (passes_acceptAny _).skip fun _ => ?_
  refine .ite (fun _ => (passes_expectKind .number).skip fun t => ?_) fun _ => .pure hreal
  exact .ite (fun _ => .failed) fun _ => node_plain rfl (.one hreal.1 (.one (number_is t.span) .nil))

theorem returns_dottedName : Returns dottedName Plain := by
  refine looks_here.passes.skip fun _ => (returns_nameNode .read).andThen fun _ name hname => ?_
  refine Returns.extend (fun base hbase => ?_) hname
  refine (passes_accept ".").skip fun _ => .ite (fun _ => ?_) fun _ => .pure (by simp)
  refine passes_identifier.skip fun _ => Gives.andThen (node_plain rfl (.one hbase.1 .nil)) fun _ n hn => ?_
  exact .pure (by simpa using hn)

theorem returns_literal? : Returns literal? fun o => ∀ n ∈ o, n.Is .expression := by
  refine looks_peek.passes.skip fun _ => .ite (fun _ => ?_) fun _ => .ite (fun _ => ?_) fun _ => ?_
  · exact (Gives.plain returns_numberLiteral).is.found
  · exact (Gives.plain (returns_textLiterals gives_outermost)).is.found
  · exact .pure (by simp)

theorem returns_singleton? : Returns singleton? fun o => ∀ n ∈ o, n.Is .expression := by
  have constant : ∀ value, Returns (constant value) (·.Is .expression) := fun value =>
    (Gives.plain (returns_constant value)).is
  refine (looks_sees "None").passes.skip fun _ => .ite (fun _ => (constant _).found) fun _ => ?_
  refine (looks_sees "True").passes.skip fun _ => .ite (fun _ => (constant _).found) fun _ => ?_
  refine (looks_sees "False").passes.skip fun _ => .ite (fun _ => (constant _).found) fun _ => ?_
  exact .pure (by simp)

/-! ## Patterns in brackets -/

variable {again : Parser Node} {start : Pos}

theorem returns_starPattern : Returns starPattern (·.Is .pattern) := by
  refine looks_here.passes.skip fun _ => (passes_expect "*").skip fun _ => ?_
  refine (looks_seesWord "_").passes.skip fun _ => .ite (fun _ => ?_) fun _ => ?_
  · exact passes_next.skip fun _ => node_is rfl .nil
  · exact passes_captureName.skip fun _ => node_is rfl .nil

theorem returns_maybeStarPattern (h : Returns again (·.Is .pattern)) :
    Returns (maybeStarPattern again) (·.Is .pattern) :=
  (looks_sees "*").passes.skip fun _ => .ite (fun _ => returns_starPattern) fun _ => h

theorem returns_sequence {patterns : List Node} (hp : ∀ n ∈ patterns, n.Is .pattern) :
    Returns (sequence start patterns) (·.Is .pattern) :=
  node_is rfl (.list hp)

theorem returns_enclosedPattern (h : Returns again (·.Is .pattern)) :
    Returns (enclosedPattern again) (·.Is .pattern) := by
  have hitem := returns_maybeStarPattern h
  refine looks_here.passes.skip fun _ => (passes_accept "[").skip fun _ => .ite (fun _ => ?_) fun _ => ?_
  · refine (passes_accept "]").skip fun _ => .ite (fun _ => returns_sequence (by simp)) fun _ => ?_
    refine hitem.andThen fun _ first hfirst => (Returns.afterCommas hitem).andThen fun _ rest hrest => ?_
    exact (passes_expect "]").skip fun _ => returns_sequence (List.forall_mem_cons.2 ⟨hfirst, hrest⟩)
  · refine (passes_expect "(").skip fun _ => (passes_accept ")").skip fun _ => ?_
    refine .ite (fun _ => returns_sequence (by simp)) fun _ => (looks_sees "*").passes.skip fun _ => ?_
    refine hitem.andThen fun _ first hfirst => (looks_sees ",").passes.skip fun _ => ?_
    refine .ite (fun _ => ?_) fun _ => ?_
    · refine (Returns.afterCommas hitem).andThen fun _ rest hrest => (passes_expect ")").skip fun _ => ?_
      exact returns_sequence (List.forall_mem_cons.2 ⟨hfirst, hrest⟩)
    · exact (passes_expect ")").skip fun _ => .ite (fun _ => .fail) fun _ => .pure hfirst

/-- What has been read of a mapping pattern. -/
structure MappingEntries.WellFormed (m : MappingEntries) : Prop where
  keys : ∀ n ∈ m.keys, n.Is .expression
  patterns : ∀ n ∈ m.patterns, n.Is .pattern

theorem returns_mappingStep (h : Returns again (·.Is .pattern)) {m : MappingEntries}
    (hm : m.WellFormed) : Returns (mappingStep again m) fun o => ∀ m' ∈ o, m'.WellFormed := by
  refine (looks_sees "\x7d").passes.skip fun _ => .ite (fun _ => .pure (by simp)) fun _ => ?_
  have finish : ∀ m : MappingEntries, m.WellFormed → Returns (do
      unless (← sees "\x7d") || (← accept ",") do fail
      return some m) fun o => ∀ m' ∈ o, m'.WellFormed := fun m hm =>
    (looks_sees "\x7d").passes.skip fun _ => (passes_accept ",").skip fun _ =>
      .ite (fun _ => .pure (by simpa using hm)) fun _ => .failed
  have entry : ∀ key : Node, key.Is .expression → Returns (do
      expect ":"
      let pattern ← again
      let m ← pure { m with keys := m.keys ++ [key], patterns := m.patterns ++ [pattern] }
      unless (← sees "\x7d") || (← accept ",") do fail
      return some m) fun o => ∀ m' ∈ o, m'.WellFormed := fun key hkey =>
    (passes_expect ":").skip fun _ => h.andThen fun _ pattern hpattern =>
      finish _ ⟨List.forall_mem_append.2 ⟨hm.keys, by simpa using hkey⟩,
        List.forall_mem_append.2 ⟨hm.patterns, by simpa using hpattern⟩⟩
  refine .ite (fun _ => .failed) fun _ => (passes_accept "**").skip fun _ => .ite (fun _ => ?_) fun _ => ?_
  · exact passes_captureName.skip fun name => finish { m with rest := some name } ⟨hm.keys, hm.patterns⟩
  refine returns_literal?.andThen fun _ literal hliteral => ?_
  cases literal with
  | some key => exact entry key (hliteral key rfl)
  | none =>
    refine returns_singleton?.andThen fun _ singleton hsingleton => ?_
    cases singleton with
    | some key => exact entry key (hsingleton key rfl)
    | none =>
      refine returns_dottedName.andThen fun _ key hkey => ?_
      dsimp only
      split
      · exact entry key hkey.1
      · exact .failed

theorem returns_mappingPattern (h : Returns again (·.Is .pattern)) :
    Returns (mappingPattern again) (·.Is .pattern) := by
  refine looks_here.passes.skip fun _ => (passes_expect "\x7b").skip fun _ => ?_
  refine (Returns.extend (fun m hm => returns_mappingStep h hm)
    (⟨by simp, by simp⟩ : MappingEntries.WellFormed ⟨[], [], none⟩)).andThen fun _ m hm => ?_
  exact (passes_expect "\x7d").skip fun _ => node_is rfl ((Arranged.list hm.keys).append (.list hm.patterns))

theorem returns_classStep (h : Returns again (·.Is .pattern)) {ps : List Node × List Node}
    (hps : ∀ n ∈ ps.1 ++ ps.2, n.Is .pattern) :
    Returns (classStep again ps) fun o => ∀ ps' ∈ o, ∀ n ∈ ps'.1 ++ ps'.2, n.Is .pattern := by
  have finish : ∀ ps : List Node × List Node, (∀ n ∈ ps.1 ++ ps.2, n.Is .pattern) → Returns (do
      unless (← sees ")") || (← accept ",") do fail
      return some ps) fun o => ∀ ps' ∈ o, ∀ n ∈ ps'.1 ++ ps'.2, n.Is .pattern := fun ps hps =>
    (looks_sees ")").passes.skip fun _ => (passes_accept ",").skip fun _ =>
      .ite (fun _ => .pure (by simpa using hps)) fun _ => .failed
  refine (looks_sees ")").passes.skip fun _ => .ite (fun _ => .pure (by simp)) fun _ => ?_
  refine looks_peek.passes.skip fun _ => looks_peekSecond.passes.skip fun _ => .ite (fun _ => ?_) fun _ => ?_
  · refine passes_identifier.skip fun _ => (passes_expect "=").skip fun _ => h.andThen fun _ n hn => ?_
    exact finish (ps.1, ps.2 ++ [n]) (by grind)
  · refine .ite (fun _ => h.andThen fun _ n hn => ?_) fun _ => .failed
    exact finish (ps.1 ++ [n], ps.2) (by grind)

theorem returns_namePattern (h : Returns again (·.Is .pattern)) :
    Returns (namePattern again) (·.Is .pattern) := by
  refine looks_here.passes.skip fun _ => (looks_seesWord "_").passes.skip fun _ => .ite (fun _ => ?_) fun _ => ?_
  · exact passes_next.skip fun _ => node_is rfl (.absent .nil)
  refine returns_dottedName.andThen fun _ value hv => (passes_accept "(").skip fun _ => ?_
  refine .ite (fun _ => ?_) fun _ => ?_
  · refine (Returns.extend (fun ps hps => returns_classStep h hps) (a := ([], [])) (by simp)).andThen
      fun _ ps hps => (passes_expect ")").skip fun _ => ?_
    obtain ⟨hpositional, hkeywords⟩ := List.forall_mem_append.1 hps
    exact node_is rfl ((Arranged.one hv.1 (.list hpositional)).append (.list hkeywords))
  refine (looks_sees "=").passes.skip fun _ => .ite (fun _ => .fail) fun _ => ?_
  split
  · exact node_is rfl (.absent .nil)
  · exact node_is rfl (.one hv.1 .nil)

/-! ## Patterns -/

theorem returns_closedPattern (h : Returns again (·.Is .pattern)) :
    Returns (closedPattern again) (·.Is .pattern) := by
  refine looks_here.passes.skip fun _ => looks_peek.passes.skip fun _ => ?_
  refine returns_literal?.andThen fun _ literal hliteral => ?_
  cases literal with
  | some value => exact node_is rfl (.one (hliteral value rfl) .nil)
  | none =>
    refine returns_singleton?.andThen fun _ singleton _ => ?_
    cases singleton with
    | some value => exact node_is rfl .nil
    | none =>
      exact .ite (fun _ => returns_namePattern h) fun _ =>
        .ite (fun _ => returns_mappingPattern h) fun _ => returns_enclosedPattern h

theorem returns_patternRule (h : Returns again (·.Is .pattern)) :
    Returns (patternRule again) (·.Is .pattern) := by
  refine looks_here.passes.skip fun _ => (returns_closedPattern h).andThen fun _ first hfirst => ?_
  refine (Returns.manyWhen (passes_accept "|") (returns_closedPattern h)).andThen fun _ rest hrest => ?_
  refine .andThen_ite (fun _ => .pure hfirst) (fun _ => node_is rfl (arranged_list hfirst hrest)) fun value hv => ?_
  refine (passes_accept "as").skip fun _ => .ite (fun _ => ?_) fun _ => .pure hv
  exact passes_captureName.skip fun _ => node_is rfl (.present hv .nil)

theorem returns_pattern : ∀ n : Nat, Returns (pattern n) (·.Is .pattern)
  | 0 => .throw
  | n + 1 => returns_patternRule (returns_pattern n)

theorem returns_patterns : Returns patterns (·.Is .pattern) := by
  have hitem := returns_maybeStarPattern (returns_pattern maxDepth)
  refine looks_here.passes.skip fun _ => (looks_sees "*").passes.skip fun _ => ?_
  refine hitem.andThen fun _ first hfirst => (looks_sees ",").passes.skip fun _ => .ite (fun _ => ?_) fun _ => ?_
  · refine (Returns.afterCommas hitem).andThen fun _ rest hrest => ?_
    exact returns_sequence (List.forall_mem_cons.2 ⟨hfirst, hrest⟩)
  · exact .ite (fun _ => .fail) fun _ => .pure hfirst

end EffectGraph.Grammar
