/-
Where the fields of a formatted literal stand.

A literal is cut piece by piece from the front, so the place that is counted on
is the place where what is left of it starts. The expression of a field stands
between a brace and a mark, which are as wide as the parentheses that it is read
with. So what is read for a field lies in the literal (`ofBody_lies`), and the
body of a literal lies in its token (`ofToken_within`).
-/
import EffectGraph.Proofs.Syntax.Token
import EffectGraph.Syntax.Literal

namespace EffectGraph

namespace Field

/-! ## Pieces of a field -/

mutual

theorem literalText_suffix {isRaw : Bool} {level : Nat} {text rest : List Char} (done cs : List Char)
    (h : literalText isRaw level done cs = .ok (text, rest)) : rest <:+ cs := by
  unfold literalText at h
  split at h
  · cases h
    exact List.suffix_rfl
  · next c cs =>
    split at h
    · exact (literalText_suffix _ _ h).trans (List.suffix_cons _ _)
    · split at h
      · split at h
        · next cs' => exact (name_suffix _ _ h).trans ⟨['\\', c, '\x7b'], rfl⟩
        · cases h
      · exact (literalText_suffix _ _ h).trans ⟨['\\', c], rfl⟩
  · next c cs _ =>
    split at h
    · split at h
      · split at h
        · next d cs' _ =>
          split at h
          · exact (literalText_suffix _ _ h).trans ⟨[c, d], rfl⟩
          · split at h
            · cases h
            · cases h
              exact List.suffix_rfl
        · split at h
          · cases h
          · cases h
            exact List.suffix_rfl
      · cases h
        exact List.suffix_rfl
    · exact (literalText_suffix _ _ h).trans (List.suffix_cons _ _)
termination_by cs.length

theorem name_suffix {isRaw : Bool} {level : Nat} {text rest : List Char} (done cs : List Char)
    (h : literalText.name isRaw level done cs = .ok (text, rest)) : rest <:+ cs := by
  unfold literalText.name at h
  split at h
  · cases h
  · split at h
    · exact (literalText_suffix _ _ h).trans (List.suffix_cons _ _)
    · exact (name_suffix _ _ h).trans (List.suffix_cons _ _)
termination_by cs.length

end

theorem afterExpression_suffix {cs rest : List Char} (h : afterExpression cs = .ok rest) : rest <:+ cs := by
  have blanks : ∀ r : List Char, r.dropWhile isSpace <:+ '=' :: r := fun r =>
    (List.dropWhile_suffix _).trans (List.suffix_cons _ _)
  unfold afterExpression at h
  dsimp only at h
  split at h
  · next c rest' heq =>
    split at h
    · cases h
      have hrest : rest <:+ '!' :: c :: rest := ⟨['!', c], rfl⟩
      split at heq
      · exact (heq ▸ hrest).trans (blanks _)
      · exact heq ▸ hrest
    · cases h
  · cases h
  · cases h
    split
    · exact blanks _
    · exact List.suffix_rfl

theorem placeAfter_append (pos : Pos) (piece rest : List Char) :
    placeAfter pos (piece ++ rest) rest = pos.advance piece := by
  simp [placeAfter]

/-- A mark that ends the expression of a field stands next. -/
def AtMark (rest : List Char) : Prop :=
  ∃ c after, rest = c :: after ∧ c ∈ ['!', ':', '\x7d', '=']

/-- A text is cut in two at the end of an expression. -/
def Cuts (cs : List Char) (result : Except Fault (List Char × List Char)) : Prop :=
  ∀ text rest, result = .ok (text, rest) → text ++ rest = cs ∧ AtMark rest

theorem Cuts.after (start : List Char) {cs : List Char} {result : Except Fault (List Char × List Char)}
    (h : Cuts cs result) : Cuts (start ++ cs) (result.map fun x => (start ++ x.1, x.2)) := by
  rintro text rest hmap
  cases result with
  | error e => cases hmap
  | ok x =>
    obtain ⟨text', rest'⟩ := x
    cases hmap
    obtain ⟨happend, hmark⟩ := h text' _ rfl
    exact ⟨by rw [List.append_assoc, happend], hmark⟩

theorem eq_of_isTripled {q a b : Char} {cs : List Char} (h : isTripled q (a :: b :: cs) = true) :
    a = q ∧ b = q := by
  simp [isTripled, List.isPrefixOf] at h
  exact ⟨h.1.symm, h.2.symm⟩

theorem cuts_expressionText (st : Nesting) (cs : List Char) : Cuts cs (expressionText st cs) := by
  fun_induction expressionText st cs
  case case17 c cs _ _ _ _ _ hmark hnot hnot' =>
    rintro text rest ⟨⟩
    refine ⟨rfl, c, cs, rfl, ?_⟩
    simp only [Bool.and_eq_true, Bool.or_eq_true, beq_iff_eq] at hmark hnot'
    simp only [List.mem_cons]
    tauto
  case case14 c _ _ _ _ _ _ d rest hpair ih =>
    obtain rfl : d = '=' := by simp_all
    exact ih.after [c, '=']
  case case5 c _ _ q _ _ hc _ a b rest htripled ih =>
    obtain rfl : c = q := by simpa using hc
    obtain ⟨rfl, rfl⟩ := eq_of_isTripled htripled
    exact ih.after [_, _, _]
  case case8 c _ _ _ a b rest htripled ih =>
    obtain ⟨rfl, rfl⟩ := eq_of_isTripled htripled
    exact ih.after [_, _, _]
  case case3 ih | case4 ih | case7 ih | case10 ih | case12 ih | case16 ih | case18 ih | case21 ih =>
    exact ih.after [_]
  all_goals rintro text rest ⟨⟩

theorem afterLiteral_suffix {isRaw : Bool} {level : Nat} {cs rest : List Char}
    (h : afterLiteral isRaw level cs = .ok rest) : rest <:+ cs := by
  obtain ⟨⟨literal, rest'⟩, hliteral, h⟩ := bind_eq_ok.1 h
  have hsuffix := literalText_suffix _ _ hliteral
  dsimp only at h
  split at h
  · cases h
    exact hsuffix
  · obtain ⟨-, -, h⟩ := bind_eq_ok.1 h
    cases h
    exact hsuffix

/-- After an expression comes a mark, and what is left starts with the mark or comes after it. -/
theorem expressionOf_cuts {level : Nat} {body expression after : List Char}
    (h : expressionOf level body = .ok (expression, after)) :
    ∃ c rest, c ∈ ['!', ':', '\x7d', '='] ∧ body = expression ++ c :: rest ∧ after <:+ c :: rest := by
  unfold expressionOf at h
  split at h
  · cases h
  obtain ⟨⟨expression', after'⟩, hexpression, h⟩ := bind_eq_ok.1 h
  dsimp only at h
  split at h
  · cases h
  obtain ⟨after'', hafter, h⟩ := bind_eq_ok.1 h
  cases h
  obtain ⟨hbody, c, rest, rfl, hc⟩ := cuts_expressionText _ _ _ _ hexpression
  exact ⟨c, rest, hc, hbody.symm, afterExpression_suffix hafter⟩

/-! ## Fields -/

/-- A field with its braces, and the fields of its specification, lie between two places. -/
inductive Lies : Pos → Pos → Field → Prop
  | mk {lo hi start : Pos} {text : List Char} {spec : Option (List Field)} : lo ≤ start →
    start.advance ('(' :: text ++ [')']) ≤ hi → (∀ fields ∈ spec, ∀ f ∈ fields, Lies lo hi f) →
    Lies lo hi (.mk text start spec)

theorem Lies.mono {lo lo' hi hi' : Pos} {f : Field} (h : f.Lies lo hi) (hlo : lo' ≤ lo) (hhi : hi ≤ hi') :
    f.Lies lo' hi' := by
  induction h with
  | mk hstart hstop _ ih =>
    exact .mk (hlo.trans hstart) (hstop.trans hhi) ih

/-- Fields are read over a piece of text, in which they lie. -/
def Covered (pos : Pos) (cs : List Char) (fields : List Field) (pos' : Pos) (rest : List Char) : Prop :=
  ∃ piece, cs = piece ++ rest ∧ pos' = pos.advance piece ∧ ∀ f ∈ fields, f.Lies pos pos'

theorem specificationOf_covered {read : Pos → List Char → Except Fault (List Field × Pos × List Char)}
    (hread : ∀ {pos cs fields pos' rest}, read pos cs = .ok (fields, pos', rest) → Covered pos cs fields pos' rest)
    {pos pos' : Pos} {cs rest : List Char} {spec : Option (List Field)}
    (h : specificationOf read pos cs = .ok (spec, pos', rest)) : Covered pos cs (spec.getD []) pos' rest := by
  unfold specificationOf at h
  split at h
  · obtain ⟨⟨fields, pos'', after⟩, hfields, h⟩ := bind_eq_ok.1 h
    cases h
    obtain ⟨piece, hinner, hpos, hlies⟩ := hread hfields
    refine ⟨':' :: piece, by rw [hinner]; rfl, hpos, fun f hf => ?_⟩
    exact (hlies f hf).mono (pos.le_next ':') (le_refl _)
  · cases h
    exact ⟨[], rfl, rfl, by simp⟩

/-- The marks that end an expression are as wide as a parenthesis. -/
theorem next_mark {c : Char} (hc : c ∈ ['!', ':', '\x7d', '=']) (p : Pos) : p.next c = p.next ')' := by
  simp only [List.mem_cons, List.not_mem_nil, or_false] at hc
  rcases hc with rfl | rfl | rfl | rfl <;> rfl

/-- Read with parentheses, a field comes no further than to the mark after its expression. -/
theorem enclosed_le {c : Char} (hc : c ∈ ['!', ':', '\x7d', '=']) {piece : List Char}
    (hpiece : piece.head? = some c) (start : Pos) (expression : List Char) :
    start.advance ('(' :: expression ++ [')']) ≤ start.advance ('\x7b' :: expression ++ piece) := by
  obtain ⟨after, rfl⟩ : ∃ after, piece = c :: after := by
    cases piece <;> simp_all
  have hbrace : start.advance ('(' :: expression) = start.advance ('\x7b' :: expression) := rfl
  rw [Pos.advance_append, Pos.advance_append, hbrace]
  change Pos.next _ ')' ≤ Pos.advance (Pos.next _ c) after
  rw [next_mark hc]
  exact Pos.le_advance _ _

/-- A scan finds no field, or it goes over one, with what reads the fields in its specification, and
goes on after it. -/
theorem scan_cases {isRaw : Bool} {fuel level : Nat} {pos pos' : Pos} {cs rest : List Char}
    {fields : List Field} (h : scan isRaw (fuel + 1) level pos cs = .ok (fields, pos', rest)) :
    ∃ before mid, cs = before ++ mid ∧ ((fields = [] ∧ pos' = pos.advance before ∧ rest = mid) ∨
      ∃ c expression between after spec stop after' fields', c ∈ ['!', ':', '\x7d', '='] ∧
        mid = ('\x7b' :: expression ++ between) ++ after ∧ (between ++ after).head? = some c ∧
        specificationOf (scan isRaw fuel (level + 1))
          ((pos.advance before).advance ('\x7b' :: expression ++ between)) after =
            .ok (spec, stop, '\x7d' :: after') ∧
        scan isRaw fuel level (stop.next '\x7d') after' = .ok (fields', pos', rest) ∧
        fields = .mk expression (pos.advance before) spec :: fields') := by
  obtain ⟨mid, hmid, h⟩ := bind_eq_ok.1 h
  obtain ⟨before, rfl⟩ := afterLiteral_suffix hmid
  refine ⟨before, mid, rfl, ?_⟩
  simp only [placeAfter_append] at h
  split at h
  · next body =>
    obtain ⟨⟨expression, after⟩, hexpression, h⟩ := bind_eq_ok.1 h
    obtain ⟨⟨spec, stop, after₁⟩, hspec, h⟩ := bind_eq_ok.1 h
    dsimp only at hspec h
    split at h
    · next after' =>
      obtain ⟨⟨fields', last, rest'⟩, hfields, h⟩ := bind_eq_ok.1 h
      simp only [Except.ok.injEq, Prod.mk.injEq] at h
      obtain ⟨rfl, rfl, rfl⟩ := h
      obtain ⟨c, tail, hc, rfl, between, htail⟩ := expressionOf_cuts hexpression
      have hbody : '\x7b' :: (expression ++ c :: tail) = ('\x7b' :: expression ++ between) ++ after := by
        simp [← htail]
      rw [hbody, placeAfter_append] at hspec
      exact .inr ⟨c, expression, between, after, spec, stop, after', fields', hc, hbody, by rw [htail]; rfl,
        hspec, hfields, rfl⟩
    · cases h
  · simp only [Except.ok.injEq, Prod.mk.injEq] at h
    obtain ⟨rfl, rfl, rfl⟩ := h
    exact .inl ⟨rfl, rfl, rfl⟩

theorem scan_covered {isRaw : Bool} : ∀ (fuel level : Nat) {pos : Pos} {cs : List Char} {fields : List Field}
    {pos' : Pos} {rest : List Char}, scan isRaw fuel level pos cs = .ok (fields, pos', rest) →
      Covered pos cs fields pos' rest := by
  intro fuel
  induction fuel with
  | zero => exact nofun
  | succ fuel ih =>
    intro level pos cs fields pos' rest h
    obtain ⟨before, mid, rfl, ⟨rfl, rfl, rfl⟩ | ⟨c, expression, between, after, spec, stop, after', fields',
      hc, rfl, hhead, hspec, hfields, rfl⟩⟩ := scan_cases h
    · exact ⟨before, rfl, rfl, by simp⟩
    obtain ⟨inner, rfl, hstop, hinner⟩ := specificationOf_covered (ih (level + 1)) hspec
    obtain ⟨outer, rfl, hlast, houter⟩ := ih level hfields
    have hmark : (between ++ (inner ++ '\x7d' :: outer)).head? = some c := by
      cases between <;> cases inner <;> simp at hhead ⊢ <;> exact hhead
    have hend : pos' = (pos.advance before).advance
        ('\x7b' :: expression ++ (between ++ (inner ++ '\x7d' :: outer))) := by
      simp only [hlast, hstop, Pos.advance, List.foldl_append, List.foldl_cons, List.cons_append]
    have hstart : pos ≤ pos.advance before := pos.le_advance before
    have hinside := hstart.trans (Pos.le_advance (pos.advance before) ('\x7b' :: expression ++ between))
    have hclosed : stop ≤ stop.next '\x7d' := stop.le_next _
    have hrest : stop.next '\x7d' ≤ pos' := hlast ▸ Pos.le_advance _ _
    refine ⟨before ++ ('\x7b' :: expression ++ (between ++ (inner ++ '\x7d' :: outer))), by simp, ?_, ?_⟩
    · rw [hend, ← Pos.advance_append]
    · refine List.forall_mem_cons.2 ⟨.mk hstart ?_ fun fields hspec f hf => ?_, fun f hf => ?_⟩
      · rw [hend]
        exact enclosed_le hc hmark _ _
      · have hf : f ∈ spec.getD [] := by rw [hspec]; exact hf
        exact (hinner f hf).mono hinside (hclosed.trans hrest)
      · refine (houter f hf).mono (hinside.trans ?_) (le_refl _)
        exact (hstop ▸ Pos.le_advance _ _).trans hclosed

theorem ofBody_lies {q : QuotedText} {fields : List Field} (h : ofBody q = .ok fields) :
    ∀ f ∈ fields, f.Lies q.start (q.start.advance q.body) := by
  obtain ⟨⟨fields', pos, rest⟩, hscan, h⟩ := bind_eq_ok.1 h
  obtain ⟨piece, hbody, rfl, hlies⟩ := scan_covered _ _ hscan
  dsimp only at h
  split at h
  · cases h
    intro f hf
    refine (hlies f hf).mono (le_refl _) ?_
    rw [hbody, Pos.advance_append]
    exact Pos.le_advance _ _
  · cases h

end Field

/-- The body of a literal lies in its token. -/
theorem QuotedText.ofToken_within (t : Token) : t.span.start ≤ (ofToken t).start ∧
    (ofToken t).start.advance (ofToken t).body ≤ t.span.start.advance t.text.toList := by
  refine ⟨Pos.le_advance _ _, ?_⟩
  generalize hmark : t.text.toList.takeWhile Char.isAlpha = mark
  have htext : mark ++ t.text.toList.drop mark.length = t.text.toList :=
    List.prefix_iff_eq_append.1 (hmark ▸ List.takeWhile_prefix _)
  have hbody : ∀ (rest : List Char) (width n : Nat),
      rest.take width ++ ((rest.drop width).take n ++ (rest.drop width).drop n) = rest := by
    intro rest width n
    rw [List.take_append_drop, List.take_append_drop]
  rw [← htext, ← hbody (t.text.toList.drop mark.length), ← List.append_assoc, ← List.append_assoc,
    Pos.advance_append, Pos.advance_append]
  subst hmark
  exact Pos.le_advance _ _

end EffectGraph
