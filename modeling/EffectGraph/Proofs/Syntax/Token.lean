/-
Where tokens stand.

The scanner cuts the text into pieces and loses nothing: what it takes and what
is left make up what was there (`number_append`, `quoted_append`,
`token_reads`). So the tokens follow one another and end with the text
(`ordered_scanAt`), and the written ones start at characters of the text, each
further on than the last (`marks_scanAt`). The line ends of a file are unified
before it is scanned; where no carriage return stands alone, that moves no
character to another place (`along_unifyLineEnds`).
-/
import EffectGraph.Proofs.Grammar.Parser
import Mathlib.Order.Basic

namespace EffectGraph

namespace Pos

instance : Preorder Pos where
  le a b := a.le b = true
  le_refl a := by simp [le]
  le_trans a b c hab hbc := by
    simp only [le, Bool.or_eq_true, Bool.and_eq_true, decide_eq_true_eq, beq_iff_eq] at *
    omega

theorem le_next (p : Pos) (c : Char) : p ≤ p.next c := by
  change p.le (p.next c) = true
  unfold next
  split <;> simp [le]

theorem le_advance (p : Pos) (cs : List Char) : p ≤ p.advance cs := by
  induction cs generalizing p with
  | nil => exact le_refl p
  | cons c cs ih => exact (p.le_next c).trans (ih (p.next c))

/-- Characters other than line feeds stay on their line. -/
theorem line_advance (p : Pos) {cs : List Char} (h : '\n' ∉ cs) : (p.advance cs).line = p.line := by
  induction cs generalizing p with
  | nil => rfl
  | cons c cs ih =>
    obtain ⟨hc, hcs⟩ := not_or.1 (List.mem_cons.not.1 h)
    exact (ih (p.next c) hcs).trans (by simp [next, Ne.symm hc])

theorem advance_append (p : Pos) (cs ds : List Char) : p.advance (cs ++ ds) = (p.advance cs).advance ds :=
  List.foldl_append

/-- Where the characters of a text stand that starts at a place. -/
def along (p : Pos) : List Char → List Pos
  | [] => []
  | c :: cs => p :: (p.next c).along cs

theorem along_append (p : Pos) (cs ds : List Char) :
    p.along (cs ++ ds) = p.along cs ++ (p.advance cs).along ds := by
  induction cs generalizing p with
  | nil => rfl
  | cons c cs ih => exact congrArg (p :: ·) (ih (p.next c))

end Pos

namespace Token

/-! ## Numbers -/

variable {cs rest lexeme ds : List Char} {isDigit : Char → Bool}

theorem digits_append : digits isDigit cs = some (ds, rest) → ds ++ rest = cs := by
  fun_induction digits isDigit cs generalizing ds rest with
  | case1 => simp_all
  | case2 c cs hc ih =>
    intro h
    obtain ⟨⟨ds', rest'⟩, hds, he⟩ := Option.map_eq_some_iff.1 h
    cases he
    simp [ih hds]
  | case3 => simp
  | case4 => simp
  | case5 c cs _ _ hc ih =>
    intro h
    obtain ⟨⟨ds', rest'⟩, hds, he⟩ := Option.map_eq_some_iff.1 h
    cases he
    simp [ih hds]
  | case6 => simp_all

theorem endNumber_append {lexeme' rest' : List Char} (h : endNumber lexeme rest = some (lexeme', rest')) :
    lexeme' ++ rest' = lexeme ++ rest := by
  unfold endNumber at h
  split at h
  · cases h
    rfl
  · cases h

theorem radixNumber_append {mark : List Char} (h : radixNumber mark isDigit cs = some (lexeme, rest)) :
    lexeme ++ rest = mark ++ cs := by
  obtain ⟨⟨ds, after⟩, hds, h⟩ := Option.bind_eq_some_iff.1 h
  simp only at h
  split at h
  · cases h
  · split at h
    · cases h
    · rw [endNumber_append h, ← digits_append hds, List.append_assoc]

theorem imaginaryPart_append {start : List Char} (h : imaginaryPart start cs = some (lexeme, rest)) :
    lexeme ++ rest = start ++ cs := by
  unfold imaginaryPart at h
  split at h
  · simp [endNumber_append h]
  · simp [endNumber_append h]
  · exact endNumber_append h

theorem exponentPart_append {start : List Char} (h : exponentPart start cs = some (lexeme, rest)) :
    lexeme ++ rest = start ++ cs := by
  unfold exponentPart at h
  split at h
  · next e cs =>
    split at h
    · split at h
      next sign after hsign =>
        have hcs : sign ++ after = cs := by
          split at hsign <;> cases hsign <;> rfl
        split at h
        · obtain ⟨⟨ds, rest'⟩, hds, h⟩ := Option.bind_eq_some_iff.1 h
          simp [imaginaryPart_append h, digits_append hds, hcs]
        · split at h
          · exact endNumber_append h
          · cases h
    · exact imaginaryPart_append h
  · exact imaginaryPart_append h

theorem fractionPart_append {start : List Char} (h : fractionPart start cs = some (lexeme, rest)) :
    lexeme ++ rest = start ++ cs := by
  unfold fractionPart at h
  split at h
  · split at h
    · obtain ⟨⟨ds, after⟩, hds, h⟩ := Option.bind_eq_some_iff.1 h
      simp [exponentPart_append h, ← digits_append hds]
    · simp [exponentPart_append h]
  · exact exponentPart_append h

theorem number_append (h : number cs = some (lexeme, rest)) : lexeme ++ rest = cs := by
  unfold number at h
  split at h
  · simp [radixNumber_append h]
  · simp [radixNumber_append h]
  · simp [radixNumber_append h]
  · simp [radixNumber_append h]
  · simp [radixNumber_append h]
  · simp [radixNumber_append h]
  · obtain ⟨⟨ds, after⟩, hds, h⟩ := Option.bind_eq_some_iff.1 h
    obtain ⟨⟨lexeme', rest'⟩, hfraction, h⟩ := Option.bind_eq_some_iff.1 h
    simp only at h
    split at h
    · cases h
    · cases h
      rw [fractionPart_append hfraction, digits_append hds]

/-! ## Text literals and operators -/

/-- Characters that are put before a piece and the piece come before the same rest. -/
theorem append_of_map (start : List Char) {piece : Option (List Char × List Char)} {t : List Char}
    (h : piece.map (fun x => (start ++ x.1, x.2)) = some (t, rest))
    (hpiece : ∀ t', piece = some (t', rest) → t' ++ rest = cs) : t ++ rest = start ++ cs := by
  obtain ⟨⟨t', rest'⟩, hx, he⟩ := Option.map_eq_some_iff.1 h
  cases he
  rw [List.append_assoc, hpiece t' hx]

theorem textRest_append {quote : Char} {long : Bool} {cs rest t : List Char} :
    textRest quote long cs = some (t, rest) → t ++ rest = cs := by
  fun_induction textRest quote long cs generalizing t rest with
  | case1 => simp
  | case2 c cs ih => exact fun h => append_of_map ['\\', c] h fun _ => ih
  | case3 c cs _ _ =>
    rintro ⟨⟩
    rfl
  | case4 c _ _ d e rest _ =>
    rintro ⟨⟩
    rfl
  | case5 c _ _ _ d e cs _ ih => exact fun h => append_of_map [c] h fun _ => ih
  | case6 => simp
  | case7 => simp
  | case8 c cs _ _ _ ih => exact fun h => append_of_map [c] h fun _ => ih

theorem quoted_append (h : quoted cs = some (lexeme, rest)) : lexeme ++ rest = cs := by
  unfold quoted at h
  split at h
  · split at h
    · next q cs a b more =>
      split at h
      · exact append_of_map [q, a, b] h fun _ => textRest_append
      · exact append_of_map [q] h fun _ => textRest_append
    · exact append_of_map [_] h fun _ => textRest_append
  · cases h

theorem markedText?_append {mark literal : List Char} (h : markedText? cs = some (mark, literal)) :
    mark ++ literal = cs := by
  simp only [markedText?] at h
  split at h
  · next q rest hdrop =>
    split at h
    · cases h
      rw [← hdrop]
      exact List.prefix_iff_eq_append.1 (List.takeWhile_prefix _)
    · cases h
  · cases h

theorem operator?_append {op : String} (h : operator? cs = some op) :
    op.toList ++ cs.drop op.length = cs := by
  have hprefix : op.toList.isPrefixOf cs = true := by simpa using List.find?_some h
  obtain ⟨rest, rfl⟩ := List.isPrefixOf_iff_prefix.1 hprefix
  rw [← String.length_toList, List.drop_left]

/-! ## Order -/

/-- A text literal reaches over all of its characters, and a name stays on its line. -/
def Shaped (t : Token) : Prop :=
  (t.kind = .text → t.span.stop = t.span.start.advance t.text.toList) ∧
    (t.kind = .name → t.span.stop.line = t.span.start.line)

theorem shaped_of_isLayout {t : Token} (h : t.isLayout = true) : t.Shaped := by
  constructor <;> intro hk <;> simp [isLayout, hk] at h

/-- Tokens that follow one another from a place to another. -/
inductive Ordered : Pos → Pos → List Token → Prop
  | nil {p q : Pos} : p ≤ q → Ordered p q []
  | cons {p q : Pos} {t : Token} {ts : List Token} : p ≤ t.span.start → t.span.start ≤ t.span.stop →
    t.Shaped → Ordered t.span.stop q ts → Ordered p q (t :: ts)

namespace Ordered

variable {p p' q q' : Pos} {ts us : List Token}

theorem mono (h : Ordered p q ts) (hp : p' ≤ p) (hq : q ≤ q') : Ordered p' q' ts := by
  induction h generalizing p' with
  | nil hpq => exact .nil (hp.trans (hpq.trans hq))
  | cons hstart ht hshape _ ih => exact .cons (hp.trans hstart) ht hshape (ih (le_refl _) hq)

theorem append (h : Ordered p q ts) (h' : Ordered q q' us) : Ordered p q' (ts ++ us) := by
  induction h with
  | nil hpq => exact h'.mono hpq (le_refl _)
  | cons hstart ht hshape _ ih => exact .cons hstart ht hshape (ih h')

/-- A token of no width where it is met. -/
theorem single {t : Token} (ht : t.span = ⟨p, p⟩) (hk : t.isLayout = true) : Ordered p p [t] := by
  refine .cons ?_ ?_ (shaped_of_isLayout hk) (.nil ?_) <;> rw [ht]

theorem replicate {t : Token} (ht : t.span = ⟨p, p⟩) (hk : t.isLayout = true) :
    ∀ n : Nat, Ordered p p (List.replicate n t)
  | 0 => .nil (le_refl p)
  | n + 1 => (single ht hk).append (replicate ht hk n)

end Ordered

/-! ## Layout -/

/-- The scanner has gone over a piece of the text. -/
def Scanner.Reads (s : Scanner) (piece : List Char) (s' : Scanner) : Prop :=
  s.rest = piece ++ s'.rest ∧ s'.pos = s.pos.advance piece

namespace Scanner

variable {s s' : Scanner}

theorem measure_append {pos pos' : Pos} {cs rest : List Char} {c a j c' a' : Nat} :
    measure c a j pos cs = .ok (c', a', pos', rest) →
      ∃ piece, cs = piece ++ rest ∧ pos' = pos.advance piece := by
  have further : ∀ {pos : Pos} {cs : List Char} (start : List Char),
      (∃ piece, cs = piece ++ rest ∧ pos' = (pos.advance start).advance piece) →
        ∃ piece, start ++ cs = piece ++ rest ∧ pos' = pos.advance piece := by
    rintro pos cs start ⟨piece, rfl, hpos⟩
    exact ⟨start ++ piece, by simp, by rw [hpos, Pos.advance_append]⟩
  have here : ∀ {pos : Pos} {cs : List Char} {d b : Nat},
      (.ok (d, b, pos, cs) : Except Fault _) = .ok (c', a', pos', rest) →
        ∃ piece, cs = piece ++ rest ∧ pos' = pos.advance piece := by
    rintro pos cs d b ⟨⟩
    exact ⟨[], rfl, rfl⟩
  fun_induction measure c a j pos cs with
  | case1 _ _ _ _ _ ih => exact fun h => further [' '] (ih h)
  | case2 _ _ _ _ _ ih => exact fun h => further ['\t'] (ih h)
  | case3 _ _ _ _ _ ih => exact fun h => further ['\x0c'] (ih h)
  | case4 => simp
  | case5 _ _ _ _ _ _ ih => exact fun h => further ['\\', '\n'] (ih h)
  | case6 => simp
  | case7 => exact here
  | case8 => exact here

theorem layout_reads {column alternative : Nat} {tokens : List Token}
    (h : s.layout column alternative = .ok (tokens, s')) :
    Grammar.marks tokens = [] ∧ Ordered s.pos s.pos tokens ∧ s'.rest = s.rest ∧ s'.pos = s.pos := by
  unfold layout at h
  split at h
  · cases h
  · split at h
    · split at h
      · cases h
      · cases h
        exact ⟨rfl, .single rfl rfl, rfl, rfl⟩
    · obtain ⟨⟨n, blocks⟩, -, h⟩ := bind_eq_ok.1 h
      cases h
      exact ⟨by simp [Grammar.marks], .replicate rfl rfl n, rfl, rfl⟩

theorem bracket_rest {op : String} (h : s.bracket op = .ok s') : s'.rest = s.rest ∧ s'.pos = s.pos := by
  unfold bracket at h
  split at h
  · split at h
    · cases h
    · cases h
      exact ⟨rfl, rfl⟩
  · split at h
    · split at h
      · split at h
        · cases h
          exact ⟨rfl, rfl⟩
        · cases h
      · cases h
    · cases h
      exact ⟨rfl, rfl⟩

/-- A token reaches from where the scanner stands to where the scanner stands after it. The line does
not end in a name. -/
theorem token_reads {t : Token} (h : s.token = .ok (t, s')) :
    t.span = ⟨s.pos, s'.pos⟩ ∧ s.Reads t.text.toList s' ∧ (t.kind = .name → '\n' ∉ t.text.toList) := by
  have take : ∀ {kind : TokenKind} {lexeme rest : List Char}, lexeme ++ rest = s.rest →
      s.take kind lexeme rest = (t, s') → (kind = .name → '\n' ∉ lexeme) →
        t.span = ⟨s.pos, s'.pos⟩ ∧ s.Reads t.text.toList s' ∧ (t.kind = .name → '\n' ∉ t.text.toList) := by
    rintro kind lexeme rest hrest ⟨⟩ hname
    exact ⟨rfl, by simp [Reads, skip, hrest], fun hk => by simpa using hname hk⟩
  unfold token at h
  split at h
  · next mark literal hmark =>
    split at h
    · next lexeme rest hquoted =>
      refine take ?_ (Except.ok.inj h) nofun
      rw [List.append_assoc, quoted_append hquoted, markedText?_append hmark]
    · cases h
  · split at h
    · cases h
    · split at h
      · dsimp only at h
        split at h
        · cases h
        · refine take (List.takeWhile_append_dropWhile ..) (Except.ok.inj h) fun _ hmem => ?_
          exact absurd (List.all_eq_true.1 List.all_takeWhile _ hmem) (by decide)
      · split at h
        · split at h
          · next lexeme rest hnumber => exact take (number_append hnumber) (Except.ok.inj h) nofun
          · cases h
        · split at h
          · next op hop =>
            obtain ⟨s₁, hbracket, h⟩ := bind_eq_ok.1 h
            obtain ⟨hrest, hpos⟩ := bracket_rest hbracket
            cases h
            refine ⟨by simp [hpos], ⟨?_, ?_⟩, nofun⟩
            · simpa [take, skip] using (operator?_append hop).symm
            · simp [skip, hpos]
          · cases h

end Scanner

/-! ## Steps -/

namespace Scanner

variable {s s₁ s' : Scanner} {piece : List Char} {new : List Token}

theorem Reads.trans {piece' : List Char} (h : s.Reads piece s₁) (h' : s₁.Reads piece' s') :
    s.Reads (piece ++ piece') s' :=
  ⟨by rw [h.1, h'.1, List.append_assoc], by rw [h'.2, h.2, Pos.advance_append]⟩

theorem Reads.le (h : s.Reads piece s') : s.pos ≤ s'.pos := by
  rw [h.2]
  exact s.pos.le_advance piece

/-- Where the text ends does not change while it is read. -/
theorem Reads.end_eq (h : s.Reads piece s') : s'.pos.advance s'.rest = s.pos.advance s.rest := by
  rw [h.1, h.2, Pos.advance_append]

theorem reads_skip {rest : List Char} (h : s.rest = piece ++ rest) : s.Reads piece (s.skip piece rest) :=
  ⟨h, rfl⟩

/-- One step adds tokens, of which at most one is written out; it stands after what is skipped. -/
def Step (s : Scanner) (new : List Token) (s' : Scanner) : Prop :=
  Ordered s.pos s'.pos new ∧ ∃ skipped s₁ lexeme, s.Reads skipped s₁ ∧ s₁.Reads lexeme s' ∧
    (Grammar.marks new = [] ∨ lexeme ≠ [] ∧ Grammar.marks new = [s₁.pos])

theorem Step.of_reads (h : s.Reads piece s') : s.Step [] s' :=
  ⟨.nil h.le, piece, s', [], h, ⟨rfl, rfl⟩, .inl rfl⟩

theorem Step.end_eq (h : s.Step new s') : s'.pos.advance s'.rest = s.pos.advance s.rest := by
  obtain ⟨-, skipped, s₁, lexeme, hskipped, hlexeme, -⟩ := h
  exact (hskipped.trans hlexeme).end_eq

theorem Step.marks {L : List Pos} (h : s.Step new s') (hL : L.Sublist (s'.pos.along s'.rest)) :
    (Grammar.marks new ++ L).Sublist (s.pos.along s.rest) := by
  obtain ⟨-, skipped, s₁, lexeme, hskipped, hlexeme, hnew⟩ := h
  have hmarks : (Grammar.marks new).Sublist (s₁.pos.along lexeme) := by
    rcases hnew with hnew | ⟨hne, hnew⟩
    · simp [hnew]
    · obtain ⟨c, cs, rfl⟩ := List.exists_cons_of_ne_nil hne
      simp [hnew, Pos.along]
  rw [hskipped.1, hlexeme.1, Pos.along_append, Pos.along_append, ← hskipped.2, ← hlexeme.2]
  exact (hmarks.append hL).trans (List.sublist_append_right _ _)

/-- A line ends at a line feed or with the text. -/
theorem dropWhile_line (cs : List Char) :
    cs.dropWhile (· != '\n') = [] ∨ ∃ after, cs.dropWhile (· != '\n') = '\n' :: after := by
  induction cs with
  | nil => exact .inl rfl
  | cons c cs ih =>
    by_cases hc : c = '\n'
    · exact .inr ⟨cs, by simp [hc]⟩
    · simpa [List.dropWhile_cons, hc] using ih

/-- What the scanner does with the blanks at the start of a line and what follows them. -/
theorem run_fresh {fuel : Nat} {done tokens : List Token} (h : run (fuel + 1) true s done = .ok tokens) :
    ∃ fresh new s', s.Step new s' ∧ run fuel fresh s' (new.reverse ++ done) = .ok tokens := by
  obtain ⟨⟨column, alternative, pos, rest⟩, hmeasure, h⟩ := bind_eq_ok.1 h
  obtain ⟨piece, hrest, hpos⟩ := measure_append hmeasure
  have hblanks : s.Reads piece { s with rest, pos } := ⟨hrest, hpos⟩
  dsimp only at h
  split at h
  · exact ⟨false, [], _, .of_reads hblanks, h⟩
  · split at h
    · exact ⟨true, [], _, .of_reads (hblanks.trans (reads_skip rfl)), h⟩
    · next cs =>
      have hcomment : '#' :: cs = ('#' :: cs).takeWhile (· != '\n') ++ ('#' :: cs).dropWhile (· != '\n') :=
        List.takeWhile_append_dropWhile.symm
      split at h
      · next after hafter =>
        rw [hafter, List.append_cons] at hcomment
        exact ⟨true, [], _, .of_reads (hblanks.trans (reads_skip hcomment)), h⟩
      · next hafter =>
        rcases dropWhile_line ('#' :: cs) with hnil | ⟨after, heq⟩
        · rw [hnil] at hcomment
          exact ⟨false, [], _, .of_reads (hblanks.trans (reads_skip hcomment)), h⟩
        · exact absurd heq (hafter after)
    · obtain ⟨⟨tokens', s'⟩, hlayout, h⟩ := bind_eq_ok.1 h
      obtain ⟨hmarks, hordered, hrest', hpos'⟩ := layout_reads hlayout
      have hreads : s.Reads piece s' := ⟨by rw [hrest', hrest], by rw [hpos', hpos]⟩
      refine ⟨false, tokens', s', ⟨hordered.mono hblanks.le ?_, piece, s', [], hreads, ⟨rfl, rfl⟩, .inl hmarks⟩, h⟩
      rw [hpos']

theorem run_within {fuel : Nat} {done tokens : List Token} (h : run (fuel + 1) false s done = .ok tokens) :
    (∃ t, t.text = "" ∧ Ordered s.pos (s.pos.advance s.rest) [t] ∧ tokens = (t :: done).reverse) ∨
      ∃ fresh new s', s.Step new s' ∧ run fuel fresh s' (new.reverse ++ done) = .ok tokens := by
  have hblanks : s.Reads (s.rest.takeWhile isBlank) (s.skip (s.rest.takeWhile isBlank) (s.rest.dropWhile isBlank)) :=
    reads_skip List.takeWhile_append_dropWhile.symm
  unfold run at h
  dsimp only at h
  split at h
  · next hend =>
    split at h
    · cases h
    · cases h
      have hlast := hblanks.end_eq
      rw [hend] at hlast
      exact .inl ⟨_, rfl, (Ordered.single rfl rfl).mono hblanks.le (hlast ▸ le_refl _), rfl⟩
  · refine .inr ⟨false, [], _, .of_reads (hblanks.trans (reads_skip ?_)), h⟩
    exact List.takeWhile_append_dropWhile.symm
  · next cs heq =>
    have hline := reads_skip (show _ = ['\n'] ++ cs from heq)
    split at h
    · refine .inr ⟨true, [_], _, ⟨?_, _, _, [], hblanks.trans hline, ⟨rfl, rfl⟩, .inl rfl⟩, h⟩
      exact .cons hblanks.le hline.le (shaped_of_isLayout rfl) (.nil (le_refl _))
    · exact .inr ⟨true, [], _, .of_reads (hblanks.trans hline), h⟩
  · next cs heq =>
    split at h
    · split at h
      · cases h
      · exact .inr ⟨false, [], _, .of_reads (hblanks.trans (reads_skip heq)), h⟩
    · cases h
  · obtain ⟨⟨t, s'⟩, htoken, h⟩ := bind_eq_ok.1 h
    obtain ⟨hspan, hreads, hname⟩ := token_reads htoken
    refine .inr ⟨false, [t], s', ⟨?_, _, _, _, hblanks, hreads, ?_⟩, h⟩
    · refine .cons ?_ ?_ ⟨fun _ => ?_, fun hk => ?_⟩ (.nil ?_) <;> rw [hspan]
      · exact hblanks.le
      · exact hreads.le
      · exact hreads.2
      · rw [hreads.2]
        exact Pos.line_advance _ (hname hk)
    by_cases ht : t.text = ""
    · exact .inl (by simp [Grammar.marks, ht])
    · exact .inr ⟨by simpa using ht, by simp [Grammar.marks, ht, hspan]⟩

theorem run_step {fuel : Nat} {fresh : Bool} {done tokens : List Token}
    (h : run (fuel + 1) fresh s done = .ok tokens) :
    (∃ t, t.text = "" ∧ Ordered s.pos (s.pos.advance s.rest) [t] ∧ tokens = (t :: done).reverse) ∨
      ∃ fresh new s', s.Step new s' ∧ run fuel fresh s' (new.reverse ++ done) = .ok tokens := by
  cases fresh with
  | true => exact .inr (run_fresh h)
  | false => exact run_within h

/-- The scanner adds tokens to those it has. They follow one another up to the end of the text, and
they start at characters that were still to be read. -/
theorem run_marks : ∀ {fuel : Nat} {fresh : Bool} {s : Scanner} {done tokens : List Token},
    run fuel fresh s done = .ok tokens →
      ∃ new, tokens = done.reverse ++ new ∧ Ordered s.pos (s.pos.advance s.rest) new ∧
        (Grammar.marks new).Sublist (s.pos.along s.rest) := by
  intro fuel
  induction fuel with
  | zero => exact fun h => nomatch h
  | succ fuel ih =>
    intro fresh s done tokens h
    rcases run_step h with ⟨t, ht, hordered, rfl⟩ | ⟨fresh', new, s', hstep, h⟩
    · exact ⟨[t], by simp, hordered, by simp [Grammar.marks, ht]⟩
    · obtain ⟨later, rfl, hordered, hL⟩ := ih h
      refine ⟨new ++ later, by simp, hstep.end_eq ▸ hstep.1.append hordered, ?_⟩
      have hmarks : Grammar.marks (new ++ later) = Grammar.marks new ++ Grammar.marks later := by
        simp [Grammar.marks]
      rw [hmarks]
      exact hstep.marks hL

end Scanner

/-- The written tokens of a text start at characters of the text, in order. -/
theorem marks_scanAt {p : Pos} {tokens : List Token} (h : scanAt p cs = .ok tokens) :
    (Grammar.marks tokens).Sublist (p.along cs) := by
  obtain ⟨new, rfl, -, hL⟩ := Scanner.run_marks h
  simpa using hL

/-- The tokens of a text follow one another, up to the end of the text. -/
theorem ordered_scanAt {p : Pos} {tokens : List Token} (h : scanAt p cs = .ok tokens) :
    Ordered p (p.advance cs) tokens := by
  obtain ⟨new, rfl, hordered, -⟩ := Scanner.run_marks h
  exact hordered

/-! ## Line ends -/

/-- Whether a line feed follows every carriage return. -/
def returnsPaired : List Char → Bool
  | [] => true
  | '\r' :: '\n' :: cs => returnsPaired cs
  | '\r' :: _ => false
  | _ :: cs => returnsPaired cs

/-- A line that ends with two characters ends as far down and as far left as with one. -/
theorem next_return_feed (p : Pos) : (p.next '\r').next '\n' = p.next '\n' := rfl

theorem along_unifyLineEnds {p : Pos} (h : returnsPaired cs) :
    (p.along (unifyLineEnds cs)).Sublist (p.along cs) := by
  fun_induction unifyLineEnds cs generalizing p with
  | case1 => exact .refl _
  | case2 cs ih =>
    have hrest := ih (p := p.next '\n') h
    rw [← next_return_feed] at hrest
    exact (hrest.cons _).cons_cons p
  | case3 cs hne ih =>
    rw [returnsPaired] at h
    · cases h
    · exact hne
  | case4 c cs hne hc ih =>
    rw [returnsPaired] at h
    · exact (ih h).cons_cons p
    · exact hne
    · exact hc

theorem advance_unifyLineEnds {p : Pos} (h : returnsPaired cs) :
    p.advance (unifyLineEnds cs) = p.advance cs := by
  fun_induction unifyLineEnds cs generalizing p with
  | case1 => rfl
  | case2 cs ih => exact ih h
  | case3 cs hne ih =>
    rw [returnsPaired] at h
    · cases h
    · exact hne
  | case4 c cs hne hc ih =>
    rw [returnsPaired] at h
    · exact ih h
    · exact hne
    · exact hc

/-- The written tokens of a file start at characters of its text, or at its end where its last
line is ended for it. -/
theorem marks_scanFile {text : String} {tokens : List Token} (h : scanFile text = .ok tokens)
    (hpaired : returnsPaired text.toList) :
    (Grammar.marks tokens).Sublist (Pos.start.along (text.toList ++ ['\n'])) := by
  have hlines := along_unifyLineEnds (p := .start) hpaired
  unfold scanFile at h
  simp only at h
  split at h
  · cases h
  · refine (marks_scanAt h).trans ?_
    rw [Pos.along_append _ text.toList]
    split
    · exact hlines.trans (List.sublist_append_left _ _)
    · rw [Pos.along_append, advance_unifyLineEnds hpaired]
      exact hlines.append (.refl _)

end Token

end EffectGraph
