/-
What a parser gives for the tokens it takes.

`Gives p R` says of a parser that each of its results is related by `R` to the
places of the tokens that were taken for it. Places may be left out, but they
stay in the order of the tokens and before the places of the tokens that are
left, so what two parsers give one after the other stands in order too. With
`GivesAt s` the next token is known to start at `s`: that is how a construct
gets the place of its first token. `Returns` is for results whose places do not
matter.
-/
import EffectGraph.Proofs.Model.Analysis
import EffectGraph.Syntax.Grammar.Parser

namespace EffectGraph.Grammar

/-- The places of the tokens that are written out. -/
def marks (tokens : List Token) : List Pos :=
  (tokens.filter (·.text != "")).map (·.span.start)

/-- Where the next token starts. -/
def Cursor.start (c : Cursor) : Pos :=
  match c.rest with
  | t :: _ => t.span.start
  | [] => c.last

variable {α β : Type} {s : Pos}

def GivesAt (s : Pos) (p : Parser α) (R : List Pos → α → Prop) : Prop :=
  ∀ ⦃c a c'⦄, c.start = s → p c = .ok (a, c') →
    ∃ L, R L a ∧ (L ++ marks c'.rest).Sublist (marks c.rest)

def Gives (p : Parser α) (R : List Pos → α → Prop) : Prop := ∀ s, GivesAt s p R

abbrev Returns (p : Parser α) (Q : α → Prop) : Prop := Gives p fun _ => Q

/-- A parser that takes tokens from the front, whatever it gives. -/
abbrev Passes (p : Parser α) : Prop := Returns p fun _ => True

variable {p : Parser α} {f : α → Parser β} {R : List Pos → α → Prop} {T : List Pos → β → Prop}
  {Q : α → Prop}

/-! ## Sequencing -/

theorem bind_ok {c : Cursor} {b : β} {c' : Cursor} :
    (p >>= f) c = .ok (b, c') ↔ ∃ a c₁, p c = .ok (a, c₁) ∧ f a c₁ = .ok (b, c') := by
  change (p c >>= fun x => f x.1 x.2) = _ ↔ _
  rw [bind_eq_ok, Prod.exists]

theorem GivesAt.pure {a : α} (h : R [] a) : GivesAt s (pure a) R := by
  rintro c b c' - ⟨⟩
  exact ⟨[], h, .refl _⟩

theorem Gives.pure {a : α} (h : R [] a) : Gives (pure a) R := fun _ => .pure h

/-- A result and what comes after it. -/
theorem GivesAt.bind (hp : GivesAt s p R) (hf : ∀ L a, R L a → Gives (f a) fun L' => T (L ++ L')) :
    GivesAt s (p >>= f) T := by
  intro c b c' hs h
  obtain ⟨a, c₁, hpc, hfc⟩ := bind_ok.1 h
  obtain ⟨L, hR, hL⟩ := hp hs hpc
  obtain ⟨L', hT, hL'⟩ := hf L a hR _ rfl hfc
  refine ⟨L ++ L', hT, ?_⟩
  rw [List.append_assoc]
  exact (hL'.append_left L).trans hL

/-- A result whose place does not matter. -/
theorem GivesAt.andThen (hp : GivesAt s p R) (hf : ∀ L a, R L a → Gives (f a) T) :
    GivesAt s (p >>= f) T := by
  intro c b c' hs h
  obtain ⟨a, c₁, hpc, hfc⟩ := bind_ok.1 h
  obtain ⟨L, hR, hL⟩ := hp hs hpc
  obtain ⟨L', hT, hL'⟩ := hf L a hR _ rfl hfc
  exact ⟨L', hT, hL'.trans ((List.sublist_append_right L _).trans hL)⟩

theorem Gives.bind (hp : Gives p R) (hf : ∀ L a, R L a → Gives (f a) fun L' => T (L ++ L')) :
    Gives (p >>= f) T :=
  fun s => (hp s).bind hf

/-- A result after places that are already known. -/
theorem Gives.more {L : List Pos} (hp : Gives p R)
    (hf : ∀ L' a, R L' a → Gives (f a) fun L'' => T (L ++ L' ++ L'')) :
    Gives (p >>= f) fun L' => T (L ++ L') :=
  hp.bind fun L' a ha => by simpa only [List.append_assoc] using hf L' a ha

theorem Gives.andThen (hp : Gives p R) (hf : ∀ L a, R L a → Gives (f a) T) : Gives (p >>= f) T :=
  fun s => (hp s).andThen hf

theorem Passes.skip (hp : Passes p) (hf : ∀ a, Gives (f a) T) : Gives (p >>= f) T :=
  hp.andThen fun _ a _ => hf a

theorem GivesAt.imp {R' : List Pos → α → Prop} (hp : GivesAt s p R)
    (h : ∀ L a, R L a → R' L a) : GivesAt s p R' := by
  intro c a c' hs hpc
  obtain ⟨L, hR, hL⟩ := hp hs hpc
  exact ⟨L, h L a hR, hL⟩

theorem Gives.imp {R' : List Pos → α → Prop} (hp : Gives p R) (h : ∀ L a, R L a → R' L a) :
    Gives p R' :=
  fun s => (hp s).imp h

theorem Gives.passes (hp : Gives p R) : Passes p := hp.imp fun _ _ _ => trivial

theorem Gives.map {g : α → β} (hp : Gives p R) (h : ∀ L a, R L a → T L (g a)) : Gives (g <$> p) T := by
  rw [map_eq_pure_bind]
  exact hp.bind fun L a ha => .pure (by simpa using h L a ha)

theorem Gives.fail : Gives (fail : Parser α) R := by
  rintro s c a c' - ⟨⟩

theorem Gives.throw {e : Fault} : Gives (throw e : Parser α) R := by
  rintro s c a c' - ⟨⟩

theorem Gives.failed {R : List Pos → β → Prop} : Gives ((Grammar.fail : Parser α) >>= f) R := by
  rintro s c b c' - h
  obtain ⟨a, c₁, ⟨⟩, -⟩ := bind_ok.1 h

theorem Gives.ite {p q : Parser α} {c : Prop} [Decidable c] (hp : c → Gives p R)
    (hq : ¬c → Gives q R) : Gives (if c then p else q) R := by
  split
  · next h => exact hp h
  · next h => exact hq h

/-- Two ways to a value that is used in one way. -/
theorem Gives.join {p q : Parser α} {c : Prop} [Decidable c]
    (h : Gives ((if c then p else q) >>= f) T) : Gives (if c then p >>= f else q >>= f) T := by
  split at h <;> simp_all

theorem Gives.andThen_ite {p q : Parser α} {c : Prop} [Decidable c] (hp : c → Returns p Q)
    (hq : ¬c → Returns q Q) (hf : ∀ a, Q a → Gives (f a) T) :
    Gives (if c then p >>= f else q >>= f) T :=
  .join ((Gives.ite hp hq).andThen fun _ => hf)

theorem passes_lift (x : Except Fault α) : Passes (liftM x : Parser α) := by
  rintro s c a c' - h
  cases x with
  | error e => cases h
  | ok b =>
    cases h
    exact ⟨[], trivial, .refl _⟩

/-! ## Looking ahead -/

/-- A parser that leaves the cursor as it is. -/
def Looks (p : Parser α) : Prop := ∀ ⦃c a c'⦄, p c = .ok (a, c') → c' = c

theorem Looks.passes (hp : Looks p) : Passes p := by
  rintro s c a c' - h
  obtain rfl := hp h
  exact ⟨[], trivial, .refl _⟩

/-- After a look the next token is still the same. -/
theorem Looks.andThen (hp : Looks p) (hf : ∀ a, GivesAt s (f a) T) : GivesAt s (p >>= f) T := by
  intro c b c' hs h
  obtain ⟨a, c₁, hpc, hfc⟩ := bind_ok.1 h
  obtain rfl := hp hpc
  exact hf a hs hfc

theorem Looks.pure (a : α) : Looks (pure a : Parser α) := by
  rintro c b c' ⟨⟩
  rfl

theorem Looks.bind (hp : Looks p) (hf : ∀ a, Looks (f a)) : Looks (p >>= f) := by
  intro c b c' h
  obtain ⟨a, c₁, hpc, hfc⟩ := bind_ok.1 h
  obtain rfl := hp hpc
  exact hf a hfc

theorem looks_get : Looks (get : Parser Cursor) := by
  rintro c b c' ⟨⟩
  rfl

theorem looks_peek : Looks peek := by
  unfold peek
  refine looks_get.bind fun c => ?_
  split
  · exact .pure _
  · exact looks_get.bind fun _ => looks_get.bind fun _ => .pure _

theorem looks_peekSecond : Looks peekSecond := by
  unfold peekSecond
  refine looks_get.bind fun c => ?_
  split
  · exact .pure _
  · exact looks_get.bind fun _ => looks_get.bind fun _ => .pure _

theorem here_ok {c c' : Cursor} {start : Pos} (h : here c = .ok (start, c')) :
    c' = c ∧ ∃ t rest, c.rest = t :: rest ∧ t.span.start = start := by
  rcases c with ⟨_ | ⟨t, rest⟩, last, total⟩
  · cases h
  · cases h
    exact ⟨rfl, t, rest, rfl, rfl⟩

theorem looks_here : Looks here := fun _ _ _ h => (here_ok h).1

theorem looks_sees (text : String) : Looks (sees text) := looks_peek.bind fun _ => .pure _

theorem looks_seesWord (word : String) : Looks (seesWord word) := looks_peek.bind fun _ => .pure _

theorem GivesAt.ite {p q : Parser α} {c : Prop} [Decidable c] (hp : c → GivesAt s p R)
    (hq : ¬c → GivesAt s q R) : GivesAt s (if c then p else q) R := by
  split
  · next h => exact hp h
  · next h => exact hq h

/-- What starts here starts where the next token starts. -/
theorem GivesAt.here {f : Pos → Parser β} (h : GivesAt s (f s) T) : GivesAt s (here >>= f) T := by
  rintro c b c' rfl hc
  obtain ⟨a, c₁, hpc, hfc⟩ := bind_ok.1 hc
  obtain ⟨rfl, t, rest, hrest, rfl⟩ := here_ok hpc
  have hstart : c₁.start = t.span.start := by rw [Cursor.start, hrest]
  exact (hstart ▸ h) hstart hfc

/-! ## Taking tokens -/

theorem next_givesAt : GivesAt s next fun L t => t.text ≠ "" → L = [s] := by
  rintro ⟨_ | ⟨t, rest⟩, last, total⟩ a c' hs h
  · cases h
  · cases h
    obtain rfl : t.span.start = s := hs
    by_cases ht : t.text = ""
    · exact ⟨[], fun h => absurd ht h, by simp [marks, ht]⟩
    · exact ⟨[t.span.start], fun _ => rfl, by simp [marks, ht]⟩

theorem passes_next : Passes next := fun _ => next_givesAt.imp fun _ _ _ => trivial

theorem sees_ok {text : String} {c c' : Cursor} (h : sees text c = .ok (true, c')) :
    c' = c ∧ ∃ t rest, c.rest = t :: rest ∧ t.text = text := by
  rcases c with ⟨_ | ⟨t, rest⟩, last, total⟩
  · cases h
  · obtain ⟨ht, rfl⟩ := Prod.mk.inj (Except.ok.inj h)
    have ht : t.is text = true := ht
    simp only [Token.is, Bool.and_eq_true, beq_iff_eq] at ht
    exact ⟨rfl, t, rest, rfl, ht.2⟩

theorem accept_givesAt {text : String} (ht : text ≠ "") :
    GivesAt s (accept text) fun L taken => taken = true → L = [s] := by
  intro c a c' hs h
  obtain ⟨seen, c₁, hseen, htaken⟩ := bind_ok.1 h
  cases seen with
  | false =>
    cases htaken
    obtain rfl := looks_sees text hseen
    exact ⟨[], by simp, .refl _⟩
  | true =>
    obtain ⟨rfl, t, rest, hrest, rfl⟩ := sees_ok hseen
    obtain ⟨u, c₂, hnext, hu⟩ := bind_ok.1 htaken
    cases hu
    obtain ⟨L, hL, hsub⟩ := next_givesAt hs hnext
    refine ⟨L, fun _ => hL ?_, hsub⟩
    obtain ⟨_ | ⟨t', rest'⟩, last, total⟩ := c₁
    · cases hrest
    · cases hrest
      cases hnext
      exact ht

theorem passes_accept (text : String) : Passes (accept text) := by
  refine (looks_sees text).passes.skip fun seen => ?_
  split
  · exact passes_next.skip fun _ => .pure trivial
  · exact .pure trivial

theorem passes_acceptWhen (allowed : Bool) (text : String) : Passes (acceptWhen allowed text) := by
  unfold acceptWhen
  split
  · exact passes_accept text
  · exact .pure trivial

theorem passes_acceptAny (texts : List String) : Passes (acceptAny texts) := by
  refine looks_peek.passes.skip fun t => ?_
  split
  · exact passes_next.skip fun _ => .pure trivial
  · exact .pure trivial

theorem passes_expect (text : String) : Passes (expect text) := by
  refine (passes_accept text).skip fun taken => ?_
  split
  · exact .pure trivial
  · exact .fail

/-- The token that a construct starts with. -/
theorem GivesAt.expect {text : String} {f : Unit → Parser β} (ht : text ≠ "")
    (h : Gives (f ()) fun L => T (s :: L)) : GivesAt s (expect text >>= f) T := by
  have hexpect : GivesAt s (Grammar.expect text) fun L _ => L = [s] := by
    refine (accept_givesAt ht).bind fun L taken hL => ?_
    cases taken with
    | true => exact .pure (by simpa using hL rfl)
    | false => exact .fail
  refine hexpect.bind fun L _ hL => ?_
  rw [hL]
  exact h

/-- A construct that may start with a token. -/
theorem GivesAt.accept {text : String} {f : Bool → Parser β} (ht : text ≠ "")
    (htaken : Gives (f true) fun L => T (s :: L)) (hnot : GivesAt s (f false) T) :
    GivesAt s (accept text >>= f) T := by
  intro c b c' hs h
  obtain ⟨taken, c₁, haccept, hf⟩ := bind_ok.1 h
  cases taken with
  | true =>
    obtain ⟨L, hL, hsub⟩ := accept_givesAt ht hs haccept
    obtain ⟨L', hT, hsub'⟩ := htaken _ rfl hf
    obtain rfl := hL rfl
    exact ⟨s :: L', hT, (hsub'.cons_cons s).trans hsub⟩
  | false =>
    obtain ⟨seen, c₂, hseen, hrest⟩ := bind_ok.1 haccept
    obtain rfl := looks_sees text hseen
    cases seen with
    | false =>
      cases hrest
      exact hnot hs hf
    | true =>
      obtain ⟨_, _, _, hrest⟩ := bind_ok.1 hrest
      cases hrest

theorem passes_expectKind (kind : TokenKind) : Passes (expectKind kind) := by
  refine looks_peek.passes.skip fun t => ?_
  split
  · exact passes_next
  · exact .fail

theorem passes_identifier : Passes identifier := by
  refine (passes_expectKind .name).skip fun t => ?_
  split
  · exact .pure trivial
  · exact .fail

theorem passes_nameText : Passes nameText := passes_identifier.skip fun _ => .pure trivial

/-! ## Repetition -/

/-- Where nothing is given, no place counts. -/
theorem Gives.places_of_none {p : Parser (Option α)} (hp : Gives p fun L o => ∀ a ∈ o, R L a) :
    Gives p fun L o => (o = none → L = []) ∧ ∀ a ∈ o, R L a := by
  intro s c o c' hs h
  obtain ⟨L, hR, hL⟩ := hp s hs h
  cases o with
  | none => exact ⟨[], by simp, (List.sublist_append_right L _).trans hL⟩
  | some a => exact ⟨L, ⟨by simp, hR⟩, hL⟩

theorem Gives.repeatFor {step : Parser (Option α)} {I : List Pos → List α → Prop}
    (hstep : ∀ L found, I L found → Gives step fun L' o => ∀ a ∈ o, I (L ++ L') (found ++ [a])) :
    ∀ (n : Nat) (done : List α) (L : List Pos), I L done.reverse →
      Gives (repeatFor step n done) fun L' => I (L ++ L')
  | 0, done, L, h => .pure (by simpa using h)
  | n + 1, done, L, h => by
    refine (hstep L _ h).places_of_none.bind fun L' o ho => ?_
    cases o with
    | none =>
      obtain rfl := ho.1 rfl
      exact .pure (by simpa using h)
    | some a =>
      have hnext := Gives.repeatFor hstep n (a :: done) (L ++ L') (by simpa using ho.2 a rfl)
      simpa only [List.append_assoc] using hnext

/-- What holds of nothing and is kept by each step holds of what the steps give together. -/
theorem Gives.many {step : Parser (Option α)} {I : List Pos → List α → Prop} (h : I [] [])
    (hstep : ∀ L found, I L found → Gives step fun L' o => ∀ a ∈ o, I (L ++ L') (found ++ [a])) :
    Gives (many step) I := by
  refine looks_get.passes.skip fun c => ?_
  simpa using Gives.repeatFor hstep c.total [] [] h

/-- Things that each have places of their own: together they have all of them, in order. -/
theorem Gives.manyStarts (starts : α → List Pos) {step : Parser (Option α)}
    (hstep : Gives step fun L o => ∀ a ∈ o, Q a ∧ (starts a).Sublist L) :
    Gives (Grammar.many step) fun L as => (∀ a ∈ as, Q a) ∧ (as.flatMap starts).Sublist L := by
  refine Gives.many ⟨by simp, by simp⟩ fun L found hfound => hstep.imp fun L' o ho a ha => ?_
  obtain ⟨ha, hL'⟩ := ho a ha
  refine ⟨List.forall_mem_append.2 ⟨hfound.1, by simpa using ha⟩, ?_⟩
  rw [List.flatMap_append, List.flatMap_singleton]
  exact hfound.2.append hL'

theorem Returns.many {step : Parser (Option α)} (hstep : Returns step fun o => ∀ a ∈ o, Q a) :
    Returns (many step) fun as => ∀ a ∈ as, Q a := by
  refine Gives.many (by simp) fun _ found hfound => ?_
  refine hstep.imp fun _ o ho a ha b hb => ?_
  rcases List.mem_append.1 hb with hb | hb
  · exact hfound b hb
  · obtain rfl := List.mem_singleton.1 hb
    exact ho b ha

theorem Returns.found (hp : Returns p Q) : Returns (do return some (← p)) fun o => ∀ a ∈ o, Q a :=
  hp.andThen fun _ a ha => .pure (by simpa using ha)

/-- Items as long as a test says that one more comes. -/
theorem Gives.manyWhen (starts : α → List Pos) {test : Parser Bool} {item : Parser α}
    (htest : Passes test) (hitem : Gives item fun L a => Q a ∧ (starts a).Sublist L) :
    Gives (Grammar.many do if ← test then return some (← item) else return none) fun L as =>
      (∀ a ∈ as, Q a) ∧ (as.flatMap starts).Sublist L := by
  refine .manyStarts starts (htest.skip fun _ => .ite (fun _ => ?_) fun _ => .pure (by simp))
  exact hitem.bind fun L a ha => .pure (by simpa using ha)

theorem Returns.manyWhen {test : Parser Bool} {item : Parser α} (htest : Passes test)
    (hitem : Returns item Q) :
    Returns (Grammar.many do if ← test then return some (← item) else return none) fun as => ∀ a ∈ as, Q a := by
  refine .many (htest.skip fun _ => .ite (fun _ => ?_) fun _ => .pure (by simp))
  exact hitem.andThen fun _ a ha => .pure (by simpa using ha)

theorem Returns.extendFor {step : α → Parser (Option α)}
    (hstep : ∀ a, Q a → Returns (step a) fun o => ∀ b ∈ o, Q b) :
    ∀ (n : Nat) (a : α), Q a → Returns (extendFor step n a) Q
  | 0, _, h => .pure h
  | n + 1, a, h => by
    refine (hstep a h).andThen fun _ o ho => ?_
    cases o with
    | none => exact .pure h
    | some b => exact Returns.extendFor hstep n b (ho b rfl)

theorem Returns.extend {step : α → Parser (Option α)}
    (hstep : ∀ a, Q a → Returns (step a) fun o => ∀ b ∈ o, Q b) {a : α} (h : Q a) :
    Returns (extend step a) Q :=
  looks_get.passes.skip fun c => Returns.extendFor hstep c.total a h

theorem Returns.afterCommas {mayStart : Token → Bool} {item : Parser α} (hitem : Returns item Q) :
    Returns (afterCommas mayStart item) fun x => ∀ a ∈ x.1, Q a := by
  have step : Returns (do
      if (← sees ",") && mayStart (← peekSecond) then
        Grammar.expect ","
        return some (← item)
      else return none) fun o => ∀ a ∈ o, Q a := by
    refine (looks_sees ",").passes.skip fun _ => looks_peekSecond.passes.skip fun _ => ?_
    refine .ite (fun _ => ?_) fun _ => .pure (by simp)
    exact (passes_expect ",").skip fun _ => hitem.andThen fun _ a ha => .pure (by simpa using ha)
  exact (Returns.many step).andThen fun _ items hitems => (passes_accept ",").skip fun _ => .pure hitems

theorem Gives.attempt (hp : Gives p R) : Gives (attempt p) fun L o => ∀ a ∈ o, R L a := by
  intro s c o c' hs h
  unfold Grammar.attempt at h
  split at h
  · next a c₁ hpc =>
    cases h
    obtain ⟨L, hR, hL⟩ := hp s hs hpc
    exact ⟨L, by simpa using hR, hL⟩
  · cases h
    exact ⟨[], by simp, .refl _⟩
  · cases h

/-- A loop over a list keeps what each round keeps. -/
theorem Returns.forIn {Q : β → Prop} {step : α → β → Parser (ForInStep β)}
    (hstep : ∀ a b, Q b → Returns (step a b) fun r => ∀ b', r = .yield b' ∨ r = .done b' → Q b') :
    ∀ (as : List α) (b : β), Q b → Returns (forIn as b step) Q
  | [], b, h => .pure h
  | a :: as, b, h => by
    rw [List.forIn_cons]
    refine (hstep a b h).andThen fun _ r hr => ?_
    cases r with
    | done b' => exact .pure (hr b' (.inr rfl))
    | yield b' => exact Returns.forIn hstep as b' (hr b' (.inl rfl))

end EffectGraph.Grammar
