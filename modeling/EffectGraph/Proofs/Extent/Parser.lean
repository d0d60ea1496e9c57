/-
How far what a parser reads extends.

A node fits between two places if it and all nodes below it lie there, and if
each of its parts fits between its own two ends (`Node.Fits`), all as far as a
`Placing` says that places are known. `Covers` follows a rule of the grammar
token by token: the tokens that are left follow one another, nothing stands
before the place `lo` where the rule starts, and the nodes that are known so far
fit between `lo` and the end of the last token. That end only moves on, so what
is known stays known, and a new node reaches from `lo` to it. `Spans` says of a
parser that what it gives fits wherever it starts. Where places are known
exactly, a construct contains all that stands in it, but for its decorators and
for what stands in a formatted text of several lines inside of another formatted
text (`Node.Fits.of_exact`).
-/
import EffectGraph.Proofs.Extent.Placing
import EffectGraph.Proofs.Function.Start
import EffectGraph.Proofs.Grammar.Expression

namespace EffectGraph

/-! ## Nodes -/

def Kind.isName : Kind → Bool
  | name .. => true
  | _ => false

def Kind.isFormatted : Kind → Bool
  | joinedStr => true
  | _ => false

theorem Kind.isFormatted_iff {k : Kind} : k.isFormatted = true ↔ k = .joinedStr := by
  cases k <;> simp [isFormatted]

theorem Kind.isFormatted_of_isFunction {k : Kind} (h : k.isFunction = true) : k.isFormatted = false := by
  rw [← Bool.not_eq_true, isFormatted_iff]
  rintro rfl
  cases h

namespace Placing

variable {σ : Placing} {k : Kind} {span : Span}

/-- How the places in a construct are known. What stands in a formatted text stands in its fields. In a
field, no column is known of what stands in a formatted text of several lines. -/
def inside : Placing → Kind → Span → Placing
  | exact, k, span => if k.isFormatted then field span.start else exact
  | field start, k, span =>
    field (if k.isFormatted && decide (span.start.line < span.stop.line) then ⟨0, 0⟩ else start)

theorem inside_of_not_isFormatted (h : k.isFormatted = false) : σ.inside k span = σ := by
  cases σ <;> simp [inside, h]

theorem Le.inside {p q : Pos} (h : σ.Le p q) : (σ.inside k span).Le p q := by
  cases σ with
  | exact =>
    simp only [Placing.inside]
    split
    · exact Pos.line_le h
    · exact h
  | field start => exact h

end Placing

namespace Node

variable {σ : Placing} {lo lo' hi hi' : Pos} {n c m d : Node}

/-- A node lies between two places with all that is below it, and each of its parts lies between the
ends of the node in the same way. Only decorators stand before the construct they belong to. -/
inductive Fits : Placing → Pos → Pos → Node → Prop
  | intro {σ : Placing} {lo hi : Pos} {n : Node} : σ.Le lo n.span.start →
    (n.kind.isName = true → σ.Keeps n.span.start) → n.span.stop ≤ hi →
    (∀ c ∈ n.children, Fits (σ.inside n.kind n.span) lo hi c) →
    (∀ c ∈ n.children, c.role ≠ .decorator → Fits (σ.inside n.kind n.span) n.span.start n.span.stop c) →
    Fits σ lo hi n

theorem Fits.mono (h : n.Fits σ lo hi) (hlo : σ.Le lo' lo) (hhi : hi ≤ hi') : n.Fits σ lo' hi' := by
  induction h with
  | intro hstart hname hstop _ hparts ih =>
    exact .intro (hlo.trans hstart) hname (hstop.trans hhi) (fun c hc => ih c hc hlo.inside hhi) hparts

/-- What lies in a field lies after any place that the field lies after. -/
theorem Fits.field_mono {start start' : Pos} (h : n.Fits (.field start) lo hi) (hstart : start' ≤ start) :
    n.Fits (.field start') lo hi := by
  generalize hσ : Placing.field start = σ at h
  induction h generalizing start start' with
  | @intro _ lo hi n hline hname hstop _ _ ih ih' =>
    subst hσ
    have hinside : (if n.kind.isFormatted && decide (n.span.start.line < n.span.stop.line) then ⟨0, 0⟩
        else start' : Pos) ≤
        if n.kind.isFormatted && decide (n.span.start.line < n.span.stop.line) then ⟨0, 0⟩ else start := by
      split
      · exact le_refl _
      · exact hstart
    exact .intro hline (fun hk => le_trans hstart (hname hk)) hstop (fun c hc => ih c hc hinside rfl)
      fun c hc hrole => ih' c hc hrole hinside rfl

@[simp] theorem span_as (r : Role) (n : Node) : (n.as r).span = n.span := by cases n; rfl

/-- A copy that has the same ends and whose parts are copies in the same roles. -/
theorem Fits.copy (h : n.Fits σ lo hi) (hspan : m.span = n.span) (hname : m.kind.isName = n.kind.isName)
    (hformatted : m.kind.isFormatted = n.kind.isFormatted)
    (hparts : List.Forall₂ (fun c d => d.role = c.role ∧ ∀ σ lo hi, c.Fits σ lo hi → d.Fits σ lo hi)
      n.children m.children) : m.Fits σ lo hi := by
  obtain ⟨hstart, hkeeps, hstop, hall, hown⟩ := h
  have hinside : σ.inside m.kind m.span = σ.inside n.kind n.span := by
    cases σ <;> simp only [Placing.inside, hformatted, hspan]
  refine .intro (hspan ▸ hstart) (fun hk => ?_) (hspan ▸ hstop) (fun d hd => ?_) fun d hd hrole => ?_
  · exact hspan ▸ hkeeps (hname ▸ hk)
  · obtain ⟨c, hc, -, hcopy⟩ := exists_of_mem_right hparts hd
    exact hinside ▸ hcopy _ _ _ (hall c hc)
  · obtain ⟨c, hc, hsame, hcopy⟩ := exists_of_mem_right hparts hd
    rw [hinside, hspan]
    exact hcopy _ _ _ (hown c hc (hsame ▸ hrole))

@[simp] theorem fits_as {r : Role} : (n.as r).Fits σ lo hi ↔ n.Fits σ lo hi := by
  constructor
  · exact fun h => h.copy (by simp) (by simp) (by simp) (by simp)
  · exact fun h => h.copy (by simp) (by simp) (by simp) (by simp)

/-- A new node fits if its ends and its parts do. -/
theorem Fits.new {k : Kind} {span : Span} {cs : List Node} (hstart : σ.Le lo span.start)
    (hname : k.isName = true → σ.Keeps span.start) (hstop : span.stop ≤ hi)
    (hcs : ∀ c ∈ cs, c.Fits (σ.inside k span) span.start span.stop) : (Node.new k span cs).Fits σ lo hi :=
  .intro hstart hname hstop (fun c hc => (hcs c hc).mono hstart.inside hstop) fun c hc _ => hcs c hc

theorem fits_number : ∀ (n : Node) (i : Nat) (σ : Placing) (lo hi : Pos), n.Fits σ lo hi →
    (n.number i).Fits σ lo hi := by
  refine induction fun n ih i σ lo hi h => ?_
  obtain ⟨j, r, k, s, cs⟩ := n
  refine h.copy rfl rfl rfl ((forall₂_and_mem (forall₂_numberAll (i + 1) cs)).imp ?_)
  rintro c d ⟨⟨j, rfl⟩, hc, -⟩
  exact ⟨(alike_number j c).1, ih c hc j⟩

theorem fits_asTarget? : ∀ n m : Node, n.asTarget? = some m → ∀ σ lo hi, n.Fits σ lo hi → m.Fits σ lo hi := by
  refine induction fun n ih m h σ lo hi hn => ?_
  have container : ∀ {i r k s cs}, n = mk i r k s cs → (asTargets? cs).map (mk i r k s) = some m →
      m.Fits σ lo hi := by
    rintro i r k s cs rfl h
    obtain ⟨ds, hds, rfl⟩ := Option.map_eq_some_iff.1 h
    refine hn.copy rfl rfl rfl ((forall₂_and_mem (asTargets?_eq_some hds)).imp ?_)
    rintro c d ⟨hcd, hc, -⟩
    exact ⟨(asTarget?_is c d hcd).1.1, ih c hc d hcd⟩
  unfold asTarget? at h
  split at h
  · cases h
    exact hn.copy rfl rfl rfl (List.forall₂_same.2 fun c _ => ⟨rfl, fun _ _ _ => id⟩)
  · cases h
    exact hn.copy rfl rfl rfl (List.forall₂_same.2 fun c _ => ⟨rfl, fun _ _ _ => id⟩)
  · cases h
    exact hn
  · exact container rfl h
  · exact container rfl h
  · exact container rfl h
  · cases h

/-! ## What stands where in a tree -/

/-- A node stands in a formatted text of several lines, which is another node or stands in it. -/
def HasInLongText (n d : Node) : Prop :=
  ∃ text ∈ n.preorder, text.kind = .joinedStr ∧ text.span.start.line < text.span.stop.line ∧
    ∃ c ∈ text.children, d ∈ c.preorder

theorem HasInLongText.of_child (h : c.HasInLongText d) (hc : c ∈ n.children) : n.HasInLongText d := by
  obtain ⟨text, htext, rest⟩ := h
  exact ⟨text, mem_preorder_of_child hc htext, rest⟩

/-- What lies in a field does not lie above it or come after its end, and a name there does not come
before it, unless it stands in a formatted text of several lines. -/
theorem Fits.of_field {start : Pos} (h : n.Fits (.field start) lo hi) (hd : d ∈ n.preorder) :
    lo.line ≤ d.span.start.line ∧ d.span.stop ≤ hi ∧
      (d.kind.isName = true → start ≤ d.span.start ∨ n.HasInLongText d) := by
  generalize hσ : Placing.field start = σ at h
  induction h generalizing start with
  | @intro _ lo hi n hline hname hstop _ _ ih =>
    subst hσ
    rw [preorder_eq, List.mem_cons, List.mem_flatMap] at hd
    rcases hd with rfl | ⟨c, hc, hd⟩
    · exact ⟨hline, hstop, fun hk => .inl (hname hk)⟩
    · obtain ⟨hbelow, hbefore, hplace⟩ := ih c hc hd rfl
      refine ⟨hbelow, hbefore, fun hk => ?_⟩
      split at hplace
      · next hlong =>
        simp only [Bool.and_eq_true, decide_eq_true_eq, Kind.isFormatted_iff] at hlong
        exact .inr ⟨n, mem_preorder_self n, hlong.1, hlong.2, c, hc, hd⟩
      · exact (hplace hk).imp_right (·.of_child hc)

/-- What lies in a construct does not lie above it or come after its end. Only what stands in a
formatted text can come before it, and a name only in one of several lines inside of that. -/
theorem Fits.of_exact (h : n.Fits .exact lo hi) (hd : d ∈ n.preorder) :
    lo.line ≤ d.span.start.line ∧ d.span.stop ≤ hi ∧
      (lo ≤ d.span.start ∨ ∃ text ∈ n.preorder, text.kind = .joinedStr ∧
        ∃ c ∈ text.children, d ∈ c.preorder ∧ (d.kind.isName = true → c.HasInLongText d)) := by
  generalize hσ : Placing.exact = σ at h
  induction h with
  | @intro _ lo hi n hstart _ hstop hall hparts ih =>
    subst hσ
    rw [preorder_eq, List.mem_cons, List.mem_flatMap] at hd
    rcases hd with rfl | ⟨c, hc, hd⟩
    · exact ⟨Pos.line_le hstart, hstop, .inl hstart⟩
    · by_cases hformatted : n.kind.isFormatted = true
      · have hfield := hall c hc
        simp only [Placing.inside, hformatted, if_true] at hfield
        obtain ⟨hbelow, hbefore, hplace⟩ := hfield.of_field hd
        refine ⟨hbelow, hbefore, ?_⟩
        rw [or_iff_not_imp_left]
        intro hout
        refine ⟨n, mem_preorder_self n, Kind.isFormatted_iff.1 hformatted, c, hc, hd, fun hk => ?_⟩
        exact (hplace hk).resolve_left fun h => hout (le_trans (α := Pos) hstart h)
      · obtain ⟨hbelow, hbefore, hplace⟩ := ih c hc hd (by simp [Placing.inside, hformatted])
        refine ⟨hbelow, hbefore, hplace.imp_right ?_⟩
        rintro ⟨text, htext, rest⟩
        exact ⟨text, mem_preorder_of_child hc htext, rest⟩

/-- The body of a function lies in the function, as far as `Fits.of_exact` says. -/
theorem Fits.of_mem_bodyNodes (h : n.Fits .exact lo hi) (hk : n.kind.isFunction = true) (hd : d ∈ n.bodyNodes) :
    n.span.start.line ≤ d.span.start.line ∧ d.span.stop ≤ n.span.stop ∧
      (n.span.start ≤ d.span.start ∨ ∃ text ∈ n.bodyNodes, text.kind = .joinedStr ∧
        ∃ c ∈ text.children, d ∈ c.preorder ∧ (d.kind.isName = true → c.HasInLongText d)) := by
  obtain ⟨-, -, -, -, hparts⟩ := h
  obtain ⟨b, hb, hd⟩ := List.mem_flatMap.1 hd
  have hrole : b.role = .body := by simpa using (List.mem_filter.1 hb).2
  have hfits := hparts b (mem_children_of_mem_parts hb) (by simp [hrole])
  rw [Placing.inside_of_not_isFormatted (Kind.isFormatted_of_isFunction hk)] at hfits
  obtain ⟨hline, hstop, hplace⟩ := hfits.of_exact hd
  refine ⟨hline, hstop, hplace.imp_right ?_⟩
  rintro ⟨text, htext, rest⟩
  exact ⟨text, List.mem_flatMap.2 ⟨b, hb, htext⟩, rest⟩

/-! ## Several nodes -/

/-- All of these nodes fit between two places. -/
def AllFit (σ : Placing) (lo hi : Pos) (ns : List Node) : Prop := ∀ n ∈ ns, n.Fits σ lo hi

variable {ns ns' : List Node}

@[simp] theorem allFit_nil : AllFit σ lo hi [] := nofun

@[simp] theorem allFit_cons : AllFit σ lo hi (n :: ns) ↔ n.Fits σ lo hi ∧ AllFit σ lo hi ns :=
  List.forall_mem_cons

@[simp] theorem allFit_append : AllFit σ lo hi (ns ++ ns') ↔ AllFit σ lo hi ns ∧ AllFit σ lo hi ns' :=
  List.forall_mem_append

@[simp] theorem allFit_as {r : Role} : AllFit σ lo hi (ns.map (·.as r)) ↔ AllFit σ lo hi ns := by
  simp [AllFit]

@[simp] theorem allFit_reverse : AllFit σ lo hi ns.reverse ↔ AllFit σ lo hi ns := by
  simp [AllFit]

theorem allFit_flatMap {α : Type} {N : α → List Node} {as : List α} :
    AllFit σ lo hi (as.flatMap N) ↔ ∀ a ∈ as, AllFit σ lo hi (N a) := by
  simp only [AllFit, List.mem_flatMap]
  exact ⟨fun h a ha n hn => h n ⟨a, ha, hn⟩, fun h n ⟨a, ha, hn⟩ => h a ha n hn⟩

/-- Decorators stand before the construct, so they fit only where the whole does. -/
theorem Fits.decorated {k : Kind} {span : Span} {before ds after : List Node} (hk : k.isFormatted = false)
    (hstart : lo ≤ span.start) (hstop : span.stop ≤ hi)
    (hparts : AllFit .exact span.start span.stop (before ++ after)) (hds : AllFit .exact lo hi ds) :
    (Node.new k span (before ++ ds.map (·.as .decorator) ++ after)).Fits .exact lo hi := by
  obtain ⟨hbefore, hafter⟩ := allFit_append.1 hparts
  have hinside : Placing.exact.inside k span = .exact := Placing.inside_of_not_isFormatted hk
  refine .intro hstart (fun _ => trivial) hstop (fun c hc => ?_) fun c hc hrole => ?_
  · change c.Fits (Placing.exact.inside k span) lo hi
    rw [hinside]
    rcases List.mem_append.1 hc with hc | hc
    · rcases List.mem_append.1 hc with hc | hc
      · exact (hbefore c hc).mono hstart hstop
      · exact allFit_as.2 hds c hc
    · exact (hafter c hc).mono hstart hstop
  · change c.Fits (Placing.exact.inside k span) span.start span.stop
    rw [hinside]
    rcases List.mem_append.1 hc with hc | hc
    · rcases List.mem_append.1 hc with hc | hc
      · exact hbefore c hc
      · obtain ⟨d, -, rfl⟩ := List.mem_map.1 hc
        exact absurd (role_as ..) hrole
    · exact hafter c hc

theorem AllFit.mono (h : AllFit σ lo hi ns) (hlo : σ.Le lo' lo) (hhi : hi ≤ hi') : AllFit σ lo' hi' ns :=
  fun n hn => (h n hn).mono hlo hhi

end Node

namespace Grammar

open Node (AllFit)

/-! ## Tokens -/

/-- The tokens that are left follow one another, up to a place. -/
def Cursor.Ordered (σ : Placing) (e : Pos) (c : Cursor) : Prop := Token.Placed σ c.last e c.rest

/-- The next token, if there is one, does not start before a place. -/
def Cursor.StartsAfter (σ : Placing) (lo : Pos) (c : Cursor) : Prop :=
  ∀ t rest, c.rest = t :: rest → σ.Le lo t.span.start

theorem Cursor.Ordered.startsAfter {σ : Placing} {e : Pos} {c : Cursor} (h : c.Ordered σ e) :
    c.StartsAfter σ c.last := by
  rintro t rest hrest
  rw [Cursor.Ordered, hrest] at h
  cases h with
  | cons hstart => exact hstart

variable {α β : Type} {σ : Placing} {lo : Pos} {known : List Node} {p : Parser α} {f : α → Parser β}
  {Q : Pos → β → Prop} {R : Pos → α → Prop} {N : α → List Node}

/-- A parser that reads on after `lo`, where the nodes that are known fit, gives something that is
related to the end of the last token that it takes. -/
def Covers (σ : Placing) (lo : Pos) (known : List Node) (p : Parser α) (R : Pos → α → Prop) : Prop :=
  ∀ ⦃e c a c'⦄, c.Ordered σ e → c.StartsAfter σ lo → AllFit σ lo c.last known → p c = .ok (a, c') →
    c'.Ordered σ e ∧ c'.StartsAfter σ lo ∧ c.last ≤ c'.last ∧ R c'.last a

/-- Wherever a parser starts, the nodes it gives fit between its start and the end of the last token
that it takes. -/
def Spans (σ : Placing) (p : Parser α) (N : α → List Node) : Prop :=
  ∀ lo, Covers σ lo [] p fun hi a => AllFit σ lo hi (N a)

/-- A parser that gives one node. -/
abbrev SpansNode (σ : Placing) (p : Parser Node) : Prop := Spans σ p fun n => [n]

/-- A parser that gives no nodes. -/
abbrev Takes (σ : Placing) (p : Parser α) : Prop := Spans σ p fun _ => []

/-! ## Sequencing -/

theorem Covers.bind (hp : Covers σ lo known p fun hi a => AllFit σ lo hi (N a))
    (hf : ∀ a, Covers σ lo (N a ++ known) (f a) Q) : Covers σ lo known (p >>= f) Q := by
  intro e c b c' hc hlo hknown h
  obtain ⟨a, c₁, hpc, hfc⟩ := bind_ok.1 h
  obtain ⟨hc₁, hlo₁, hlast, ha⟩ := hp hc hlo hknown hpc
  obtain ⟨hc', hlo', hlast', hb⟩ := hf a hc₁ hlo₁
    (Node.allFit_append.2 ⟨ha, hknown.mono .rfl hlast⟩) hfc
  exact ⟨hc', hlo', hlast.trans hlast', hb⟩

/-- A fact about what a parser gives that holds wherever the parser stops. -/
theorem Covers.andThen {P : α → Prop} (hp : Covers σ lo known p fun _ => P)
    (hf : ∀ a, P a → Covers σ lo known (f a) Q) : Covers σ lo known (p >>= f) Q := by
  intro e c b c' hc hlo hknown h
  obtain ⟨a, c₁, hpc, hfc⟩ := bind_ok.1 h
  obtain ⟨hc₁, hlo₁, hlast, ha⟩ := hp hc hlo hknown hpc
  obtain ⟨hc', hlo', hlast', hb⟩ := hf a ha hc₁ hlo₁ (hknown.mono .rfl hlast) hfc
  exact ⟨hc', hlo', hlast.trans hlast', hb⟩

theorem Covers.imp {S : Pos → α → Prop} (hp : Covers σ lo known p R) (h : ∀ hi a, R hi a → S hi a) :
    Covers σ lo known p S := by
  intro e c a c' hc hlo hknown hpc
  obtain ⟨hc', hlo', hlast, ha⟩ := hp hc hlo hknown hpc
  exact ⟨hc', hlo', hlast, h _ a ha⟩

theorem Covers.weaken {known' : List Node} (hp : Covers σ lo known p R)
    (h : ∀ hi, AllFit σ lo hi known' → AllFit σ lo hi known) : Covers σ lo known' p R :=
  fun _ _ _ _ hc hlo hknown hpc => hp hc hlo (h _ hknown) hpc

/-- What is known stays known. -/
theorem Covers.keep (hp : Covers σ lo [] p R) : Covers σ lo known p fun hi a => AllFit σ lo hi known ∧ R hi a := by
  intro e c a c' hc hlo hknown hpc
  obtain ⟨hc', hlo', hlast, ha⟩ := hp hc hlo Node.allFit_nil hpc
  exact ⟨hc', hlo', hlast, hknown.mono .rfl hlast, ha⟩

theorem Covers.pure {a : α} (h : ∀ hi, AllFit σ lo hi known → R hi a) : Covers σ lo known (pure a) R := by
  rintro e c b c' hc hlo hknown ⟨⟩
  exact ⟨hc, hlo, le_refl _, h _ hknown⟩

theorem Spans.covers (hp : Spans σ p N) : Covers σ lo known p fun hi a => AllFit σ lo hi (N a) :=
  fun _ _ _ _ hc hlo _ hpc => hp lo hc hlo Node.allFit_nil hpc

/-- What a parser gives is known from then on. -/
theorem Spans.bind (hp : Spans σ p N) (hf : ∀ a, Covers σ lo (N a ++ known) (f a) Q) :
    Covers σ lo known (p >>= f) Q :=
  hp.covers.bind hf

theorem Takes.skip (hp : Takes σ p) (hf : ∀ a, Covers σ lo known (f a) Q) : Covers σ lo known (p >>= f) Q :=
  hp.covers.bind hf

theorem Spans.present {p : Parser Node} (hp : SpansNode σ p) : Spans σ (some <$> p) Option.toList := fun _ => by
  rw [map_eq_pure_bind]
  exact hp.bind fun _ => .pure fun _ h => by simp_all

theorem Spans.takes (hp : Spans σ p N) : Takes σ p :=
  fun lo => (hp lo).imp fun _ _ _ => Node.allFit_nil

theorem Covers.fail : Covers σ lo known (fail : Parser α) R := by
  rintro e c a c' - - - ⟨⟩

theorem Covers.throw {e : Fault} : Covers σ lo known (throw e : Parser α) R := by
  rintro _ c a c' - - - ⟨⟩

theorem Covers.failed : Covers σ lo known ((Grammar.fail : Parser α) >>= f) Q := by
  rintro e c b c' - - - h
  obtain ⟨a, c₁, ⟨⟩, -⟩ := bind_ok.1 h

theorem Covers.ite {p q : Parser α} {b : Prop} [Decidable b] (hp : Covers σ lo known p R)
    (hq : Covers σ lo known q R) : Covers σ lo known (if b then p else q) R := by
  split
  · exact hp
  · exact hq

/-- Two ways to a value that is used in one way. -/
theorem Covers.bind_ite {p q : Parser α} {b : Prop} [Decidable b]
    (hp : Covers σ lo known p fun hi a => AllFit σ lo hi (N a))
    (hq : Covers σ lo known q fun hi a => AllFit σ lo hi (N a))
    (hf : ∀ a, Covers σ lo (N a ++ known) (f a) Q) :
    Covers σ lo known (if b then p >>= f else q >>= f) Q :=
  .ite (hp.bind hf) (hq.bind hf)

/-! ## Looking ahead -/

theorem Looks.takes (hp : Looks p) : Takes σ p := by
  intro lo e c a c' hc hlo _ h
  obtain rfl := hp h
  exact ⟨hc, hlo, le_refl _, Node.allFit_nil⟩

/-- From the next token on, nothing stands before the start of that token. -/
theorem Covers.here {f : Pos → Parser β}
    (h : ∀ start, σ.Le lo start → Covers σ start [] (f start) fun hi b => AllFit σ lo hi known → Q hi b) :
    Covers σ lo known (here >>= f) Q := by
  intro e c b c' hc hlo hknown hb
  obtain ⟨start, c₁, hstart, hfc⟩ := bind_ok.1 hb
  obtain ⟨rfl, t, rest, hrest, rfl⟩ := here_ok hstart
  have hafter : c₁.StartsAfter σ t.span.start := fun u more hmore => by
    cases hrest.symm.trans hmore
    exact .rfl
  have hlo' := hlo t rest hrest
  obtain ⟨hc', hmove, hlast, hQ⟩ := h _ hlo' hc hafter Node.allFit_nil hfc
  exact ⟨hc', fun u more hmore => hlo'.trans (hmove u more hmore), hlast, hQ (hknown.mono .rfl hlast)⟩

/-- A construct starts where its first token starts. -/
theorem Spans.here {f : Pos → Parser β} {N : β → List Node}
    (h : ∀ start, Covers σ start [] (f start) fun hi b => AllFit σ start hi (N b)) :
    Spans σ (here >>= f) N :=
  fun _ => .here fun start hlo => (h start).imp fun _ _ hb _ => hb.mono hlo (le_refl _)

/-- The place where the last token ends is the one that what was read is related to. -/
theorem Covers.last {f : α → Cursor → Parser β} (hp : Covers σ lo known p R)
    (hf : ∀ a c, R c.last a → Covers σ lo [] (f a c) fun hi b => c.last ≤ hi → Q hi b) :
    Covers σ lo known (do let a ← p; let c ← get; f a c) Q := by
  intro e c b c' hc hlo hknown hb
  obtain ⟨a, c₁, hpc, hb⟩ := bind_ok.1 hb
  obtain ⟨c₂, c₃, hget, hfc⟩ := bind_ok.1 hb
  cases hget
  obtain ⟨hc₁, hlo₁, hlast, ha⟩ := hp hc hlo hknown hpc
  obtain ⟨hc', hlo', hlast', hQ⟩ := hf a c₁ ha hc₁ hlo₁ Node.allFit_nil hfc
  exact ⟨hc', hlo', hlast.trans hlast', hQ hlast'⟩

/-! ## New nodes -/

theorem Covers.newNode {k : Kind} {cs : List Node} {R : Pos → Node → Prop}
    (h : ∀ hi, AllFit σ lo hi known → R hi (.new k ⟨lo, hi⟩ cs)) : Covers σ lo known (node k lo cs) R := by
  rintro e c n c' hc hlo hknown ⟨⟩
  exact ⟨hc, hlo, le_refl _, h _ hknown⟩

/-- A construct that is neither a name nor a formatted text. -/
theorem Covers.node {k : Kind} {cs : List Node} (hk : (k.isName || k.isFormatted) = false)
    (h : ∀ hi, AllFit σ lo hi known → AllFit σ lo hi cs) :
    Covers σ lo known (node k lo cs) fun hi n => AllFit σ lo hi [n] := by
  obtain ⟨hname, hformatted⟩ := Bool.or_eq_false_iff.1 hk
  refine .newNode fun hi hknown => Node.allFit_cons.2 ⟨.new .rfl (by simp [hname]) (le_refl _) ?_, Node.allFit_nil⟩
  rw [Placing.inside_of_not_isFormatted hformatted]
  exact h hi hknown

/-! ## Taking tokens -/

/-- Taking a token moves on to its end, unless it is one of the layout. -/
theorem next_ok {e : Pos} {c c' : Cursor} {t : Token} (hc : c.Ordered σ e) (hlo : c.StartsAfter σ lo)
    (h : next c = .ok (t, c')) :
    c'.Ordered σ e ∧ c'.StartsAfter σ lo ∧ c.last ≤ c'.last ∧ σ.Le lo t.span.start ∧
      (t.isLayout = false → t.span.stop = c'.last) ∧ t.Stands σ := by
  obtain ⟨_ | ⟨u, rest⟩, last, total⟩ := c
  · cases h
  cases h
  have hfirst := hlo t rest rfl
  cases hc with
  | cons hstart ht hstop hstands hrest =>
    have hlast : last ≤ if t.isLayout then last else t.span.stop := by
      split
      · exact le_refl _
      · exact hstop
    refine ⟨?_, fun u more hmore => ?_, hlast, hfirst, fun hlayout => by simp [hlayout], hstands⟩
    · refine hrest.mono ?_
      split
      · exact hstop
      · exact le_refl _
    · obtain rfl : rest = u :: more := hmore
      cases hrest with
      | cons hnext => exact hfirst.trans (ht.trans hnext)

/-- The token that is seen is the one that is taken. -/
theorem peek_next {c c' : Cursor} {t u : Token} (hpeek : peek c = .ok (t, c)) (hnext : next c = .ok (u, c')) :
    u = t := by
  obtain ⟨_ | ⟨v, rest⟩, last, total⟩ := c
  · cases hnext
  · cases hpeek
    cases hnext
    rfl

theorem expectKind_ok {kind : TokenKind} {c c' : Cursor} {t : Token} (h : expectKind kind c = .ok (t, c')) :
    next c = .ok (t, c') ∧ t.kind = kind := by
  obtain ⟨u, c₁, hpeek, htaken⟩ := bind_ok.1 h
  obtain rfl := looks_peek hpeek
  split at htaken
  · next hu =>
    obtain rfl := peek_next hpeek htaken
    exact ⟨htaken, hu⟩
  · cases htaken

theorem identifier_ok {c c' : Cursor} {id : Identifier} (h : identifier c = .ok (id, c')) :
    ∃ t rest, c.rest = t :: rest ∧ next c = .ok (t, c') ∧ t.kind = .name := by
  obtain ⟨t, c₁, htoken, hid⟩ := bind_ok.1 h
  obtain ⟨hnext, hk⟩ := expectKind_ok htoken
  have hc₁ : c₁ = c' := by
    generalize Identifier.ofText? _ = name at hid
    cases name <;> cases hid
    rfl
  obtain ⟨_ | ⟨u, rest⟩, last, total⟩ := c
  · cases hnext
  · obtain rfl := hc₁
    cases hnext
    exact ⟨t, rest, rfl, rfl, hk⟩

theorem takes_next : Takes σ next := by
  intro lo e c t c' hc hlo _ h
  obtain ⟨hc', hlo', hlast, -⟩ := next_ok hc hlo h
  exact ⟨hc', hlo', hlast, Node.allFit_nil⟩

theorem takes_accept (text : String) : Takes σ (accept text) := fun _ =>
  (looks_sees text).takes.skip fun _ =>
    .ite (takes_next.skip fun _ => .pure fun _ _ => Node.allFit_nil) (.pure fun _ _ => Node.allFit_nil)

theorem takes_acceptWhen (allowed : Bool) (text : String) : Takes σ (acceptWhen allowed text) := fun lo =>
  .ite (takes_accept text lo) (.pure fun _ _ => Node.allFit_nil)

theorem takes_acceptAny (texts : List String) : Takes σ (acceptAny texts) := fun _ =>
  looks_peek.takes.skip fun _ =>
    .ite (takes_next.skip fun _ => .pure fun _ _ => Node.allFit_nil) (.pure fun _ _ => Node.allFit_nil)

theorem takes_expect (text : String) : Takes σ (expect text) := fun _ =>
  (takes_accept text).skip fun _ => .ite (.pure fun _ _ => Node.allFit_nil) .fail

theorem takes_expectKind (kind : TokenKind) : Takes σ (expectKind kind) := fun lo =>
  looks_peek.takes.skip fun _ => .ite (takes_next lo) .fail

theorem takes_identifier : Takes σ identifier := fun _ =>
  (takes_expectKind .name).skip fun _ => by
    split
    · exact .pure fun _ _ => Node.allFit_nil
    · exact .fail

theorem takes_nameText : Takes σ nameText := fun _ =>
  takes_identifier.skip fun _ => .pure fun _ _ => Node.allFit_nil

/-! ## Repetition -/

/-- What holds of what each round of a repetition gives, and goes on to hold, holds of all of it. -/
theorem Covers.manyOf {step : Parser (Option α)} (hR : ∀ {hi hi' a}, hi ≤ hi' → R hi a → R hi' a)
    (hstep : Covers σ lo [] step fun hi o => ∀ a ∈ o, R hi a) :
    Covers σ lo known (many step) fun hi as => ∀ a ∈ as, R hi a := by
  have rounds : ∀ (n : Nat) (done : List α) {e c as c'}, c.Ordered σ e → c.StartsAfter σ lo →
      (∀ a ∈ done, R c.last a) → repeatFor step n done c = .ok (as, c') →
        c'.Ordered σ e ∧ c'.StartsAfter σ lo ∧ c.last ≤ c'.last ∧ ∀ a ∈ as, R c'.last a := by
    intro n
    induction n with
    | zero =>
      rintro done e c as c' hc hlo hdone ⟨⟩
      exact ⟨hc, hlo, le_refl _, by simpa using hdone⟩
    | succ n ih =>
      intro done e c as c' hc hlo hdone h
      obtain ⟨o, c₁, ho, h⟩ := bind_ok.1 h
      obtain ⟨hc₁, hlo₁, hlast, hR₁⟩ := hstep hc hlo Node.allFit_nil ho
      have hdone₁ : ∀ a ∈ done, R c₁.last a := fun a ha => hR hlast (hdone a ha)
      cases o with
      | none =>
        cases h
        exact ⟨hc₁, hlo₁, hlast, by simpa using hdone₁⟩
      | some a =>
        obtain ⟨hc', hlo', hlast', has⟩ :=
          ih (a :: done) hc₁ hlo₁ (List.forall_mem_cons.2 ⟨hR₁ a rfl, hdone₁⟩) h
        exact ⟨hc', hlo', hlast.trans hlast', has⟩
  refine looks_get.takes.skip fun start => ?_
  intro e c as c' hc hlo _ h
  exact rounds start.total [] hc hlo nofun h

/-- What the rounds of a repetition give. -/
theorem Covers.many {step : Parser (Option α)}
    (hstep : Covers σ lo [] step fun hi o => AllFit σ lo hi (o.toList.flatMap N)) :
    Covers σ lo known (many step) fun hi as => AllFit σ lo hi (as.flatMap N) := by
  refine (Covers.manyOf (R := fun hi a => AllFit σ lo hi (N a)) (fun hhi h => h.mono .rfl hhi) ?_).imp
    fun _ _ h => Node.allFit_flatMap.2 h
  exact hstep.imp fun _ _ h a ha => Node.allFit_flatMap.1 h a (Option.mem_toList.2 ha)

theorem Covers.extendFor {step : α → Parser (Option α)}
    (hstep : ∀ a, Covers σ lo (N a) (step a) fun hi o => AllFit σ lo hi (o.toList.flatMap N)) :
    ∀ (n : Nat) (a : α), Covers σ lo (N a) (extendFor step n a) fun hi b => AllFit σ lo hi (N b) := by
  intro n
  induction n with
  | zero => exact fun a => .pure fun hi h => h
  | succ n ih =>
    intro a
    refine (hstep a).bind fun o => ?_
    cases o with
    | none => exact .pure fun hi h => by simp_all
    | some b => exact (ih b).weaken fun hi h => by simp_all

/-- A value that is extended step by step, each time by more nodes. -/
theorem Covers.extend {step : α → Parser (Option α)} {a : α}
    (hstep : ∀ a, Covers σ lo (N a) (step a) fun hi o => AllFit σ lo hi (o.toList.flatMap N))
    (ha : ∀ hi, AllFit σ lo hi known → AllFit σ lo hi (N a)) :
    Covers σ lo known (extend step a) fun hi b => AllFit σ lo hi (N b) :=
  looks_get.takes.skip fun c => (Covers.extendFor hstep c.total a).weaken ha

/-- Items as long as a test says that one more comes. -/
theorem Spans.manyWhen {test : Parser Bool} {item : Parser α} (htest : Takes σ test) (hitem : Spans σ item N) :
    Spans σ (many do if ← test then return some (← item) else return none) fun as => as.flatMap N :=
  fun _ => .many <| htest.skip fun _ => .ite (hitem.bind fun _ => .pure fun _ h => by simpa using h)
    (.pure fun _ _ => by simp)

theorem Spans.afterCommas {mayStart : Token → Bool} {item : Parser α} (hitem : Spans σ item N) :
    Spans σ (afterCommas mayStart item) fun x => x.1.flatMap N := by
  intro lo
  refine Covers.bind (.many <| (looks_sees ",").takes.skip fun _ => looks_peekSecond.takes.skip fun _ =>
    .ite ((takes_expect ",").skip fun _ => hitem.bind fun _ => .pure fun _ h => by simpa using h)
      (.pure fun _ _ => by simp)) fun items => ?_
  exact (takes_accept ",").skip fun _ => .pure fun _ h => by simpa using h

/-- A loop over a list keeps what each round keeps. -/
theorem Covers.forIn {Q : β → Prop} {step : α → β → Parser (ForInStep β)} : ∀ {as : List α} {b : β}, Q b →
    (∀ a ∈ as, ∀ b, Q b → Covers σ lo known (step a b) fun _ r => ∀ b', r = .yield b' ∨ r = .done b' → Q b') →
    Covers σ lo known (forIn as b step) fun _ => Q
  | [], b, hb, _ => .pure fun _ _ => hb
  | a :: as, b, hb, hstep => by
    rw [List.forIn_cons]
    refine (hstep a List.mem_cons_self b hb).andThen fun r hr => ?_
    cases r with
    | done b' => exact .pure fun _ _ => hr b' (.inr rfl)
    | yield b' => exact Covers.forIn (hr b' (.inl rfl)) fun a ha => hstep a (List.mem_cons_of_mem _ ha)

theorem Spans.attempt (hp : Spans σ p N) : Spans σ (attempt p) fun o => o.toList.flatMap N := by
  intro lo e c o c' hc hlo hknown h
  unfold Grammar.attempt at h
  split at h
  · next a c₁ hpc =>
    cases h
    obtain ⟨hc', hlo', hlast, ha⟩ := hp lo hc hlo hknown hpc
    exact ⟨hc', hlo', hlast, by simpa using ha⟩
  · cases h
    exact ⟨hc, hlo, le_refl _, by simp⟩
  · cases h

end Grammar

end EffectGraph
