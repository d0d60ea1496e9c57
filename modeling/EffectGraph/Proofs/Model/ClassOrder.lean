/-
The order in which a search goes through base classes.

A search through classes works on a stack: it takes the class on top, leaves it
out if it has been there, and puts the base classes of the class on top. A
class can stand on the stack many times. `DepthFirst` is the recursion behind
it, without a stack and without a bound: each class before its base classes,
and these before the next class. The search looks at the classes in just this
order (`searchClasses_of_depthFirst`), and the recursion ends on every project,
whatever cycles its classes have (`exists_depthFirst`).
-/
import EffectGraph.Proofs.Graph.Calls
import EffectGraph.Proofs.Model.Abort
import Mathlib.Logic.Relation

namespace EffectGraph

/-- Goes through classes from the left, each before its base classes, and past all that were met
before. Tells the classes in the order in which they are met, and how the walk ends: it breaks off at
a class whose base classes cannot be told. -/
inductive DepthFirst (bases : Definition → Analysis (List Definition)) :
    List Definition → List Definition → List Definition → Analysis Unit → Prop
  | done {seen : List Definition} : DepthFirst bases seen [] [] (.ok ())
  | again {seen : List Definition} {c : Definition} {cs order : List Definition} {ending : Analysis Unit} :
      c ∈ seen → DepthFirst bases seen cs order ending → DepthFirst bases seen (c :: cs) order ending
  | stuck {seen : List Definition} {c : Definition} {cs : List Definition} {e : Abort} :
      c ∉ seen → bases c = .error e → DepthFirst bases seen (c :: cs) [c] (.error e)
  | stuckBelow {seen : List Definition} {c : Definition} {cs bs below : List Definition} {e : Abort} :
      c ∉ seen → bases c = .ok bs → DepthFirst bases (c :: seen) bs below (.error e) →
      DepthFirst bases seen (c :: cs) (c :: below) (.error e)
  | visit {seen : List Definition} {c : Definition} {cs bs below after : List Definition}
      {ending : Analysis Unit} :
      c ∉ seen → bases c = .ok bs → DepthFirst bases (c :: seen) bs below (.ok ()) →
      DepthFirst bases (below.reverse ++ c :: seen) cs after ending →
      DepthFirst bases seen (c :: cs) (c :: (below ++ after)) ending

/-- Looks for something in one class after another. Past the last one it goes on as told. -/
def firstAmong {α : Type} (find : Definition → Analysis (Option α)) (rest : Analysis (Option α)) :
    List Definition → Analysis (Option α)
  | [] => rest
  | c :: cs => do
    match ← find c with
    | some a => return some a
    | none => firstAmong find rest cs

theorem firstAmong_append {α : Type} (find : Definition → Analysis (Option α))
    (rest : Analysis (Option α)) (cs ds : List Definition) :
    firstAmong find rest (cs ++ ds) = firstAmong find (firstAmong find rest ds) cs := by
  induction cs with
  | nil => rfl
  | cons c cs ih => rw [List.cons_append, firstAmong, firstAmong, ih]

/-! ## What a walk meets -/

namespace DepthFirst

variable {bases : Definition → Analysis (List Definition)} {seen cs order : List Definition}
  {ending : Analysis Unit}

/-- Everything that a walk meets is new. -/
theorem fresh (h : DepthFirst bases seen cs order ending) : ∀ d ∈ order, d ∉ seen := by
  induction h with
  | done => simp
  | again _ _ ih => exact ih
  | stuck hc _ => simpa using hc
  | stuckBelow hc _ _ ih =>
    rw [List.forall_mem_cons]
    exact ⟨hc, fun d hd hs => ih d hd (List.mem_cons_of_mem _ hs)⟩
  | visit hc _ _ _ ihbelow ihafter =>
    rw [List.forall_mem_cons, List.forall_mem_append]
    refine ⟨hc, fun d hd hs => ihbelow d hd (List.mem_cons_of_mem _ hs), fun d hd hs => ?_⟩
    exact ihafter d hd (List.mem_append_right _ (List.mem_cons_of_mem _ hs))

/-- A walk meets each class once. -/
theorem nodup (h : DepthFirst bases seen cs order ending) : order.Nodup := by
  induction h with
  | done => exact List.nodup_nil
  | again _ _ ih => exact ih
  | stuck _ _ => exact List.nodup_singleton _
  | stuckBelow _ _ hbelow ih =>
    exact List.nodup_cons.2 ⟨fun hc => hbelow.fresh _ hc List.mem_cons_self, ih⟩
  | visit _ _ hbelow hafter ihbelow ihafter =>
    rw [List.nodup_cons, List.mem_append, List.nodup_append]
    refine ⟨?_, ihbelow, ihafter, fun d hd d' hd' he => ?_⟩
    · rintro (hc | hc)
      · exact hbelow.fresh _ hc List.mem_cons_self
      · exact hafter.fresh _ hc (List.mem_append_right _ List.mem_cons_self)
    · exact hafter.fresh d' hd' (List.mem_append_left _ (List.mem_reverse.2 (he ▸ hd)))

/-- A walk meets only what base classes lead to. -/
theorem sound {R : Definition → Definition → Prop}
    (hR : ∀ {c bs}, bases c = .ok bs → ∀ b ∈ bs, R c b) (h : DepthFirst bases seen cs order ending) :
    ∀ d ∈ order, ∃ c ∈ cs, Relation.ReflTransGen R c d := by
  induction h with
  | done => simp
  | again _ _ ih =>
    intro d hd
    obtain ⟨c, hc, hcd⟩ := ih d hd
    exact ⟨c, List.mem_cons_of_mem _ hc, hcd⟩
  | stuck _ _ =>
    intro d hd
    exact ⟨d, List.mem_singleton.1 hd ▸ List.mem_cons_self, .refl⟩
  | stuckBelow _ hbs _ ih =>
    rw [List.forall_mem_cons]
    refine ⟨⟨_, List.mem_cons_self, .refl⟩, fun d hd => ?_⟩
    obtain ⟨b, hb, hbd⟩ := ih d hd
    exact ⟨_, List.mem_cons_self, .head (hR hbs b hb) hbd⟩
  | visit _ hbs _ _ ihbelow ihafter =>
    rw [List.forall_mem_cons, List.forall_mem_append]
    refine ⟨⟨_, List.mem_cons_self, .refl⟩, fun d hd => ?_, fun d hd => ?_⟩
    · obtain ⟨b, hb, hbd⟩ := ihbelow d hd
      exact ⟨_, List.mem_cons_self, .head (hR hbs b hb) hbd⟩
    · obtain ⟨c, hc, hcd⟩ := ihafter d hd
      exact ⟨c, List.mem_cons_of_mem _ hc, hcd⟩

/-- A walk that does not break off has met all its classes, and the base classes of all it has met. -/
theorem closed (h : DepthFirst bases seen cs order ending) (hending : ending = .ok ()) :
    (∀ c ∈ cs, c ∈ order ∨ c ∈ seen) ∧
      ∀ d ∈ order, ∃ bs, bases d = .ok bs ∧ ∀ b ∈ bs, b ∈ order ∨ b ∈ seen := by
  induction h with
  | done => simp
  | again hc _ ih =>
    obtain ⟨hcs, horder⟩ := ih hending
    exact ⟨List.forall_mem_cons.2 ⟨.inr hc, hcs⟩, horder⟩
  | stuck | stuckBelow => cases hending
  | @visit seen c cs bs below after ending hc hbs _ _ ihbelow ihafter =>
    obtain ⟨hbase, hbelow⟩ := ihbelow rfl
    obtain ⟨hcs, hafter⟩ := ihafter hending
    -- What was seen on the way down or before is met by the whole walk, or was seen before it.
    have hdown : ∀ {b}, b ∈ below ∨ b ∈ c :: seen → b ∈ c :: (below ++ after) ∨ b ∈ seen := by
      intro b hb
      simp only [List.mem_cons, List.mem_append] at hb ⊢
      tauto
    have hnext : ∀ {b}, b ∈ after ∨ b ∈ below.reverse ++ c :: seen →
        b ∈ c :: (below ++ after) ∨ b ∈ seen := by
      intro b hb
      simp only [List.mem_cons, List.mem_append, List.mem_reverse] at hb ⊢
      tauto
    refine ⟨List.forall_mem_cons.2 ⟨.inl List.mem_cons_self, fun d hd => hnext (hcs d hd)⟩, ?_⟩
    rw [List.forall_mem_cons, List.forall_mem_append]
    refine ⟨⟨bs, hbs, fun b hb => hdown (hbase b hb)⟩, fun d hd => ?_, fun d hd => ?_⟩
    · obtain ⟨ds, hds, hmem⟩ := hbelow d hd
      exact ⟨ds, hds, fun b hb => hdown (hmem b hb)⟩
    · obtain ⟨ds, hds, hmem⟩ := hafter d hd
      exact ⟨ds, hds, fun b hb => hnext (hmem b hb)⟩

/-- A walk that breaks off does so at the last class it has met. -/
theorem getLast?_of_error (h : DepthFirst bases seen cs order ending) {e : Abort}
    (hending : ending = .error e) : ∃ last, order.getLast? = some last ∧ bases last = .error e := by
  induction h with
  | done => cases hending
  | again _ _ ih => exact ih hending
  | stuck _ he =>
    cases hending
    exact ⟨_, rfl, he⟩
  | stuckBelow _ _ _ ih =>
    obtain ⟨last, hlast, he⟩ := ih hending
    exact ⟨last, by rw [List.getLast?_cons, hlast, Option.getD_some], he⟩
  | visit _ _ _ _ _ ihafter =>
    obtain ⟨last, hlast, he⟩ := ihafter hending
    exact ⟨last, by rw [List.getLast?_cons, List.getLast?_append, hlast]; rfl, he⟩

/-- A walk from one class meets that class first. -/
theorem head?_eq {c : Definition} (h : DepthFirst bases [] [c] order ending) : order.head? = some c := by
  cases h with
  | again hc => cases hc
  | stuck | stuckBelow | visit => rfl

end DepthFirst

/-! ## The search -/

namespace Project

variable {P : Project} {c : Definition} {stack seen bs : List Definition} {n : Nat}

/-- A search at work: the classes on its stack and those it has met are of the project, and it has
steps enough for the stack and for what can still come onto it. -/
structure Ready (P : Project) (stack seen : List Definition) (n : Nat) : Prop where
  onStack : ∀ d ∈ stack, P.Holds d
  met : ∀ d ∈ seen, P.Holds d
  enough : stack.length + P.unexpanded seen < n

namespace Ready

theorem exists_succ (h : P.Ready stack seen n) : ∃ k, n = k + 1 :=
  Nat.exists_eq_succ_of_ne_zero (Nat.ne_zero_of_lt h.enough)

theorem mono {m : Nat} (h : P.Ready stack seen n) (hn : n ≤ m) : P.Ready stack seen m :=
  ⟨h.onStack, h.met, Nat.lt_of_lt_of_le h.enough hn⟩

theorem left {cs : List Definition} (h : P.Ready (cs ++ stack) seen n) : P.Ready cs seen n := by
  refine ⟨(List.forall_mem_append.1 h.onStack).1, h.met, ?_⟩
  have henough := h.enough
  rw [List.length_append] at henough
  omega

/-- What is met on the way leaves fewer classes to come. -/
theorem after {cs met : List Definition} (h : P.Ready (cs ++ stack) seen n) (hmet : ∀ d ∈ met, P.Holds d) :
    P.Ready stack (met ++ seen) n := by
  refine ⟨(List.forall_mem_append.1 h.onStack).2, List.forall_mem_append.2 ⟨hmet, h.met⟩, ?_⟩
  have henough := h.enough
  have hfewer := unexpanded_append_le (P := P) met seen
  rw [List.length_append] at henough
  omega

theorem again (h : P.Ready (c :: stack) seen (n + 1)) : P.Ready stack seen n := by
  refine ⟨(List.forall_mem_cons.1 h.onStack).2, h.met, ?_⟩
  have henough := h.enough
  rw [List.length_cons] at henough
  omega

/-- A class that was met is told by its place. -/
theorem any_same_iff (h : P.Ready (c :: stack) seen n) : seen.any c.same = true ↔ c ∈ seen := by
  rw [List.any_eq_true]
  constructor
  · rintro ⟨d, hd, hsame⟩
    rwa [(h.onStack c List.mem_cons_self).eq_of_same (h.met d hd) hsame]
  · exact fun hc => ⟨c, hc, Definition.same_iff.2 ⟨rfl, rfl⟩⟩

theorem any_same_eq_false (h : P.Ready (c :: stack) seen n) (hmem : c ∉ seen) :
    seen.any c.same = false := by
  rwa [← Bool.not_eq_true, h.any_same_iff]

end Ready

section Search

variable {bases : Definition → Analysis (List Definition)}
  (hbases : ∀ {c bs}, P.Holds c → bases c = .ok bs → bs.length ≤ baseCount c ∧ ∀ b ∈ bs, P.Holds b)

include hbases

theorem Ready.visit (h : P.Ready (c :: stack) seen (n + 1)) (hmem : c ∉ seen) (hbs : bases c = .ok bs) :
    P.Ready (bs ++ stack) (c :: seen) n := by
  obtain ⟨hc, hstack⟩ := List.forall_mem_cons.1 h.onStack
  obtain ⟨hlength, hholds⟩ := hbases hc hbs
  refine ⟨List.forall_mem_append.2 ⟨hholds, hstack⟩, List.forall_mem_cons.2 ⟨hc, h.met⟩, ?_⟩
  have henough := h.enough
  have hless := unexpanded_cons hc (h.any_same_eq_false hmem)
  rw [List.length_cons] at henough
  rw [List.length_append]
  omega

theorem holds_of_depthFirst {cs order : List Definition} {ending : Analysis Unit}
    (h : DepthFirst bases seen cs order ending) (hcs : ∀ c ∈ cs, P.Holds c) : ∀ d ∈ order, P.Holds d := by
  intro d hd
  obtain ⟨c, hc, hcd⟩ := h.sound (R := fun c b => P.Holds c → P.Holds b)
    (fun hbs b hb hc => (hbases hc hbs).2 b hb) d hd
  have hholds := hcs c hc
  clear hd
  induction hcd with
  | refl => exact hholds
  | tail _ hstep ih => exact hstep ih

/-- What a search has still to do after the base classes of a class. -/
theorem Ready.next {below : List Definition} (h : P.Ready (bs ++ stack) (c :: seen) n)
    (hbelow : DepthFirst bases (c :: seen) bs below (.ok ())) :
    P.Ready stack (below.reverse ++ c :: seen) n := by
  refine h.after fun d hd => ?_
  exact holds_of_depthFirst hbases hbelow h.left.onStack d (List.mem_reverse.1 hd)

/-- The walk comes to its end, since the steps that are enough for a search get fewer. -/
theorem exists_depthFirst (n : Nat) : ∀ {cs seen : List Definition}, P.Ready cs seen n →
    ∃ order ending, DepthFirst bases seen cs order ending := by
  induction n with
  | zero => exact fun h => absurd h.enough (Nat.not_lt_zero _)
  | succ n ih =>
    intro cs seen h
    cases cs with
    | nil => exact ⟨[], .ok (), .done⟩
    | cons c cs =>
      by_cases hmem : c ∈ seen
      · obtain ⟨order, ending, hrest⟩ := ih h.again
        exact ⟨order, ending, .again hmem hrest⟩
      cases hbs : bases c with
      | error e => exact ⟨[c], .error e, .stuck hmem hbs⟩
      | ok bs =>
        have hdown := h.visit hbases hmem hbs
        obtain ⟨below, ending, hbelow⟩ := ih hdown.left
        cases ending with
        | error e => exact ⟨c :: below, .error e, .stuckBelow hmem hbs hbelow⟩
        | ok u =>
          obtain ⟨after, ending, hafter⟩ := ih (hdown.next hbases hbelow)
          exact ⟨c :: (below ++ after), ending, .visit hmem hbs hbelow hafter⟩

variable {α : Type} {find : Definition → Analysis (Option α)}

theorem Ready.searchClasses_eq {m : Nat} (h : P.Ready stack seen n) (hn : n ≤ m) :
    searchClasses bases find m stack seen = searchClasses bases find n stack seen :=
  searchClasses_eq_of_le hbases h.onStack h.enough hn

omit hbases in
theorem searchClasses_nil (n : Nat) (seen : List Definition) :
    searchClasses bases find n [] seen = .ok none := by
  cases n <;> rfl

/-- A class that was met before is taken from the stack, and nothing else happens. -/
theorem searchClasses_again (h : P.Ready (c :: stack) seen n) (hmem : c ∈ seen) :
    searchClasses bases find n (c :: stack) seen = searchClasses bases find n stack seen := by
  obtain ⟨k, rfl⟩ := h.exists_succ
  rw [searchClasses, if_pos (h.any_same_iff.2 hmem)]
  exact (h.again.searchClasses_eq hbases (Nat.le_add_right k 1)).symm

/-- A new class is looked at, and then its base classes are on top. -/
theorem searchClasses_visit (h : P.Ready (c :: stack) seen n) (hmem : c ∉ seen) :
    searchClasses bases find n (c :: stack) seen =
      firstAmong find (bases c >>= fun bs => searchClasses bases find n (bs ++ stack) (c :: seen)) [c] := by
  obtain ⟨k, rfl⟩ := h.exists_succ
  rw [searchClasses, h.any_same_eq_false hmem, if_neg Bool.false_ne_true, firstAmong, firstAmong]
  refine congrArg _ (funext fun found => ?_)
  cases found with
  | some a => rfl
  | none =>
    cases hbs : bases c with
    | error e => rfl
    | ok bs => exact ((h.visit hbases hmem hbs).searchClasses_eq hbases (Nat.le_add_right k 1)).symm

/-- The search looks at the classes in the order of the walk, and then goes on with the stack. -/
theorem searchClasses_of_depthFirst {cs order : List Definition} {ending : Analysis Unit}
    (h : DepthFirst bases seen cs order ending) :
    ∀ {stack : List Definition} {n : Nat}, P.Ready (cs ++ stack) seen n →
      searchClasses bases find n (cs ++ stack) seen =
        firstAmong find (ending >>= fun _ => searchClasses bases find n stack (order.reverse ++ seen))
          order := by
  induction h with
  | done => exact fun _ => rfl
  | again hmem _ ih =>
    intro stack n hready
    obtain ⟨k, rfl⟩ := hready.exists_succ
    rw [List.cons_append] at hready ⊢
    rw [searchClasses_again hbases hready hmem]
    exact ih (hready.again.mono (Nat.le_add_right k 1))
  | stuck hmem he =>
    intro stack n hready
    rw [List.cons_append] at hready ⊢
    rw [searchClasses_visit hbases hready hmem, he]
    rfl
  | @stuckBelow seen c cs bs below e hmem hbs _ ih =>
    intro stack n hready
    obtain ⟨k, rfl⟩ := hready.exists_succ
    rw [List.cons_append] at hready ⊢
    have hdown := ih ((hready.visit hbases hmem hbs).mono (Nat.le_add_right k 1))
    rw [searchClasses_visit hbases hready hmem, hbs]
    exact congrArg (firstAmong find · [c]) hdown
  | @visit seen c cs bs below after ending hmem hbs hbelow _ ihbelow ihafter =>
    intro stack n hready
    obtain ⟨k, rfl⟩ := hready.exists_succ
    rw [List.cons_append] at hready ⊢
    have hbelow' := (hready.visit hbases hmem hbs).mono (Nat.le_add_right k 1)
    have hdown := ihbelow hbelow'
    have hnext := ihafter (hbelow'.next hbases hbelow)
    rw [searchClasses_visit hbases hready hmem, hbs]
    calc firstAmong find (searchClasses bases find (k + 1) (bs ++ (cs ++ stack)) (c :: seen)) [c]
        = firstAmong find (firstAmong find
            (searchClasses bases find (k + 1) (cs ++ stack) (below.reverse ++ c :: seen)) below) [c] := by
          rw [hdown]
          rfl
      _ = firstAmong find (ending >>= fun _ => searchClasses bases find (k + 1) stack
            (after.reverse ++ (below.reverse ++ c :: seen))) (c :: (below ++ after)) := by
          rw [hnext, ← firstAmong_append, ← firstAmong_append, List.singleton_append, List.cons_append]
      _ = _ := by
          rw [List.reverse_cons, List.reverse_append, List.append_assoc, List.append_assoc,
            List.singleton_append]

end Search

/-! ## Base classes of a project -/

/-- A class lists another one: one of its base expressions denotes it, as far as a number of steps
tells. -/
def ListsBase (P : Project) (n : Nat) (c d : Definition) : Prop :=
  ∃ chain, P.chainOf? c.file c.node.index = some chain ∧ ∃ b ∈ c.node.parts .base,
    (P.resolver n).expression (.ofNode b) ⟨c.file, chain⟩ = .ok (some (.classObject d))

/-- Asking for what a base expression of a class denotes breaks off. -/
def BreaksAtBase (P : Project) (n : Nat) (c : Definition) (e : Abort) : Prop :=
  ∃ chain, P.chainOf? c.file c.node.index = some chain ∧ ∃ b ∈ c.node.parts .base,
    (P.resolver n).expression (.ofNode b) ⟨c.file, chain⟩ = .error e

/-- Where all base expressions of a class can be told, its base classes are those it lists. -/
theorem mem_bases_iff {n : Nat} {c : Definition} {bs : List Definition}
    (h : (P.resolver (n + 1)).bases c = .ok bs) (d : Definition) : d ∈ bs ↔ P.ListsBase n c d := by
  change Step.bases P (P.resolver n) c = .ok bs at h
  unfold Step.bases at h
  unfold ListsBase
  cases hchain : P.chainOf? c.file c.node.index with
  | none =>
    rw [hchain] at h
    cases h
    simp
  | some chain =>
    rw [hchain] at h
    obtain ⟨values, hvalues, h⟩ := Analysis.bind_eq_ok.1 h
    cases h
    have hvalues := Analysis.mapM_eq_ok.1 hvalues
    rw [List.mem_filterMap]
    constructor
    · rintro ⟨value, hvalue, he⟩
      obtain ⟨b, hb, hexpression⟩ := exists_of_mem_right hvalues hvalue
      cases value with
      | none => cases he
      | some v =>
        cases v with
        | classObject k =>
          cases he
          exact ⟨chain, rfl, b, hb, hexpression⟩
        | module | function | instanceOf | external | awaitable => cases he
    · rintro ⟨_, hc, b, hb, hexpression⟩
      cases hc
      obtain ⟨value, hvalue, he⟩ := exists_of_mem_left hvalues hb
      exact ⟨value, hvalue, by rw [Except.ok.inj (he.symm.trans hexpression)]⟩

theorem breaksAtBase_of_error {n : Nat} {c : Definition} {e : Abort}
    (h : (P.resolver (n + 1)).bases c = .error e) : P.BreaksAtBase n c e := by
  change Step.bases P (P.resolver n) c = .error e at h
  unfold Step.bases at h
  cases hchain : P.chainOf? c.file c.node.index with
  | none =>
    rw [hchain] at h
    cases h
  | some chain =>
    rw [hchain] at h
    have haborts : Analysis.AbortsBy (fun e => ∃ b ∈ c.node.parts .base,
        (P.resolver n).expression (.ofNode b) ⟨c.file, chain⟩ = .error e)
        ((c.node.parts .base).mapM fun b => (P.resolver n).expression (.ofNode b) ⟨c.file, chain⟩) :=
      .mapM fun b hb e he => ⟨b, hb, he⟩
    exact ⟨chain, hchain, (haborts.bind fun _ _ => .ok _) e h⟩

/-- **Base classes are searched depth first.** Starting from any class of a project, whatever cycles
and shared base classes there are, the walk through base classes comes to an end. It meets the class
first and each class once, only classes that base expressions lead to, and all of them unless it breaks
off. It breaks off only at a base expression whose value hangs on a declared type that cannot be read.
A search with the bound of the project, or with more, looks at the classes in the order of the walk. -/
theorem searchClasses_depthFirst (hP : P.WasRead) {c : Definition} (hc : P.Holds c) (n : Nat) :
    ∃ order ending, DepthFirst (P.resolver (n + 1)).bases [] [c] order ending ∧
      order.head? = some c ∧ order.Nodup ∧
      (∀ d ∈ order, Relation.ReflTransGen (P.ListsBase n) c d) ∧
      (ending = .ok () → ∀ d, Relation.ReflTransGen (P.ListsBase n) c d → d ∈ order) ∧
      (∀ e, ending = .error e → P.Blames e ∧
        ∃ last, order.getLast? = some last ∧ P.BreaksAtBase n last e) ∧
      ∀ {α : Type} (find : Definition → Analysis (Option α)) {m : Nat}, P.searchBound ≤ m →
        searchClasses (P.resolver (n + 1)).bases find m [c] [] =
          firstAmong find (ending >>= fun _ => .ok none) order := by
  have hagrees := Embedding.resolver_agrees (Embedding.refl hP.sources.1) (n + 1)
  have hclass : ∀ d ∈ [c], P.Holds d := List.forall_mem_singleton.2 hc
  have hready : P.Ready [c] [] P.searchBound := by
    have hunexpanded := hP.sources.1.size_eq ▸ unexpanded_nil_le (P := P)
    refine ⟨hclass, List.forall_mem_nil _, ?_⟩
    rw [List.length_singleton, searchBound]
    omega
  obtain ⟨order, ending, h⟩ := exists_depthFirst hagrees.holds_of_bases _ hready
  refine ⟨order, ending, h, h.head?_eq, h.nodup, ?_, ?_, ?_, ?_⟩
  · intro d hd
    obtain ⟨c', hc', hreach⟩ := h.sound (fun hbs b hb => (mem_bases_iff hbs b).1 hb) d hd
    rwa [List.mem_singleton.1 hc'] at hreach
  · intro hending d hd
    obtain ⟨hstart, hclosed⟩ := h.closed hending
    induction hd with
    | refl => simpa using hstart c (List.mem_singleton_self c)
    | tail _ hlists ih =>
      obtain ⟨bs, hbs, hmem⟩ := hclosed _ ih
      simpa using hmem _ ((mem_bases_iff hbs _).2 hlists)
  · intro e hending
    obtain ⟨last, hlast, he⟩ := h.getLast?_of_error hending
    have hholds := holds_of_depthFirst hagrees.holds_of_bases h hclass last (List.mem_of_getLast? hlast)
    exact ⟨(resolver_careful hP (n + 1)).bases hholds e he, last, hlast, breaksAtBase_of_error he⟩
  · intro α find m hm
    have hsearch : searchClasses (P.resolver (n + 1)).bases find m ([c] ++ []) [] =
        firstAmong find (ending >>= fun _ =>
          searchClasses (P.resolver (n + 1)).bases find m [] (order.reverse ++ [])) order :=
      searchClasses_of_depthFirst hagrees.holds_of_bases h (hready.mono hm)
    rwa [List.append_nil, searchClasses_nil] at hsearch

/-- Whether a construct is the class with a name. -/
def isClass (name : String) (d : Definition) : Bool :=
  match d.node.kind with
  | .classDef id => id.text == name
  | _ => false

/-- Classes in a cycle, one of which is reached by two ways. -/
def cyclicTexts : List (String × String) :=
  [("m.py", "class D:\n    pass\nclass B(D):\n    pass\nclass C(D, A):\n    pass\n" ++
    "class A(B, C):\n    pass\n")]

theorem searchClasses_depthFirst_cycle :
    ∃ P c, ofTexts cyclicTexts [] = .ok P ∧ P.Holds c ∧ isClass "A" c = true ∧
      ∃ order ending, DepthFirst (P.resolver maxSteps).bases [] [c] order ending ∧
        order.head? = some c ∧ order.Nodup ∧
        firstAmong (fun k => .ok (["C", "D"].find? (isClass · k))) (ending >>= fun _ => .ok none) order =
          .ok (some "D") ∧
        firstAmong (fun k => .ok (["C"].find? (isClass · k))) (ending >>= fun _ => .ok none) order =
          .ok (some "C") := by
  have heval : ((ofTexts cyclicTexts []).toOption.map fun P =>
      (P.definitions.find? (isClass "A")).map fun c =>
        [["C", "D"], ["C"]].map fun names => searchClasses (P.resolver maxSteps).bases
          (fun k => .ok (names.find? (isClass · k))) P.searchBound [c] []) =
      some (some [.ok (some "D"), .ok (some "C")]) := by
    decide +kernel
  obtain ⟨P, hP, heval⟩ := exists_ok_of_map_toOption heval
  obtain ⟨c, hc, hsearch⟩ := Option.map_eq_some_iff.1 heval
  have hholds := mem_definitions.1 (List.mem_of_find?_eq_some hc)
  obtain ⟨order, ending, hwalk, hhead, hnodup, -, -, -, hlooks⟩ :=
    searchClasses_depthFirst (.inl ⟨cyclicTexts, [], hP⟩) hholds (maxSteps - 1)
  refine ⟨P, c, hP, hholds, List.find?_some hc, order, ending, hwalk, hhead, hnodup, ?_, ?_⟩
  · rw [← hlooks _ (Nat.le_refl _)]
    exact (List.cons.inj hsearch).1
  · rw [← hlooks _ (Nat.le_refl _)]
    exact (List.cons.inj (List.cons.inj hsearch).2).1

/-- A class with two bases, one of which hangs on a declared type that holds a null character. -/
def unreadableBaseTexts : List (String × String) :=
  [("m.py", "x: \"\\0\"\nclass B:\n    pass\nclass A(x.y, B):\n    pass\n")]

/-- Whether a base expression of a class denotes the class with a name. -/
def listsClass (P : Project) (n : Nat) (name : String) (c : Definition) : Bool :=
  match P.chainOf? c.file c.node.index with
  | some chain => (c.node.parts .base).any fun b =>
    match (P.resolver n).expression (.ofNode b) ⟨c.file, chain⟩ with
    | .ok (some (.classObject d)) => isClass name d
    | _ => false
  | none => false

theorem exists_listsBase_of_listsClass {n : Nat} {name : String} {c : Definition}
    (h : P.listsClass n name c = true) : ∃ d, P.ListsBase n c d ∧ isClass name d = true := by
  unfold listsClass at h
  split at h
  · next chain hchain =>
    obtain ⟨b, hb, hbase⟩ := List.any_eq_true.1 h
    split at hbase
    · next d hd => exact ⟨d, ⟨chain, hchain, b, hb, hd⟩, hbase⟩
    · cases hbase
  · cases h

/-- A base class that a class lists is not met where another base expression breaks the walk off. -/
theorem null_character_hides_base_class :
    ∃ P c, ofTexts unreadableBaseTexts [] = .ok P ∧ P.Holds c ∧ isClass "A" c = true ∧
      (∃ d, P.ListsBase (maxSteps - 1) c d ∧ isClass "B" d = true) ∧
      searchClasses (P.resolver maxSteps).bases (fun k => .ok (if isClass "B" k then some k.file else none))
        P.searchBound [c] [] = .error .nullCharacter := by
  have heval : ((ofTexts unreadableBaseTexts []).toOption.map fun P =>
      (P.definitions.find? (isClass "A")).map fun c => (P.listsClass (maxSteps - 1) "B" c,
        searchClasses (P.resolver maxSteps).bases
          (fun k => .ok (if isClass "B" k then some k.file else none)) P.searchBound [c] [])) =
      some (some (true, .error .nullCharacter)) := by
    decide +kernel
  obtain ⟨P, hP, heval⟩ := exists_ok_of_map_toOption heval
  obtain ⟨c, hc, heval⟩ := Option.map_eq_some_iff.1 heval
  obtain ⟨hlists, hsearch⟩ := Prod.mk.inj heval
  exact ⟨P, c, hP, mem_definitions.1 (List.mem_of_find?_eq_some hc), List.find?_some hc,
    exists_listsBase_of_listsClass hlists, hsearch⟩

end Project

end EffectGraph
