/-
What the limit on the steps of a search can change.

A question that is asked when the steps are used up gets the answer "unknown",
like a question that has no answer. Where a search has an alternative to an
unknown value, it takes the alternative, so the limit can change what a call
resolves to and not only lose it (`callee_changed`). There are three such
places: a base class that is not known is left out, an instance whose class has
no known member of a name is asked for its stored attributes, and the next
stored value is looked at when one is not known.

`careful` is the search itself, except that in these three places it asks the
search with the larger limit and breaks off if that one knows the value. So it
answers what the search answers or breaks off, and what it knows the search with
the larger limit knows as well. A call that resolves to a function resolves to it
within a larger number of steps, if no value was passed over that is known there
(`callee_stable`).
-/
import EffectGraph.Disk.Load
import EffectGraph.Model.Query
import EffectGraph.Proofs.Model.ClassSearch

namespace EffectGraph

/-! ## Comparing computations -/

/-- Where the first computation gives a result of some sort, the second gives the same one. -/
def Analysis.Below {α : Type} (p : α → Prop) (x y : Analysis α) : Prop := ∀ a, p a → x = .ok a → y = .ok a

/-- Every result. -/
abbrev Always {α : Type} : α → Prop := fun _ => True

/-- A result that is known. -/
abbrev Known {α : Type} : Option α → Prop := fun a => a.isSome

namespace Analysis.Below

variable {α β : Type} {p : α → Prop} {q : β → Prop} {x y : Analysis α}

theorem refl (x : Analysis α) : Below p x x := fun _ _ h => h

theorem of_none {x : Analysis (Option α)} : Below Known (.ok none) x := fun _ ha h => by
  cases h
  cases ha

theorem imp (h : Below p x y) {p' : α → Prop} (hp : ∀ a, p' a → p a) : Below p' x y :=
  fun a ha hx => h a (hp a ha) hx

theorem map (f : α → β) (h : Below (fun a => q (f a)) x y) :
    Below q (do return f (← x)) (do return f (← y)) := by
  intro b hb hx
  obtain ⟨a, ha, hfa⟩ := bind_eq_ok.1 hx
  cases hfa
  exact bind_eq_ok.2 ⟨a, h a hb ha, rfl⟩

theorem bind {f g : α → Analysis β} (h : Below Always x y) (hfg : ∀ a, Below q (f a) (g a)) :
    Below q (x >>= f) (y >>= g) := by
  intro b hb hx
  obtain ⟨a, ha, hfa⟩ := bind_eq_ok.1 hx
  exact bind_eq_ok.2 ⟨a, h a trivial ha, hfg a b hb hfa⟩

/-- Going on with what is known only. -/
theorem bindKnown {p : Option α → Prop} {q : Option β → Prop} {x y : Analysis (Option α)}
    {f g : Option α → Analysis (Option β)} (h : Below p x y) (hp : ∀ a, p (some a)) (hnone : q none → p none)
    (hf : f none = .ok none) (hg : g none = .ok none) (hfg : ∀ a, Below q (f (some a)) (g (some a))) :
    Below q (x >>= f) (y >>= g) := by
  intro b hb hx
  obtain ⟨a, ha, hfa⟩ := bind_eq_ok.1 hx
  cases a with
  | some a => exact bind_eq_ok.2 ⟨some a, h _ (hp a) ha, hfg a b hb hfa⟩
  | none =>
    rw [hf] at hfa
    cases hfa
    exact bind_eq_ok.2 ⟨none, h _ (hnone hb) ha, hg⟩

theorem mapM {f g : α → Analysis β} (h : ∀ a, Below Always (f a) (g a)) (as : List α) :
    Below Always (as.mapM f) (as.mapM g) :=
  fun _ _ ha => mapM_eq_ok.2 ((mapM_eq_ok.1 ha).imp fun a b hab => h a b trivial hab)

end Analysis.Below

open Analysis (Below)

/-- Searches through classes compare as what is found in each class does, finding nothing included:
both then go on to the same base classes. -/
theorem searchClasses_below {α : Type} {p : Option α → Prop} (hp : p none)
    {bases bases' : Definition → Analysis (List Definition)} {find find' : Definition → Analysis (Option α)}
    (hbases : ∀ c, Below Always (bases c) (bases' c)) (hfind : ∀ c, Below p (find c) (find' c)) :
    ∀ n stack seen, Below p (searchClasses bases find n stack seen) (searchClasses bases' find' n stack seen)
  | 0, _, _ => .refl _
  | _ + 1, [], _ => .refl _
  | n + 1, c :: stack, seen => by
    simp only [searchClasses]
    split
    · exact searchClasses_below hp hbases hfind n stack seen
    · intro a ha h
      obtain ⟨found, hfound, h⟩ := Analysis.bind_eq_ok.1 h
      cases found with
      | some b =>
        cases h
        exact Analysis.bind_eq_ok.2 ⟨some b, hfind c _ ha hfound, rfl⟩
      | none =>
        refine Analysis.bind_eq_ok.2 ⟨none, hfind c _ hp hfound, ?_⟩
        exact Below.bind (hbases c) (fun ks => searchClasses_below hp hbases hfind n _ _) a ha h

theorem firstKnown_below {α : Type} {ask ask' : α → Answer} (h : ∀ a, Below Always (ask a) (ask' a)) :
    ∀ as, Below Always (firstKnown ask as) (firstKnown ask' as)
  | [] => .refl _
  | a :: as => by
    refine (h a).bind fun v => ?_
    cases v with
    | some v => exact .refl _
    | none => exact firstKnown_below h as

theorem followMembers_below {p : Option Value → Prop} (hp : ∀ v, p (some v))
    {member member' : Value → String → Answer} (h : ∀ v name, Below p (member v name) (member' v name)) :
    ∀ names v, Below p (followMembers member names v) (followMembers member' names v)
  | [], _ => .refl _
  | name :: names, v =>
    (h v name).bindKnown hp id rfl rfl fun w => followMembers_below hp h names w

/-- Where the first resolver gives an answer of some sort, the second gives the same one. Of base
classes this is asked whatever the answer. -/
structure Resolver.Below (p : Option Value → Prop) (r s : Resolver) : Prop where
  expression : ∀ e site, Analysis.Below p (r.expression e site) (s.expression e site)
  name : ∀ id site, Analysis.Below p (r.name id site) (s.name id site)
  binding : ∀ b site, Analysis.Below p (r.binding b site) (s.binding b site)
  hint : ∀ h file, Analysis.Below p (r.hint h file) (s.hint h file)
  dotted : ∀ name, Analysis.Below p (r.dotted name) (s.dotted name)
  member : ∀ v name, Analysis.Below p (r.member v name) (s.member v name)
  classMember : ∀ c name, Analysis.Below p (r.classMember c name) (s.classMember c name)
  stored : ∀ c name, Analysis.Below p (r.stored c name) (s.stored c name)
  result : ∀ v, Analysis.Below p (r.result v) (s.result v)
  bases : ∀ c, Analysis.Below Always (r.bases c) (s.bases c)

/-! ## One step -/

namespace Project.Step

variable {P : Project} {p : Option Value → Prop} {r s : Resolver}

section

variable (hp : ∀ v, p (some v)) (h : r.Below p s)

include h

theorem name_below (id : String) (site : Site) : Below p (name r id site) (name s id site) := by
  unfold name
  split
  · exact .refl _
  · split
    · exact h.binding _ _
    · exact .refl _

theorem declared_below (b : Binding) (site : Site) : Below p (declared r b site) (declared s b site) := by
  unfold declared
  split
  · exact h.hint _ _
  · exact .refl _

theorem binding_below (b : Binding) (site : Site) : Below p (binding P r b site) (binding P s b site) := by
  unfold binding
  split
  · exact .refl _
  · exact .refl _
  · split
    · split
      · exact .refl _
      · exact h.dotted _
    · exact .refl _
  · split
    · exact .refl _
    · exact declared_below h b site
  · split
    · exact h.expression _ _
    · exact declared_below h b site
  · exact .refl _

theorem moduleMember_below (module name : String) :
    Below p (moduleMember P r module name) (moduleMember P s module name) := by
  simp only [moduleMember]
  split
  · exact h.binding _ _
  · exact .refl _

theorem classMember_below (c : Definition) (name : String) :
    Below p (classMember P r c name) (classMember P s c name) := by
  -- A class that binds the name ends the search, whether or not the value is known.
  refine Below.map Option.join ?_
  refine Below.imp (p := fun found => ∀ v, found = some v → p v) ?_ fun found hfound v hv => ?_
  · refine searchClasses_below (by simp) h.bases (fun k => ?_) _ _ _
    dsimp only
    split
    · exact Below.map some (Below.imp (h.binding _ _) fun v hv => hv v rfl)
    · exact .refl _
  · simpa [hv] using hfound

include hp

theorem expression_below (e : Reference) (site : Site) :
    Below p (expression r e site) (expression s e site) := by
  cases e with
  | name id => exact h.name id site
  | member base name => exact (h.expression base site).bindKnown hp id rfl rfl fun v => h.member v name
  | call callee => exact (h.expression callee site).bindKnown hp id rfl rfl fun v => h.result v
  | lambda node => exact .refl _
  | other => exact .refl _

theorem hint_below (n : Node) (file : Nat) : Below p (hint P r n file) (hint P s n file) := by
  refine Below.bind (.refl _) fun e => ?_
  split
  · refine (h.expression _ _).bindKnown hp id rfl rfl fun v => ?_
    cases v <;> exact .refl _
  · exact .refl _

theorem dotted_below (name : String) : Below p (dotted P r name) (dotted P s name) := by
  unfold dotted
  extract_lets parts
  split
  · exact followMembers_below hp h.member _ _
  · exact .refl _

theorem result_below (v : Value) : Below p (result P r v) (result P s v) := by
  unfold result
  split
  · exact .refl _
  · exact (h.classMember _ _).bindKnown hp id rfl rfl fun w => h.result w
  · exact .refl _
  · split
    · split
      · exact h.expression _ _
      · exact .refl _
    · split
      · exact .refl _
      · split
        · refine Below.bind (.refl _) fun awaitable => ?_
          split
          · exact .refl _
          · exact h.hint _ _
        · exact .refl _
  · exact .refl _
  · exact .refl _

end

theorem stored_below (hbases : ∀ c, Below Always (r.bases c) (s.bases c))
    (hexpression : ∀ e site, Below Always (r.expression e site) (s.expression e site))
    (c : Definition) (name : String) : Below Always (stored P r c name) (stored P s c name) := by
  refine searchClasses_below trivial hbases (fun k => firstKnown_below (fun a => ?_) _) _ _ _
  split
  · exact hexpression _ _
  · exact .refl _

theorem bases_below (hexpression : ∀ e site, Below Always (r.expression e site) (s.expression e site))
    (c : Definition) : Below Always (bases P r c) (bases P s c) := by
  unfold bases
  split
  · exact (Below.mapM (fun b => hexpression _ _) _).bind fun _ => .refl _
  · exact .refl _

end Project.Step

/-! ## Searches that look out for the limit -/

/-- Goes past an unknown value only if it is unknown in the second computation too. -/
def Answer.confirm (x y : Answer) : Answer := do
  match ← x with
  | some v => return some v
  | none =>
    match ← y with
    | none => return none
    | some _ => .error default

namespace Resolver

/-- Lets another resolver confirm that an expression or a member of a class is unknown. -/
def confirmedBy (r s : Resolver) : Resolver :=
  { r with
    expression := fun e site => Answer.confirm (r.expression e site) (s.expression e site)
    classMember := fun c name => Answer.confirm (r.classMember c name) (s.classMember c name) }

/-- Knows nothing, and takes a class for one without base classes only if another resolver does. -/
def unsure (s : Resolver) : Resolver :=
  { Project.ignorant with
    bases := fun c => do
      match ← s.bases c with
      | [] => return []
      | _ :: _ => .error default }

/-- A step whose questions about expressions, bindings, members and base classes are not looked at any
more. -/
def limited (r start : Resolver) : Resolver :=
  { r with
    expression := start.expression
    binding := start.binding
    member := start.member
    bases := start.bases }

end Resolver

namespace Project

/-- One step of the search that goes past an unknown value only if the second resolver confirms that
it is unknown: the value of a base class, of a member of an instance's class, and of a stored
attribute. -/
def carefulStep (P : Project) (r s : Resolver) : Resolver :=
  { step P r with
    member := fun v name =>
      match v with
      | .instanceOf _ => Step.member P (r.confirmedBy s) v name
      | _ => Step.member P r v name
    stored := Step.stored P (r.confirmedBy s)
    bases := Step.bases P (r.confirmedBy s) }

/-- What the last of some steps asks. -/
def asked (P : Project) : Nat → Resolver
  | 0 => ignorant
  | n + 1 => P.resolver n

/-- The search that breaks off rather than going past a value that is known with some more steps. -/
def careful (P : Project) (more : Nat) : Nat → Resolver
  | 0 => (carefulStep P (P.asked more).unsure (P.asked more)).limited (P.resolver more).unsure
  | n + 1 => carefulStep P (careful P more n) (P.resolver (n + more))

/-- The function that a call runs, as far as a resolver knows. -/
def calleeOf (P : Project) (r : Resolver) (file : Nat) (call : Node) : Analysis (Option Definition) :=
  let method (c : Definition) (name : String) : Analysis (Option Definition) := do
    match ← r.classMember c name with
    | some (.function d) => return some d
    | _ => return none
  match call.part? .func with
  | none => .ok none
  | some func =>
    match P.chainOf? file func.index with
    | none => .ok none
    | some chain => do
      match ← r.expression (.ofNode func) ⟨file, chain⟩ with
      | some (.function d) => return some d
      | some (.classObject c) => method c "__init__"
      | some (.instanceOf c) => method c "__call__"
      | _ => return none

theorem calleeBy_eq (P : Project) (n file : Nat) (call : Node) :
    P.calleeBy n file call = P.calleeOf (P.resolver n) file call := by
  unfold calleeBy calleeOf valueBy calledFunctionBy
  cases call.part? .func with
  | none => rfl
  | some func =>
    dsimp only
    cases P.chainOf? file func.index with
    | none => rfl
    | some chain => rfl

variable {P : Project} {p : Option Value → Prop} {r s t : Resolver}

/-! ## What is confirmed -/

theorem confirm_below_left {x y z : Answer} (h : Below Always x z) : Below Always (Answer.confirm x y) z := by
  intro a _ hx
  obtain ⟨v, hv, hx⟩ := Analysis.bind_eq_ok.1 hx
  cases v with
  | some v =>
    cases hx
    exact h _ trivial hv
  | none =>
    obtain ⟨w, -, hx⟩ := Analysis.bind_eq_ok.1 hx
    cases w with
    | none =>
      cases hx
      exact h _ trivial hv
    | some w => cases hx

theorem confirm_below_right {x y : Answer} (h : Below Known x y) : Below Always (Answer.confirm x y) y := by
  intro a _ hx
  obtain ⟨v, hv, hx⟩ := Analysis.bind_eq_ok.1 hx
  cases v with
  | some v =>
    cases hx
    exact h _ rfl hv
  | none =>
    obtain ⟨w, hw, hx⟩ := Analysis.bind_eq_ok.1 hx
    cases w with
    | none =>
      cases hx
      exact hw
    | some w => cases hx

theorem unsure_bases_below (s : Resolver) (c : Definition) :
    Below Always (s.unsure.bases c) (s.bases c) := by
  intro ks _ h
  obtain ⟨found, hfound, h⟩ := Analysis.bind_eq_ok.1 h
  cases found with
  | nil =>
    cases h
    exact hfound
  | cons k found => cases h

/-- Who knows nothing knows no less than anybody else, apart from base classes. -/
theorem unsure_below (s : Resolver) : s.unsure.Below Known s where
  expression _ _ := .of_none
  name _ _ := .of_none
  binding _ _ := .of_none
  hint _ _ := .of_none
  dotted _ := .of_none
  member _ _ := .of_none
  classMember _ _ := .of_none
  stored _ _ := .of_none
  result _ := .of_none
  bases := unsure_bases_below s

theorem unsure_below_ignorant (s : Resolver) : s.unsure.Below Always ignorant where
  expression _ _ := .refl _
  name _ _ := .refl _
  binding _ _ := .refl _
  hint _ _ := .refl _
  dotted _ := .refl _
  member _ _ := .refl _
  classMember _ _ := .refl _
  stored _ _ := .refl _
  result _ := .refl _
  bases c := by
    intro ks _ h
    obtain ⟨found, -, h⟩ := Analysis.bind_eq_ok.1 h
    cases found with
    | nil => exact h
    | cons k found => cases h

/-- One step, compared with a step of a resolver that agrees with what is confirmed. -/
theorem carefulStep_below (hp : ∀ v, p (some v)) (hr : r.Below p t)
    (hexpression : ∀ e site, Below Always ((r.confirmedBy s).expression e site) (t.expression e site))
    (hmember : ∀ c name, Below Always ((r.confirmedBy s).classMember c name) (t.classMember c name)) :
    (carefulStep P r s).Below p (step P t) := by
  refine ⟨Step.expression_below hp hr, Step.name_below hr, Step.binding_below hr, Step.hint_below hp hr,
    Step.dotted_below hp hr, fun v name => ?_, Step.classMember_below hr, fun c name => ?_,
    Step.result_below hp hr, Step.bases_below hexpression⟩
  · cases v with
    | module m => exact Step.moduleMember_below hr m name
    | classObject c => exact hr.classMember c name
    | instanceOf c =>
      refine (hmember c name).bind fun v => ?_
      cases v with
      | some v => exact .refl _
      | none => exact hr.stored c name
    | external e => exact .refl _
    | function d => exact .refl _
    | awaitable => exact .refl _
  · have hstored := Step.stored_below (P := P) (r := r.confirmedBy s) hr.bases hexpression c name
    exact hstored.imp fun _ _ => trivial

/-- A careful step answers what the step answers, whoever confirms, or breaks off. -/
theorem carefulStep_below_step (h : r.Below Always t) (s : Resolver) :
    (carefulStep P r s).Below Always (step P t) :=
  carefulStep_below (fun _ => trivial) h (fun e site => confirm_below_left (h.expression e site))
    fun c name => confirm_below_left (h.classMember c name)

/-- What a careful step knows is known in a step of the resolver that confirms. -/
theorem carefulStep_known (h : r.Below Known s) : (carefulStep P r s).Below Known (step P s) :=
  carefulStep_below (fun _ => rfl) h (fun e site => confirm_below_right (h.expression e site))
    fun c name => confirm_below_right (h.classMember c name)

/-! ## Every number of steps -/

theorem limited_below {start start' : Resolver} (h : r.Below p s) (hstart : start.Below p start') :
    (r.limited start).Below p (s.limited start') :=
  { h with
    expression := hstart.expression
    binding := hstart.binding
    member := hstart.member
    bases := hstart.bases }

/-- The answers with any number of steps are made of one step, of which the last one leaves questions
out. -/
theorem resolver_eq_limited (P : Project) (n : Nat) :
    P.resolver n = (step P (P.asked n)).limited (P.resolver n) := by
  cases n <;> rfl

/-- A careful search answers what the search answers, or breaks off. -/
theorem careful_below (P : Project) (more : Nat) : ∀ n, (P.careful more n).Below Always (P.resolver n)
  | 0 => limited_below (carefulStep_below_step (unsure_below_ignorant _) _) (unsure_below_ignorant _)
  | n + 1 => carefulStep_below_step (careful_below P more n) _

/-- What a careful search knows is known with more steps. -/
theorem careful_known (P : Project) (more : Nat) :
    ∀ n, (P.careful more n).Below Known (P.resolver (n + more))
  | 0 => by
    rw [Nat.zero_add, resolver_eq_limited]
    exact limited_below (carefulStep_known (unsure_below _)) (unsure_below _)
  | n + 1 => by
    rw [Nat.add_right_comm]
    exact carefulStep_known (careful_known P more n)

/-! ## Calls -/

theorem calleeOf_below (hp : ∀ v, p (some v)) {q : Option Definition → Prop} (hq : q none → p none)
    (h : r.Below p s) (file : Nat) (call : Node) : Below q (P.calleeOf r file call) (P.calleeOf s file call) := by
  have hmethod : ∀ c name, Below q
      (do match ← r.classMember c name with
          | some (.function d) => return some d
          | _ => return none)
      (do match ← s.classMember c name with
          | some (.function d) => return some d
          | _ => return none) := fun c name => by
    refine (h.classMember c name).bindKnown hp hq rfl rfl fun v => ?_
    cases v <;> exact .refl _
  simp only [calleeOf]
  split
  · exact .refl _
  · split
    · exact .refl _
    · refine (h.expression _ _).bindKnown hp hq rfl rfl fun v => ?_
      cases v with
      | classObject c => exact hmethod c "__init__"
      | instanceOf c => exact hmethod c "__call__"
      | module | function | external | awaitable => exact .refl _

/-- A call that resolves to a function within a number of steps resolves to it within a larger number,
if the search did not go past a value that is known within the larger number. -/
theorem callee_stable (P : Project) {n m file : Nat} {call : Node} {d : Definition} (hnm : n ≤ m)
    (hcallee : P.calleeBy n file call = .ok (some d))
    (hcareful : ∃ found, P.calleeOf (P.careful (m - n) n) file call = .ok found) :
    P.calleeBy m file call = .ok (some d) := by
  rw [calleeBy_eq] at hcallee ⊢
  obtain ⟨found, hfound⟩ := hcareful
  have hsame := calleeOf_below (q := Always) (fun _ => trivial) id (careful_below P (m - n) n) file call found
    trivial hfound
  obtain rfl : found = some d := Except.ok.inj (hsame.symm.trans hcallee)
  have hknown := careful_known P (m - n) n
  rw [Nat.add_sub_cancel' hnm] at hknown
  exact calleeOf_below (q := Known) (fun _ => rfl) (fun h => by cases h) hknown file call _ rfl hfound

/-- A method that is found past a base class and a stored value that stay unknown, the first one at
the end of a chain of names that is too long for a few steps. -/
def passedOver : List (String × String) :=
  [("m.py", "class B:\n    def go(self): pass\na0 = a1\na1 = a2\na2 = a3\na3 = a4\na4 = a5\na5 = a6\n" ++
    "a6 = missing\nclass A(a0, B):\n    def __init__(self, b: B):\n" ++
    "        self.h = missing\n        self.h = b\ndef run(a: A):\n    a.h.go()\n")]

theorem callee_stable_passedOver :
    ∃ P call d, ofTexts passedOver [] = .ok P ∧ P.qualifiedNameOf (some (.function d)) = some "m.go" ∧
      P.calleeBy 15 0 call = .ok (some d) ∧
      (∃ found, P.calleeOf (P.careful (maxSteps - 15) 15) 0 call = .ok found) ∧
      P.calleeBy maxSteps 0 call = .ok (some d) := by
  have heval : (ofTexts passedOver []).toOption.map (fun P => (P.file? 0).bind fun f =>
      (f.source.tree.nodes.find? (·.kind == .call)).map fun call =>
        ((P.calleeBy 15 0 call).toOption.map fun d => P.qualifiedNameOf (d.map .function),
          (P.calleeOf (P.careful (maxSteps - 15) 15) 0 call).toOption.map Option.isSome)) =
        some (some (some (some "m.go"), some true)) := by
    decide +kernel
  obtain ⟨P, hP, heval⟩ := exists_ok_of_map_toOption heval
  obtain ⟨f, -, heval⟩ := Option.bind_eq_some_iff.1 heval
  obtain ⟨call, -, heval⟩ := Option.map_eq_some_iff.1 heval
  obtain ⟨hcallee, hcareful⟩ := Prod.mk.inj heval
  obtain ⟨found, hfound, -⟩ := exists_ok_of_map_toOption hcareful
  obtain ⟨d, hcallee, hname⟩ := exists_ok_of_map_toOption hcallee
  cases d with
  | none => cases hname
  | some d =>
    exact ⟨P, call, d, hP, hname, hcallee, ⟨found, hfound⟩,
      callee_stable P (by decide) hcallee ⟨found, hfound⟩⟩

/-- An attribute with a value in the class body, at the end of a chain of names that is too long to be
followed, and another one stored by a method. -/
def longChain : List (String × String) :=
  [("m.py", "def f(): pass\ndef g(): pass\na = f\nb = a\nc = b\nd = c\ne = d\nh = e\ni = h\nclass A:\n" ++
    "    x = i\n    def __init__(self):\n        self.x = g\ndef run(o: A):\n    o.x()\n")]

theorem callee_changed :
    ∃ P call d d', ofTexts longChain [] = .ok P ∧ P.Holds ⟨0, call⟩ ∧
      P.calleeBy maxSteps 0 call = .ok (some d) ∧ P.calleeBy (maxSteps + 3) 0 call = .ok (some d') ∧
      P.qualifiedNameOf (some (.function d)) = some "m.g" ∧
      P.qualifiedNameOf (some (.function d')) = some "m.f" := by
  have heval : (ofTexts longChain []).toOption.map (fun P => (P.file? 0).bind fun f =>
      (f.source.tree.nodes.find? (·.kind == .call)).map fun call =>
        ((P.calleeBy maxSteps 0 call).toOption.map fun d => P.qualifiedNameOf (d.map .function),
          (P.calleeBy (maxSteps + 3) 0 call).toOption.map fun d => P.qualifiedNameOf (d.map .function))) =
        some (some (some (some "m.g"), some (some "m.f"))) := by
    decide +kernel
  obtain ⟨P, hP, heval⟩ := exists_ok_of_map_toOption heval
  obtain ⟨f, hf, heval⟩ := Option.bind_eq_some_iff.1 heval
  obtain ⟨call, hcall, heval⟩ := Option.map_eq_some_iff.1 heval
  obtain ⟨hcallee, hcallee'⟩ := Prod.mk.inj heval
  obtain ⟨d, hcallee, hname⟩ := exists_ok_of_map_toOption hcallee
  obtain ⟨d', hcallee', hname'⟩ := exists_ok_of_map_toOption hcallee'
  have hholds : P.Holds ⟨0, call⟩ := ⟨f, hf, List.mem_of_find?_eq_some hcall⟩
  cases d with
  | none => cases hname
  | some d =>
    cases d' with
    | none => cases hname'
    | some d' => exact ⟨P, call, d, d', hP, hholds, hcallee, hcallee', hname, hname'⟩

end Project

end EffectGraph
