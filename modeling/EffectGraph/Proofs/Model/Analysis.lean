/-
Computations that may break off.

`Analysis.Related R` compares two of them: they break off for the same reason,
or they give results that `R` relates. Sequencing and going through a list keep
the relation, so two analyses that ask related questions in the same order are
compared question by question. `Analysis.AbortsBy E` says of one of them that it
breaks off only for reasons in `E`.
-/
import EffectGraph.Model.Hint
import Mathlib.Data.List.Forall2

namespace EffectGraph

variable {α β γ δ : Type}

theorem exists_of_mem_left {R : α → β → Prop} {xs : List α} {ys : List β} (h : List.Forall₂ R xs ys) :
    ∀ {x}, x ∈ xs → ∃ y ∈ ys, R x y := by
  induction h with
  | nil => simp
  | cons hxy _ ih =>
    intro x hx
    rcases List.mem_cons.1 hx with rfl | hx
    · exact ⟨_, List.mem_cons_self, hxy⟩
    · obtain ⟨y, hy, hR⟩ := ih hx
      exact ⟨y, List.mem_cons_of_mem _ hy, hR⟩

theorem exists_of_mem_right {R : α → β → Prop} {xs : List α} {ys : List β} (h : List.Forall₂ R xs ys)
    {y : β} (hy : y ∈ ys) : ∃ x ∈ xs, R x y :=
  exists_of_mem_left h.flip hy

theorem forall₂_and_mem {R : α → β → Prop} {xs : List α} {ys : List β} (h : List.Forall₂ R xs ys) :
    List.Forall₂ (fun x y => R x y ∧ x ∈ xs ∧ y ∈ ys) xs ys :=
  List.forall₂_iff_zip.2 ⟨h.length_eq, fun hxy => ⟨List.forall₂_zip h hxy, List.of_mem_zip hxy⟩⟩

theorem forall₂_of_common {R : α → β → Prop} {S : α → γ → Prop} {T : β → γ → Prop} {xs : List α}
    {ys : List β} {zs : List γ} (h : List.Forall₂ R xs ys) (h' : List.Forall₂ S xs zs)
    (hT : ∀ x y z, R x y → S x z → T y z) : List.Forall₂ T ys zs := by
  induction h generalizing zs with
  | nil =>
    cases h'
    exact .nil
  | cons hxy _ ih =>
    cases h' with
    | cons hxz hrest => exact .cons (hT _ _ _ hxy hxz) (ih hrest)

theorem map_eq_map_of_forall₂ {R : α → β → Prop} {xs : List α} {ys : List β} (h : List.Forall₂ R xs ys)
    {k : α → γ} {l : β → γ} (hR : ∀ x y, R x y → k x = l y) : xs.map k = ys.map l := by
  induction h with
  | nil => rfl
  | cons hxy _ ih => rw [List.map_cons, List.map_cons, hR _ _ hxy, ih]

/-- A computation that is known to give something ends. -/
theorem exists_ok_of_map_toOption {ε : Type} {x : Except ε α} {f : α → β} {b : β}
    (h : x.toOption.map f = some b) : ∃ a, x = .ok a ∧ f a = b := by
  cases x with
  | error e => cases h
  | ok a => exact ⟨a, rfl, Option.some.inj h⟩

theorem bind_eq_ok {ε : Type} {x : Except ε α} {f : α → Except ε β} {b : β} :
    (x >>= f) = .ok b ↔ ∃ a, x = .ok a ∧ f a = .ok b := by
  cases x with
  | error e => simp [bind, Except.bind]
  | ok a => simp [bind, Except.bind]

theorem bind_eq_error {ε : Type} {x : Except ε α} {f : α → Except ε β} {e : ε} :
    (x >>= f) = .error e ↔ x = .error e ∨ ∃ a, x = .ok a ∧ f a = .error e := by
  cases x with
  | error e' => simp [bind, Except.bind]
  | ok a => simp [bind, Except.bind]

namespace Analysis

@[simp] theorem ok_bind (a : α) (f : α → Analysis β) : ((.ok a : Analysis α) >>= f) = f a := rfl

@[simp] theorem error_bind (e : Abort) (f : α → Analysis β) :
    ((.error e : Analysis α) >>= f) = .error e := rfl

theorem bind_eq_ok {x : Analysis α} {f : α → Analysis β} {b : β} :
    (x >>= f) = .ok b ↔ ∃ a, x = .ok a ∧ f a = .ok b :=
  EffectGraph.bind_eq_ok

theorem mapM_eq_ok {f : α → Analysis β} :
    ∀ {xs : List α} {ys : List β}, xs.mapM f = .ok ys ↔ List.Forall₂ (fun x y => f x = .ok y) xs ys
  | [], ys => by
    rw [List.mapM_nil, List.forall₂_nil_left_iff]
    exact ⟨fun h => by cases h; rfl, fun h => by subst h; rfl⟩
  | x :: xs, ys => by
    rw [List.mapM_cons, bind_eq_ok, List.forall₂_cons_left_iff]
    simp only [bind_eq_ok, mapM_eq_ok]
    constructor
    · rintro ⟨y, hy, zs, hzs, h⟩
      cases h
      exact ⟨y, zs, hy, hzs, rfl⟩
    · rintro ⟨y, zs, hy, hzs, rfl⟩
      exact ⟨y, hy, zs, hzs, rfl⟩

theorem mapM_congr {f g : α → Analysis β} {xs : List α} (h : ∀ x ∈ xs, f x = g x) :
    xs.mapM f = xs.mapM g := by
  induction xs with
  | nil => rfl
  | cons x xs ih =>
    rw [List.mapM_cons, List.mapM_cons, h x (by simp), ih fun y hy => h y (by simp [hy])]

/-- Two computations that break off for the same reason or give related results. -/
inductive Related (R : α → β → Prop) : Analysis α → Analysis β → Prop
  | aborted (e : Abort) : Related R (.error e) (.error e)
  | done {a : α} {b : β} : R a b → Related R (.ok a) (.ok b)

namespace Related

variable {R : α → β → Prop} {T : γ → δ → Prop} {x : Analysis α} {y : Analysis β}

theorem bind (h : Related R x y) {f : α → Analysis γ} {g : β → Analysis δ}
    (hfg : ∀ a b, R a b → Related T (f a) (g b)) : Related T (x >>= f) (y >>= g) := by
  cases h with
  | aborted e => exact .aborted e
  | done hab => exact hfg _ _ hab

/-- Nothing on both sides, or the same question asked about related values. -/
theorem bindOption {x : Analysis (Option α)} {y : Analysis (Option β)} (h : Related (Option.Rel R) x y)
    {f : Option α → Analysis γ} {g : Option β → Analysis δ} (hnone : Related T (f none) (g none))
    (hsome : ∀ {a b}, R a b → Related T (f (some a)) (g (some b))) : Related T (x >>= f) (y >>= g) := by
  refine h.bind fun v w hvw => ?_
  cases hvw with
  | none => exact hnone
  | some hab => exact hsome hab

theorem imp {R' : α → β → Prop} (h : Related R x y) (hR : ∀ a b, R a b → R' a b) : Related R' x y := by
  cases h with
  | aborted e => exact .aborted e
  | done hab => exact .done (hR _ _ hab)

theorem eq_iff {y : Analysis α} : Related Eq x y ↔ x = y := by
  constructor
  · rintro (e | rfl) <;> rfl
  · rintro rfl
    cases x with
    | error e => exact .aborted e
    | ok a => exact .done rfl

theorem of_ok (h : Related R x y) {a : α} (ha : x = .ok a) : ∃ b, y = .ok b ∧ R a b := by
  subst ha
  cases h with
  | done hab => exact ⟨_, rfl, hab⟩

theorem mapM {P : γ → δ → Prop} {f : γ → Analysis α} {g : δ → Analysis β}
    (hfg : ∀ c d, P c d → Related R (f c) (g d)) :
    ∀ {cs : List γ} {ds : List δ}, List.Forall₂ P cs ds →
      Related (List.Forall₂ R) (cs.mapM f) (ds.mapM g)
  | _, _, .nil => by
    simp only [List.mapM_nil]
    exact .done .nil
  | _, _, .cons h hs => by
    simp only [List.mapM_cons]
    refine (hfg _ _ h).bind fun a b hab => ?_
    refine (mapM hfg hs).bind fun as bs habs => ?_
    exact .done (.cons hab habs)

end Related

/-- A computation that breaks off for these reasons only. -/
def AbortsBy (E : Abort → Prop) (x : Analysis α) : Prop := ∀ e, x = .error e → E e

namespace AbortsBy

variable {E : Abort → Prop} {x : Analysis α}

theorem ok (a : α) : AbortsBy E (.ok a) := by
  intro e h
  cases h

theorem imp (h : AbortsBy E x) {F : Abort → Prop} (hEF : ∀ e, E e → F e) : AbortsBy F x :=
  fun e he => hEF e (h e he)

theorem bind (hx : AbortsBy E x) {f : α → Analysis β} (hf : ∀ a, x = .ok a → AbortsBy E (f a)) :
    AbortsBy E (x >>= f) := by
  cases x with
  | error e =>
    intro e' h
    cases h
    exact hx e rfl
  | ok a => exact hf a rfl

theorem mapM {f : α → Analysis β} {as : List α} (h : ∀ a ∈ as, AbortsBy E (f a)) :
    AbortsBy E (as.mapM f) := by
  induction as with
  | nil => exact ok []
  | cons a as ih =>
    rw [List.mapM_cons]
    refine (h a (by simp)).bind fun b _ => ?_
    refine (ih fun c hc => h c (by simp [hc])).bind fun bs _ => ?_
    exact ok (b :: bs)

end AbortsBy

/-- A question about an answer: nothing is asked about an unknown value, and of a known one is known
where it comes from. -/
theorem Related.aborts {R : α → β → Prop} {E : Abort → Prop} {x : Analysis (Option α)}
    {y : Analysis (Option β)} (h : Related (Option.Rel R) x y) (hx : x.AbortsBy E)
    {f : Option α → Analysis γ} (hnone : (f none).AbortsBy E)
    (hsome : ∀ {a b}, R a b → (f (some a)).AbortsBy E) : (x >>= f).AbortsBy E := by
  refine hx.bind fun v hv => ?_
  obtain ⟨w, -, hvw⟩ := h.of_ok hv
  cases hvw with
  | none => exact hnone
  | some hab => exact hsome hab

end Analysis

end EffectGraph
