/-
Texts with tags that can be printed.

Printing fails only at a tag that closes a style that is not open or that cannot
be closed, so it is enough to know which tags count. A text without brackets has
none (`Prints.plain`). In an escaped text every tag stands behind an odd number of
backslashes (`prints_escape`): escaping puts in backslashes only, and only
before a bracket, so what is a tag after escaping was one before
(`exists_of_escapeFrom`).
-/
import EffectGraph.Report.Markup
import Mathlib.Data.List.TakeWhile

namespace EffectGraph.Markup

variable {opened opened' : List Style} {c : Char} {cs inside rest after run : List Char}

/-! ## Tags -/

/-- What can stand between the brackets of a tag. -/
def IsTag (inside : List Char) : Prop :=
  ∃ c inner, inside = c :: inner ∧ startsTag c = true ∧ ∀ d ∈ inner, d ≠ ']' ∧ d ≠ '['

theorem tag?_eq_some_iff :
    tag? cs = some (inside, rest) ↔ IsTag inside ∧ cs = '[' :: inside ++ ']' :: rest := by
  constructor
  · intro h
    unfold tag? at h
    split at h
    · next c cs =>
      simp only at h
      split at h
      · next rest' hdrop =>
        split at h
        · next hc =>
          cases h
          have hsplit := List.prefix_iff_eq_append.1
            (List.takeWhile_prefix (l := cs) fun c => c != ']' && c != '[')
          rw [hdrop] at hsplit
          refine ⟨⟨c, _, rfl, hc, fun d hd => by simpa using List.mem_takeWhile_imp hd⟩, ?_⟩
          rw [List.cons_append, List.cons_append, hsplit]
        · cases h
      · cases h
    · cases h
  · rintro ⟨⟨c, inner, rfl, hc, hinner⟩, rfl⟩
    have htake : (inner ++ ']' :: rest).takeWhile (fun c => c != ']' && c != '[') = inner := by
      rw [List.takeWhile_append_of_pos (by simpa using hinner)]
      simp
    simp [tag?, htake, hc]

theorem IsTag.tag?_eq (h : IsTag inside) (rest : List Char) :
    tag? ('[' :: inside ++ ']' :: rest) = some (inside, rest) :=
  tag?_eq_some_iff.2 ⟨h, rfl⟩

theorem IsTag.notMem (h : IsTag inside) : '[' ∉ inside := by
  obtain ⟨c, inner, rfl, hc, hinner⟩ := h
  intro hmem
  rcases List.mem_cons.1 hmem with rfl | hmem
  · exact absurd hc (by decide)
  · exact (hinner _ hmem).2 rfl

theorem tag?_of_ne (hc : c ≠ '[') : tag? (c :: cs) = none := by
  cases h : tag? (c :: cs) with
  | none => rfl
  | some found => exact absurd (List.cons.inj (tag?_eq_some_iff.1 h).2).1 hc

/-! ## Runs of backslashes -/

theorem takeWhile_run (hs : ∀ d ∈ run, d = '\\') (hrest : rest.head? ≠ some '\\') :
    (run ++ rest).takeWhile (· = '\\') = run := by
  rw [List.takeWhile_append_of_pos (by simpa using hs)]
  cases rest with
  | nil => simp
  | cons d rest =>
    have hd : d ≠ '\\' := by simpa using hrest
    simp [hd]

theorem notMem_run (hs : ∀ d ∈ run, d = '\\') (hc : c ≠ '\\') : c ∉ run :=
  fun hmem => hc (hs c hmem)

/-- A text is empty, or starts with a tag that backslashes may stand before, with a character that
starts no tag, or with backslashes before such a character. -/
theorem text_cases (cs : List Char) : cs = [] ∨
    (∃ run inside after, (∀ d ∈ run, d = '\\') ∧ IsTag inside ∧
      cs = run ++ ('[' :: inside ++ ']' :: after)) ∨
    (∃ c rest, c ≠ '\\' ∧ tag? (c :: rest) = none ∧ cs = c :: rest) ∨
    ∃ run rest, run ≠ [] ∧ (∀ d ∈ run, d = '\\') ∧ rest.head? ≠ some '\\' ∧ tag? rest = none ∧
      cs = run ++ rest := by
  have hs : ∀ d ∈ cs.takeWhile (· = '\\'), d = '\\' := fun d hd => by
    simpa using List.mem_takeWhile_imp hd
  have hhead : (cs.dropWhile (· = '\\')).head? ≠ some '\\' := by
    intro h
    have := List.head?_dropWhile_not (· = '\\') cs
    rw [h] at this
    simp at this
  have hcs := (List.takeWhile_append_dropWhile (p := (· = '\\')) (l := cs)).symm
  cases ht : tag? (cs.dropWhile (· = '\\')) with
  | some found =>
    obtain ⟨htag, he⟩ := tag?_eq_some_iff.1 ht
    exact .inr (.inl ⟨_, _, _, hs, htag, by rw [← he]; exact hcs⟩)
  | none =>
    by_cases hne : cs.takeWhile (· = '\\') = []
    · rw [hne, List.nil_append] at hcs
      cases cs with
      | nil => exact .inl rfl
      | cons c rest =>
        rw [← hcs] at ht hhead
        exact .inr (.inr (.inl ⟨c, rest, by simpa using hhead, ht, rfl⟩))
    · exact .inr (.inr (.inr ⟨_, _, hne, hs, hhead, ht, hcs⟩))

/-! ## Printing -/

/-- A text can be printed while some styles are open, whatever stands before it. -/
def Prints (opened : List Style) (cs : List Char) : Prop :=
  ∀ n held, (printedFrom n opened held cs).isSome = true

theorem printed?_of_prints {s : String} (h : Prints [] s.toList) :
    ∃ text, printed? s = some text := by
  obtain ⟨text, htext⟩ := Option.isSome_iff_exists.1 (h (s.length + 1) [])
  exact ⟨_, by rw [printed?, htext]; rfl⟩

namespace Prints

theorem nil : Prints opened [] := by
  intro n held
  cases n <;> rfl

theorem cons (hc : c ≠ '\\') (ht : tag? (c :: cs) = none) (h : Prints opened cs) :
    Prints opened (c :: cs) := by
  intro n held
  cases n with
  | zero => rfl
  | succ n =>
    have hs : (c :: cs).takeWhile (· = '\\') = [] := by simp [hc]
    rw [printedFrom, hs]
    simp only [List.length_nil, List.drop_zero, ht]
    exact h n _

theorem run_append (hs : ∀ d ∈ run, d = '\\') (hrest : rest.head? ≠ some '\\')
    (ht : tag? rest = none) (h : Prints opened rest) : Prints opened (run ++ rest) := by
  intro n held
  cases n with
  | zero => rfl
  | succ n =>
    cases run with
    | nil => exact h (n + 1) held
    | cons d run =>
      rw [List.cons_append, printedFrom, ← List.cons_append, takeWhile_run hs hrest]
      simp only [List.drop_left, ht]
      exact h n _

/-- A tag behind an even number of backslashes opens or closes a style. -/
theorem tag (hs : ∀ d ∈ run, d = '\\') (heven : run.length % 2 = 0) (htag : IsTag inside)
    (hturn : turn opened inside = some opened') (h : Prints opened' after) :
    Prints opened (run ++ ('[' :: inside ++ ']' :: after)) := by
  intro n held
  cases n with
  | zero => rfl
  | succ n =>
    obtain ⟨c, cs, he⟩ :=
      List.exists_cons_of_ne_nil (l := run ++ ('[' :: inside ++ ']' :: after)) (by simp)
    rw [he, printedFrom, ← he, takeWhile_run hs (by simp)]
    simp only [List.drop_left, htag.tag?_eq, heven, Nat.zero_ne_one, if_false, hturn,
      Option.isSome_map]
    exact h n []

/-- A tag behind an odd number of backslashes is text. -/
theorem escaped (hs : ∀ d ∈ run, d = '\\') (hodd : run.length % 2 = 1) (htag : IsTag inside)
    (h : Prints opened after) : Prints opened (run ++ ('[' :: inside ++ ']' :: after)) := by
  intro n held
  cases n with
  | zero => rfl
  | succ n =>
    cases run with
    | nil => cases hodd
    | cons d run =>
      rw [List.cons_append, printedFrom, ← List.cons_append, takeWhile_run hs (by simp)]
      simp only [List.drop_left, htag.tag?_eq, hodd, if_true, Option.isSome_map]
      exact h n []

/-- A text without opening brackets can be printed before anything that can. -/
theorem plain {seg : List Char} (hb : '[' ∉ seg) (hlast : seg.getLast? ≠ some '\\')
    (h : Prints opened after) : Prints opened (seg ++ after) := by
  generalize hn : seg.length = n
  induction n using Nat.strong_induction_on generalizing seg with
  | _ n ih =>
    rcases text_cases seg with rfl | ⟨run, inside, rest, -, -, rfl⟩ | ⟨c, rest, hc, -, rfl⟩ |
      ⟨run, rest, hne, hs, hrest, -, rfl⟩
    · exact h
    · simp at hb
    · have hrest : Prints opened (rest ++ after) := by
        refine ih _ (by rw [← hn]; simp) (fun hr => hb (by simp [hr])) ?_ rfl
        cases rest with
        | nil => simp
        | cons d rest => rwa [List.getLast?_cons_cons] at hlast
      exact hrest.cons hc (tag?_of_ne fun he => hb (by simp [he]))
    · cases rest with
      | nil =>
        rw [List.append_nil, List.getLast?_eq_some_getLast hne] at hlast
        exact absurd (congrArg some (hs _ (List.getLast_mem hne))) hlast
      | cons d rest =>
        have hrest' : Prints opened (d :: rest ++ after) := by
          refine ih _ ?_ (fun hr => hb (List.mem_append_right _ hr)) ?_ rfl
          · rw [← hn, List.length_append]
            have := List.length_pos_iff.2 hne
            omega
          · simpa [List.getLast?_append] using hlast
        rw [List.append_assoc]
        exact run_append hs (by simpa using hrest) (tag?_of_ne fun he => hb (by simp [he])) hrest'

end Prints

/-! ## Escaping -/

theorem escapeFrom_tag (hs : ∀ d ∈ run, d = '\\') (htag : IsTag inside) (n : Nat) :
    escapeFrom (n + 1) (run ++ ('[' :: inside ++ ']' :: after)) =
      (run ++ run ++ ['\\']) ++ ('[' :: inside ++ ']' :: escapeFrom n after) := by
  obtain ⟨c, cs, he⟩ :=
    List.exists_cons_of_ne_nil (l := run ++ ('[' :: inside ++ ']' :: after)) (by simp)
  rw [he, escapeFrom, ← he, takeWhile_run hs (by simp)]
  simp only [List.drop_left, htag.tag?_eq]
  simp

theorem escapeFrom_cons (hc : c ≠ '\\') (ht : tag? (c :: cs) = none) (n : Nat) :
    escapeFrom (n + 1) (c :: cs) = c :: escapeFrom n cs := by
  have hs : (c :: cs).takeWhile (· = '\\') = [] := by simp [hc]
  rw [escapeFrom, hs]
  simp only [List.length_nil, List.drop_zero, ht]

theorem escapeFrom_run (hs : ∀ d ∈ run, d = '\\') (hne : run ≠ []) (hrest : rest.head? ≠ some '\\')
    (ht : tag? rest = none) (n : Nat) : escapeFrom (n + 1) (run ++ rest) = run ++ escapeFrom n rest := by
  obtain ⟨d, run, rfl⟩ := List.exists_cons_of_ne_nil hne
  rw [List.cons_append, escapeFrom, ← List.cons_append, takeWhile_run hs hrest]
  simp only [List.drop_left, ht]

/-- Backslashes stand before a closing bracket wholly or not at all. -/
theorem exists_of_run_append {p q : List Char} (hs : ∀ d ∈ run, d = '\\')
    (h : run ++ rest = p ++ ']' :: q) : ∃ p', p = run ++ p' ∧ rest = p' ++ ']' :: q := by
  rcases List.append_eq_append_iff.1 h with ⟨m, rfl, hm⟩ | ⟨m, rfl, hm⟩
  · exact ⟨m, rfl, hm⟩
  · cases m with
    | nil => exact ⟨[], by simp, by simpa using hm.symm⟩
    | cons d m =>
      obtain ⟨rfl, -⟩ := List.cons.inj hm
      exact absurd (by simp) (notMem_run (c := ']') hs (by decide))

section Tail

variable {tail : List Char} (htail : ∀ d ∈ tail, d = '\\')
include htail

/-- Up to the first bracket that opens, escaping changes nothing. -/
theorem exists_of_escapeFrom {n : Nat} {p q : List Char} (hp : '[' ∉ p)
    (h : escapeFrom n cs ++ tail = p ++ ']' :: q) : ∃ q', cs = p ++ ']' :: q' := by
  have hclose : ']' ∉ tail := notMem_run htail (by decide)
  induction n generalizing cs p with
  | zero =>
    rcases List.append_eq_append_iff.1 h with ⟨m, rfl, hm⟩ | ⟨m, rfl, hm⟩
    · exact absurd (by rw [hm]; simp) hclose
    · cases m with
      | nil => exact absurd (by rw [List.nil_append] at hm; rw [← hm]; simp) hclose
      | cons d m =>
        obtain ⟨rfl, -⟩ := List.cons.inj hm
        exact ⟨m, rfl⟩
  | succ n ih =>
    rcases text_cases cs with rfl | ⟨run, inside, after, hs, htag, rfl⟩ | ⟨c, rest, hc, ht, rfl⟩ |
      ⟨run, rest, hne, hs, hrest, ht, rfl⟩
    · exact absurd (by rw [show tail = p ++ ']' :: q from h]; simp) hclose
    · rw [escapeFrom_tag hs htag, List.append_assoc] at h
      have hrun : ∀ d ∈ run ++ run ++ ['\\'], d = '\\' := by simpa [or_imp, forall_and] using hs
      obtain ⟨p', rfl, h'⟩ := exists_of_run_append hrun h
      cases p' with
      | nil => cases h'
      | cons d p' =>
        obtain ⟨rfl, -⟩ := List.cons.inj h'
        simp at hp
    · rw [escapeFrom_cons hc ht] at h
      cases p with
      | nil =>
        obtain ⟨rfl, -⟩ := List.cons.inj h
        exact ⟨rest, rfl⟩
      | cons d p =>
        obtain ⟨rfl, h'⟩ := List.cons.inj h
        obtain ⟨q', rfl⟩ := ih (fun hmem => hp (by simp [hmem])) h'
        exact ⟨q', rfl⟩
    · rw [escapeFrom_run hs hne hrest ht, List.append_assoc] at h
      obtain ⟨p', rfl, h'⟩ := exists_of_run_append hs h
      obtain ⟨q', rfl⟩ := ih (fun hmem => hp (by simp [hmem])) h'
      exact ⟨q', by simp⟩

theorem tag?_run : tag? tail = none := by
  cases tail with
  | nil => rfl
  | cons d tail => exact tag?_of_ne (by rw [htail d (by simp)]; decide)

theorem tag?_escapeFrom {n : Nat} (hn : cs.length < n) (ht : tag? cs = none) :
    tag? (escapeFrom n cs ++ tail) = none := by
  obtain ⟨n, rfl⟩ := Nat.exists_eq_add_one_of_ne_zero (Nat.ne_zero_of_lt hn)
  -- A run of backslashes that is not empty starts no tag.
  have hslash : ∀ {run rest : List Char}, run ≠ [] → (∀ d ∈ run, d = '\\') →
      tag? (run ++ rest) = none := by
    intro run rest hne hs
    obtain ⟨d, run, rfl⟩ := List.exists_cons_of_ne_nil hne
    exact tag?_of_ne (by rw [hs d (by simp)]; decide)
  rcases text_cases cs with rfl | ⟨run, inside, after, hs, htag, rfl⟩ | ⟨c, rest, hc, -, rfl⟩ |
    ⟨run, rest, hne, hs, hrest, hnone, rfl⟩
  · exact tag?_run htail
  · rw [escapeFrom_tag hs htag, List.append_assoc]
    exact hslash (by simp) (by simpa [or_imp, forall_and] using hs)
  · rw [escapeFrom_cons hc ht, List.cons_append]
    cases h : tag? (c :: (escapeFrom n rest ++ tail)) with
    | none => rfl
    | some found =>
      obtain ⟨htag, he⟩ := tag?_eq_some_iff.1 h
      obtain ⟨rfl, he'⟩ := List.cons.inj he
      obtain ⟨q, rfl⟩ := exists_of_escapeFrom htail htag.notMem he'
      exact absurd ((htag.tag?_eq q).symm.trans ht) (by simp)
  · rw [escapeFrom_run hs hne hrest hnone, List.append_assoc]
    exact hslash hne hs

theorem prints_escapeFrom {n : Nat} (hn : cs.length < n) : Prints opened (escapeFrom n cs ++ tail) := by
  have htailPrints : ∀ {run : List Char}, (∀ d ∈ run, d = '\\') → Prints opened run := fun hs => by
    simpa using Prints.run_append hs (by simp) (tag?_run (by simp)) Prints.nil
  induction n generalizing cs with
  | zero => cases hn
  | succ n ih =>
    rcases text_cases cs with rfl | ⟨run, inside, after, hs, htag, rfl⟩ | ⟨c, rest, hc, ht, rfl⟩ |
      ⟨run, rest, hne, hs, hrest, ht, rfl⟩
    · exact htailPrints htail
    · rw [escapeFrom_tag hs htag, List.append_assoc]
      have hafter : Prints opened (escapeFrom n after ++ tail) := ih (by simp at hn; omega)
      have hodd : (run ++ run ++ ['\\']).length % 2 = 1 := by simp; omega
      simpa using Prints.escaped (by simpa [or_imp, forall_and] using hs) hodd htag hafter
    · have hstep := escapeFrom_cons hc ht n
      have htag := tag?_escapeFrom htail hn ht
      rw [hstep] at htag ⊢
      exact (ih (by simpa using hn)).cons hc htag
    · have hlen : rest.length < n := by
        have := List.length_pos_iff.2 hne
        rw [List.length_append] at hn
        omega
      rw [escapeFrom_run hs hne hrest ht, List.append_assoc]
      cases rest with
      | nil =>
        -- Here the backslashes at the end run on from those of the text.
        obtain ⟨n, rfl⟩ := Nat.exists_eq_add_one_of_ne_zero (Nat.ne_zero_of_lt hlen)
        exact htailPrints (List.forall_mem_append.2 ⟨hs, htail⟩)
      | cons d rest =>
        refine Prints.run_append hs ?_ (tag?_escapeFrom htail hlen ht) (ih hlen)
        obtain ⟨n, rfl⟩ := Nat.exists_eq_add_one_of_ne_zero (Nat.ne_zero_of_lt hlen)
        rw [escapeFrom_cons (by simpa using hrest) ht]
        simpa using hrest

end Tail

theorem exists_toList_escape (s : String) : ∃ tail : List Char, (∀ d ∈ tail, d = '\\') ∧
    (escape s).toList = escapeFrom (s.length + 1) s.toList ++ tail := by
  simp only [escape]
  split
  · exact ⟨[], by simp, by simp⟩
  · exact ⟨['\\'], by simp, by simp⟩
  · exact ⟨[], by simp, by simp⟩

/-- An escaped text can be printed, whatever the text. -/
theorem prints_escape (opened : List Style) (s : String) : Prints opened (escape s).toList := by
  obtain ⟨tail, htail, he⟩ := exists_toList_escape s
  rw [he]
  exact prints_escapeFrom htail (Nat.lt_succ_of_le String.length_toList.le)

end EffectGraph.Markup
