/-
What is asked of a frontend.

A line of the program is made of its own tags, of texts between them and perhaps
of an escaped text at the end. A frontend has to print such a line if the tags
are nested (`Nested`) and the texts between them hold no bracket; of all other
texts with markup nothing is asked. The frontend that the program runs with does
so (`Frontend.standard_renders`): whatever else is open by then, a style that
was opened can be closed.
-/
import EffectGraph.Cli.Standard
import EffectGraph.Proofs.Report.Markup
import Mathlib.Data.List.Induction

namespace EffectGraph.Cli

open Markup (Style Prints IsTag styleName)

/-- The styles that the program opens. -/
def styles : List String :=
  ["bold", "dim", "cyan", "green", "red", "yellow", "blue", "progress.description"]

/-- A text with tags of the program, from a point on where some styles are open. A closing tag may
stand behind a backslash, which makes it text: then the style just stays open. -/
inductive Nested (escape : String → String) : List String → List Char → Prop
  | plain {opened : List String} {seg : List Char} (hseg : '[' ∉ seg) : Nested escape opened seg
  | escaped {opened : List String} {seg : List Char} (hseg : '[' ∉ seg)
      (hlast : seg.getLast? ≠ some '\\') (message : String) :
      Nested escape opened (seg ++ (escape message).toList)
  | opening {opened : List String} {style : String} {seg rest : List Char} (hseg : '[' ∉ seg)
      (hlast : seg.getLast? ≠ some '\\') (hstyle : style ∈ styles)
      (h : Nested escape (style :: opened) rest) :
      Nested escape opened (seg ++ ('[' :: style.toList ++ ']' :: rest))
  | closing {opened : List String} {style : String} {seg rest : List Char} (hseg : '[' ∉ seg)
      (h : Nested escape opened rest) :
      Nested escape (style :: opened) (seg ++ ('[' :: ['/'] ++ ']' :: rest))
  | closingBy {opened : List String} {style : String} {seg rest : List Char} (hseg : '[' ∉ seg)
      (hstyle : style ∈ styles) (h : Nested escape opened rest) :
      Nested escape (style :: opened) (seg ++ ('[' :: ('/' :: style.toList) ++ ']' :: rest))

/-- What is asked of a frontend: it prints the lines that are made so. -/
structure Frontend.Renders (F : Frontend) : Prop where
  nested : ∀ text : String, Nested F.escape [] text.toList → ∃ out, F.marked? text = some out

namespace Nested

variable {escape : String → String} {opened : List String} {style : String} {seg rest inner : List Char}

/-- Text before a nested text. -/
theorem text (hseg : '[' ∉ seg) (hlast : seg.getLast? ≠ some '\\') (h : Nested escape opened rest) :
    Nested escape opened (seg ++ rest) := by
  have hboth : ∀ {seg' : List Char}, '[' ∉ seg' → '[' ∉ seg ++ seg' := fun h =>
    fun hmem => (List.mem_append.1 hmem).elim hseg h
  have hend : ∀ {seg' : List Char}, seg'.getLast? ≠ some '\\' → (seg ++ seg').getLast? ≠ some '\\' := by
    intro seg' h
    rw [List.getLast?_append]
    cases he : seg'.getLast? with
    | none => exact hlast
    | some c =>
      rw [he] at h
      exact h
  cases h with
  | plain h => exact .plain (hboth h)
  | escaped h hl message =>
    rw [← List.append_assoc]
    exact .escaped (hboth h) (hend hl) message
  | opening h hl hstyle hrest =>
    rw [← List.append_assoc]
    exact .opening (hboth h) (hend hl) hstyle hrest
  | closing h hrest =>
    rw [← List.append_assoc]
    exact .closing (hboth h) hrest
  | closingBy h hstyle hrest =>
    rw [← List.append_assoc]
    exact .closingBy (hboth h) hstyle hrest

theorem empty : Nested escape opened [] := .plain (by simp)

/-- A text that starts with a style. -/
theorem started (hstyle : style ∈ styles) (h : Nested escape (style :: opened) rest) :
    Nested escape opened ('[' :: style.toList ++ ']' :: rest) :=
  @Nested.opening escape opened style [] rest (by simp) (by simp) hstyle h

/-- A style around a text. -/
theorem styled (hstyle : style ∈ styles) (hinner : '[' ∉ inner) (h : Nested escape opened rest) :
    Nested escape opened ('[' :: style.toList ++ ']' :: (inner ++ ('[' :: ['/'] ++ ']' :: rest))) :=
  .started hstyle (.closing hinner h)

end Nested

/-! ## The frontend of the program -/

/-- The tags of the program are tags, and they open and close their own styles. -/
theorem isTag_style {style : String} (h : style ∈ styles) :
    IsTag style.toList ∧ IsTag ('/' :: style.toList) ∧ ∀ opened,
      (∃ parameters, Markup.turn opened style.toList =
        some (⟨styleName style.toList, parameters⟩ :: opened)) ∧
      Markup.turn opened ('/' :: style.toList) =
        Markup.close? (·.name == styleName style.toList) opened := by
  have hall : ∀ style ∈ styles, Markup.tag? ('[' :: style.toList ++ [']']) = some (style.toList, []) ∧
      Markup.tag? ('[' :: ('/' :: style.toList) ++ [']']) = some ('/' :: style.toList, []) ∧
      style.toList.head? ≠ some '/' ∧ style.toList.takeWhile (· != '=') = style.toList ∧
      (Markup.trim style.toList).isEmpty = false := by
    decide +kernel
  obtain ⟨htag, hclosing, hslash, htake, htrim⟩ := hall style h
  refine ⟨(Markup.tag?_eq_some_iff.1 htag).1, (Markup.tag?_eq_some_iff.1 hclosing).1, fun opened => ⟨?_, ?_⟩⟩
  · unfold Markup.turn
    split
    · next name he => simp [he] at hslash
    · exact ⟨_, by rw [htake]⟩
  · simp only [Markup.turn, htrim]
    rfl

theorem head?_styleName {style : String} (h : style ∈ styles) :
    (styleName style.toList).head? ≠ some '@' := by
  have hall : ∀ style ∈ styles, (styleName style.toList).head? ≠ some '@' := by decide +kernel
  exact hall style h

/-- Among the open styles are some with these names in their order, and all can be closed. -/
structure HasOpen (stack : List Style) (names : List (List Char)) : Prop where
  sublist : names.Sublist (stack.map (·.name))
  closable : ∀ s ∈ stack, s.name.head? ≠ some '@'

/-- Closing the first of the styles leaves the others open. A further style may be closed in its
place. -/
theorem HasOpen.close {stack : List Style} {name : List Char} {names : List (List Char)}
    (h : HasOpen stack (name :: names)) (test : Style → Bool)
    (htest : ∀ s : Style, s.name = name → test s = true) :
    ∃ stack', Markup.close? test stack = some stack' ∧ HasOpen stack' names := by
  obtain ⟨hsub, hclosable⟩ := h
  induction stack with
  | nil => cases hsub
  | cons s stack ih =>
    obtain ⟨hs, hstack⟩ := List.forall_mem_cons.1 hclosable
    cases htested : test s with
    | true =>
      refine ⟨stack, by simp [Markup.close?, htested, hs], ?_, hstack⟩
      exact hsub.tail
    | false =>
      rw [List.map_cons] at hsub
      cases hsub with
      | cons _ hsub =>
        obtain ⟨stack', hclose, hholds⟩ := ih hsub hstack
        refine ⟨s :: stack', by simp [Markup.close?, htested, hclose], ?_, ?_⟩
        · exact hholds.sublist.trans (List.sublist_cons_self _ _)
        · exact List.forall_mem_cons.2 ⟨hs, hholds.closable⟩
      | cons_cons => rw [htest s rfl] at htested; cases htested

theorem HasOpen.weaken {stack : List Style} {name : List Char} {names : List (List Char)}
    (h : HasOpen stack (name :: names)) : HasOpen stack names :=
  ⟨(List.sublist_cons_self _ _).trans h.sublist, h.closable⟩

/-- The backslashes at the end of a text. -/
theorem exists_run (seg : List Char) : ∃ before run : List Char, seg = before ++ run ∧
    (∀ d ∈ run, d = '\\') ∧ before.getLast? ≠ some '\\' := by
  induction seg using List.reverseRec with
  | nil => exact ⟨[], [], rfl, by simp, by simp⟩
  | append_singleton seg c ih =>
    by_cases hc : c = '\\'
    · obtain ⟨before, run, rfl, hrun, hlast⟩ := ih
      refine ⟨before, run ++ [c], by simp, ?_, hlast⟩
      simpa [or_imp, forall_and, hc] using hrun
    · exact ⟨seg ++ [c], [], by simp, by simp, by simpa using hc⟩

/-- A closing tag can be printed whatever stands before it, because what follows can be printed with
the style closed and with the style still open. -/
theorem prints_closing {stack stack' : List Style} {seg inside rest : List Char} (hseg : '[' ∉ seg)
    (htag : IsTag inside) (hturn : Markup.turn stack inside = some stack')
    (hclosed : Prints stack' rest) (hopen : Prints stack rest) :
    Prints stack (seg ++ ('[' :: inside ++ ']' :: rest)) := by
  obtain ⟨before, run, rfl, hrun, hlast⟩ := exists_run seg
  rw [List.append_assoc]
  refine Prints.plain (fun hmem => hseg (by simp [hmem])) hlast ?_
  rcases Nat.mod_two_eq_zero_or_one run.length with heven | hodd
  · exact Prints.tag hrun heven htag hturn hclosed
  · exact Prints.escaped hrun hodd htag hopen

theorem Nested.prints {opened : List String} {cs : List Char} (h : Nested Markup.escape opened cs) :
    ∀ {stack : List Style}, HasOpen stack (opened.map fun s => styleName s.toList) → Prints stack cs := by
  induction h with
  | @plain opened seg hseg =>
    intro stack _
    obtain ⟨before, run, rfl, hrun, hlast⟩ := exists_run seg
    refine Prints.plain (fun hmem => hseg (by simp [hmem])) hlast ?_
    simpa using Prints.run_append hrun (by simp) rfl (Prints.nil : Prints stack [])
  | escaped hseg hlast message =>
    intro stack _
    exact Prints.plain hseg hlast (Markup.prints_escape stack message)
  | @opening opened style seg rest hseg hlast hstyle _ ih =>
    intro stack hstack
    obtain ⟨htag, -, hturns⟩ := isTag_style hstyle
    obtain ⟨parameters, hturn⟩ := (hturns stack).1
    have hname := head?_styleName hstyle
    rw [List.map_cons] at ih
    generalize styleName style.toList = name at ih hturn hname
    have hnext : HasOpen (⟨name, parameters⟩ :: stack) (name :: opened.map fun s => styleName s.toList) :=
      ⟨hstack.sublist.cons_cons _, List.forall_mem_cons.2 ⟨hname, hstack.closable⟩⟩
    exact Prints.plain hseg hlast (Prints.tag (show ∀ c ∈ [], c = '\\' by simp) rfl htag hturn (ih hnext))
  | @closing opened style seg rest hseg _ ih =>
    intro stack hstack
    rw [List.map_cons] at hstack
    obtain ⟨stack', hclose, hholds⟩ := hstack.close (fun _ => true) fun _ _ => rfl
    exact prints_closing hseg ⟨'/', [], rfl, rfl, by simp⟩ hclose (ih hholds) (ih hstack.weaken)
  | @closingBy opened style seg rest hseg hstyle _ ih =>
    intro stack hstack
    rw [List.map_cons] at hstack
    obtain ⟨-, htag, hturns⟩ := isTag_style hstyle
    have hturn := (hturns stack).2
    generalize styleName style.toList = name at hstack hturn
    obtain ⟨stack', hclose, hholds⟩ :=
      hstack.close (·.name == name) fun s hs => beq_iff_eq.2 hs
    exact prints_closing hseg htag (hturn.trans hclose) (ih hholds) (ih hstack.weaken)

/-- The frontend of the program prints the program's lines. -/
theorem Frontend.standard_renders : Frontend.standard.Renders where
  nested _ h := Markup.printed?_of_prints (h.prints ⟨.refl _, by simp⟩)

end EffectGraph.Cli
