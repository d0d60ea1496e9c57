/-
The id of a function tells the path of its file, its offset there and its name.

An id ends with a colon, the offset, a colon and the name. A path may hold
colons of its own, so an id is read from its end. A name that the text gives
holds no colon, so the last two colons are those around the offset. The name of
an anonymous function holds one more, but what stands before it starts with a
bracket and is not taken for an offset.
-/
import EffectGraph.Proofs.Function.Inventory

namespace EffectGraph

/-- What a function can be called: a name in the text, or a name after its place. -/
def IsFunctionName (name : String) : Prop :=
  (∃ identifier : Identifier, name = identifier.text) ∨ ∃ position, name = anonymousName position

theorem split_last {c : Char} {a a' b b' : List Char} (h : a ++ c :: b = a' ++ c :: b') (hb : c ∉ b)
    (hb' : c ∉ b') : a = a' ∧ b = b' := by
  rcases List.append_eq_append_iff.1 h with ⟨m, rfl, hm⟩ | ⟨m, rfl, hm⟩
  · cases m with
    | nil => simpa using hm
    | cons x m =>
      obtain ⟨-, rfl⟩ := List.cons.inj hm
      simp at hb
  · cases m with
    | nil => simpa using hm.symm
    | cons x m =>
      obtain ⟨-, rfl⟩ := List.cons.inj hm
      simp at hb'

theorem split_first {c : Char} {a a' b b' : List Char} (h : a ++ c :: b = a' ++ c :: b') (ha : c ∉ a)
    (ha' : c ∉ a') : a = a' ∧ b = b' := by
  have hreverse : b.reverse ++ c :: a.reverse = b'.reverse ++ c :: a'.reverse := by
    simpa using congrArg List.reverse h
  obtain ⟨hb, ha⟩ := split_last hreverse (by simpa using ha) (by simpa using ha')
  exact ⟨List.reverse_injective ha, List.reverse_injective hb⟩

theorem notMem_toDigits {n : Nat} {c : Char} (hc : c.isDigit = false) : c ∉ Nat.toDigits 10 n := by
  intro h
  rw [Nat.isDigit_of_mem_toDigits (by decide) (by decide) h] at hc
  cases hc

theorem toDigits_injective : Function.Injective (Nat.toDigits 10) := by
  intro m n h
  rw [← Nat.ofDigitChars_ten_toDigits (n := m), h, Nat.ofDigitChars_ten_toDigits]

theorem Identifier.notMem_text {c : Char} (hc : isWordChar c = false) (name : Identifier) :
    c ∉ name.text.toList := by
  intro h
  rw [List.all_eq_true.1 name.isWord c h] at hc
  cases hc

theorem toList_anonymousName (position : Nat × Nat) :
    ∃ start stop : List Char, ':' ∉ start ∧ '<' ∈ start ∧ ':' ∉ stop ∧
      (anonymousName position).toList = start ++ ':' :: stop := by
  have hdigits : ∀ n, ':' ∉ Nat.toDigits 10 n := fun n => notMem_toDigits rfl
  refine ⟨"<anonymous@".toList ++ Nat.toDigits 10 position.1, Nat.toDigits 10 position.2 ++ ['>'],
    ?_, ?_, ?_, ?_⟩
  · rw [List.mem_append]
    exact fun h => h.elim (by decide) (hdigits _)
  · exact List.mem_append_left _ (by decide)
  · rw [List.mem_append]
    exact fun h => h.elim (hdigits _) (by decide)
  · simp [anonymousName, toString]

/-- What an id can end with: any text without a colon, or the name of an anonymous function. -/
def IsIdName (name : String) : Prop :=
  ':' ∉ name.toList ∨ ∃ position, name = anonymousName position

theorem IsFunctionName.isIdName {name : String} (h : IsFunctionName name) : IsIdName name := by
  rcases h with ⟨identifier, rfl⟩ | hposition
  · exact .inl (identifier.notMem_text (by decide))
  · exact .inr hposition

namespace FoundFunction

variable {path path' : String} {offset offset' : Nat} {name name' : String}

theorem toList_idOf (path : String) (offset : Nat) (name : String) :
    (idOf path offset name).toList =
      (path.toList ++ ':' :: Nat.toDigits 10 offset) ++ ':' :: name.toList := by
  simp [idOf, toString]

theorem place_eq_of_toList_eq
    (h : path.toList ++ ':' :: Nat.toDigits 10 offset = path'.toList ++ ':' :: Nat.toDigits 10 offset') :
    path = path' ∧ offset = offset' := by
  obtain ⟨hpath, hdigits⟩ := split_last h (notMem_toDigits rfl) (notMem_toDigits rfl)
  exact ⟨String.toList_inj.1 hpath, toDigits_injective hdigits⟩

/-- Before the last colon stands an offset in one id, and a bracket and a line in the other. -/
theorem idOf_ne_of_notMem_colon (hname : ':' ∉ name.toList) (position : Nat × Nat) :
    idOf path offset name ≠ idOf path' offset' (anonymousName position) := by
  intro h
  obtain ⟨start, stop, hstart, hbracket, hstop, hposition⟩ := toList_anonymousName position
  replace h := congrArg String.toList h
  rw [toList_idOf, toList_idOf, hposition, ← List.cons_append, ← List.append_assoc] at h
  have hbefore := (split_last h hname hstop).1
  have hoffset := (split_last hbefore (notMem_toDigits rfl) hstart).2
  rw [← hoffset] at hbracket
  exact notMem_toDigits rfl hbracket

/-- An id is read from its end. -/
theorem eq_of_idOf_eq (hname : IsIdName name) (hname' : IsIdName name')
    (h : idOf path offset name = idOf path' offset' name') :
    path = path' ∧ offset = offset' ∧ name = name' := by
  rcases hname with hcolon | ⟨position, rfl⟩ <;> rcases hname' with hcolon' | ⟨position', rfl⟩
  · replace h := congrArg String.toList h
    rw [toList_idOf, toList_idOf] at h
    obtain ⟨hplace, hname⟩ := split_last h hcolon hcolon'
    obtain ⟨hpath, hoffset⟩ := place_eq_of_toList_eq hplace
    exact ⟨hpath, hoffset, String.toList_inj.1 hname⟩
  · exact absurd h (idOf_ne_of_notMem_colon hcolon position')
  · exact absurd h.symm (idOf_ne_of_notMem_colon hcolon' position)
  · obtain ⟨start, stop, hstart, -, hstop, hposition⟩ := toList_anonymousName position
    obtain ⟨start', stop', hstart', -, hstop', hposition'⟩ := toList_anonymousName position'
    replace h := congrArg String.toList h
    rw [toList_idOf, toList_idOf, hposition, hposition', ← List.cons_append, ← List.cons_append,
      ← List.append_assoc, ← List.append_assoc] at h
    obtain ⟨hbefore, rfl⟩ := split_last h hstop hstop'
    obtain ⟨hplace, rfl⟩ := split_last hbefore hstart hstart'
    obtain ⟨hpath, hoffset⟩ := place_eq_of_toList_eq hplace
    exact ⟨hpath, hoffset, String.toList_inj.1 (hposition.trans hposition'.symm)⟩

theorem isFunctionName (found : FoundFunction) (f : SourceFile) (i : Nat) :
    IsFunctionName (found.toFunction f i).label.name := by
  cases h : found.name with
  | none => exact .inr ⟨f.position found.node, by simp [toFunction, h]⟩
  | some name => exact .inl ⟨name, by simp [toFunction, h]⟩

/-- The id of a function tells where it stands. -/
theorem place_eq_of_id_eq {found found' : FoundFunction} {f f' : SourceFile} {i j : Nat}
    (h : (found.toFunction f i).id = (found'.toFunction f' j).id) :
    f.path = f'.path ∧ f.offset found.node = f'.offset found'.node := by
  obtain ⟨hpath, hoffset, -⟩ :=
    eq_of_idOf_eq (found.isFunctionName f i).isIdName (found'.isFunctionName f' j).isIdName h
  exact ⟨hpath, hoffset⟩

end FoundFunction

/-- Functions of one id stand in files of one path. -/
theorem Project.path_eq_of_id_eq {P : Project} {ignore : List String} {f g : Function}
    (hf : f ∈ P.functions ignore) (hg : g ∈ P.functions ignore) (h : f.id = g.id) :
    f.label.path = g.label.path := by
  obtain ⟨i, file, -, -, found, -, rfl⟩ := mem_functions.1 hf
  obtain ⟨j, file', -, -, found', -, rfl⟩ := mem_functions.1 hg
  exact (FoundFunction.place_eq_of_id_eq h).1

end EffectGraph
