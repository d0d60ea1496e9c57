/-
The files of a project stand in the order of their paths.

With distinct paths this order leaves no choice, so the files that a project is
made of determine its list of files (`files_eq`), and a project of one more file
has that file inserted somewhere (`files_insert`). The smaller project lies in
the larger one if its files ask for no name that starts like that of the
further file (`Embedding.insert`).
-/
import EffectGraph.Proofs.Model.Query
import Mathlib.Data.List.Sort

namespace EffectGraph

namespace SourceFile

/-- A file comes before another one by its path. -/
def Before (f g : SourceFile) : Prop := f.path < g.path

instance : Std.Irrefl Before := ⟨fun f => String.lt_irrefl f.path⟩

instance : Std.Antisymm Before := ⟨fun _ _ h h' => absurd h' (String.lt_asymm h)⟩

/-- Whether a file nests no deeper than can be analysed. -/
def isShallow (f : SourceFile) : Bool := f.tree.root.calls Node.scopeDescent .plain ≤ maxCalls

def withScopes (f : SourceFile) : ScopedFile := ⟨f, .ofFile f⟩

theorem ofText_eq_ok {path text : String} {roots : List String} {f : SourceFile}
    (h : ofText path text roots = .ok f) :
    f.path = path ∧ Tree.parse text = .ok f.tree ∧ f.lines = .ofText text := by
  unfold ofText at h
  split at h
  · cases h
  · cases h
  · cases h
  · next htree =>
    split at h <;> cases h
    exact ⟨rfl, htree, rfl⟩

theorem ofFile?_eq (f : SourceFile) :
    ScopeTable.ofFile? f = if f.isShallow then some (.ofFile f) else none := by
  unfold ScopeTable.ofFile? isShallow
  by_cases h : f.tree.root.calls Node.scopeDescent .plain > maxCalls
  · simp [h]
  · simp [h, Nat.not_lt.1 h]

end SourceFile

namespace Project

/-- The files that a project is made of. -/
def sources (P : Project) : List SourceFile := P.files.map (·.source)

section OfFiles

variable {F G : List SourceFile} {skipped skipped' : List Skipped}

theorem files_ofFiles (F : List SourceFile) (skipped : List Skipped) :
    (ofFiles F skipped).files =
      ((F.mergeSort fun a b => !(b.path < a.path)).filter (·.isShallow)).map (·.withScopes) := by
  simp only [ofFiles]
  generalize (F.mergeSort fun a b => !(b.path < a.path)) = sorted
  induction sorted with
  | nil => rfl
  | cons f sorted ih =>
    rw [List.filterMap_cons, f.ofFile?_eq, List.filter_cons]
    split <;> simp_all [SourceFile.withScopes]

theorem sources_ofFiles (F : List SourceFile) (skipped : List Skipped) :
    (ofFiles F skipped).sources = (F.mergeSort fun a b => !(b.path < a.path)).filter (·.isShallow) := by
  rw [sources, files_ofFiles, List.map_map]
  exact List.map_id _

theorem mem_sources {f : SourceFile} :
    f ∈ (ofFiles F skipped).sources ↔ f ∈ F ∧ f.isShallow = true := by
  rw [sources_ofFiles, List.mem_filter, (List.mergeSort_perm F _).mem_iff]

theorem pairwise_sources (h : (F.map (·.path)).Nodup) :
    (ofFiles F skipped).sources.Pairwise SourceFile.Before := by
  rw [sources_ofFiles]
  refine List.Pairwise.filter _ ?_
  have trans : ∀ a b c : SourceFile, (!(b.path < a.path)) = true → (!(c.path < b.path)) = true →
      (!(c.path < a.path)) = true := by
    intro a b c hab hbc
    simp only [Bool.not_eq_true', decide_eq_false_iff_not, String.not_lt] at *
    exact String.le_trans hab hbc
  have total : ∀ a b : SourceFile, (!(b.path < a.path) || !(a.path < b.path)) = true := by
    intro a b
    simp only [Bool.or_eq_true, Bool.not_eq_true', decide_eq_false_iff_not, String.not_lt]
    exact String.le_total a.path b.path
  have sorted := List.pairwise_mergeSort trans total F
  have distinct : (F.mergeSort fun a b => !(b.path < a.path)).Pairwise fun a b => a.path ≠ b.path := by
    have hperm := (List.mergeSort_perm F fun a b => !(b.path < a.path)).map (·.path)
    exact List.pairwise_map.1 (hperm.nodup_iff.2 h)
  refine (sorted.and distinct).imp fun {a b} hab => ?_
  simp only [Bool.not_eq_true', decide_eq_false_iff_not, String.not_lt] at hab
  by_contra hlt
  exact hab.2 (String.le_antisymm hab.1 (String.not_lt.1 hlt))

theorem files_eq_map_withScopes (F : List SourceFile) (skipped : List Skipped) :
    (ofFiles F skipped).files = (ofFiles F skipped).sources.map (·.withScopes) := by
  rw [sources_ofFiles, files_ofFiles]

/-- The order of the paths leaves no choice. -/
theorem files_eq (hF : (F.map (·.path)).Nodup) (hG : (G.map (·.path)).Nodup)
    (h : ∀ f, f.isShallow = true → (f ∈ F ↔ f ∈ G)) :
    (ofFiles F skipped).files = (ofFiles G skipped').files := by
  rw [files_eq_map_withScopes, files_eq_map_withScopes]
  refine congrArg _ (List.Pairwise.eq_of_mem_iff (pairwise_sources hF) (pairwise_sources hG) fun f => ?_)
  rw [mem_sources, mem_sources]
  exact and_congr_left (h f)

/-- A further file stands somewhere between the others, unless it is left out. -/
theorem files_insert {N : SourceFile} (hpaths : ((N :: F).map (·.path)).Nodup)
    (hperm : G.Perm (N :: F)) :
    ∃ before inserted after, (ofFiles F skipped).files = before ++ after ∧
      (ofFiles G skipped').files = before ++ inserted ++ after ∧ ∀ n ∈ inserted, n = N.withScopes := by
  have hG : (G.map (·.path)).Nodup := (hperm.map _).nodup_iff.2 hpaths
  have hF : (F.map (·.path)).Nodup := hpaths.of_cons
  by_cases hN : N.isShallow = true
  · have hmem : N ∈ (ofFiles G skipped').sources := mem_sources.2 ⟨hperm.mem_iff.2 (by simp), hN⟩
    obtain ⟨before, after, hsources⟩ := List.append_of_mem hmem
    have hsorted : (ofFiles G skipped').sources.Pairwise SourceFile.Before := pairwise_sources hG
    rw [hsources] at hsorted
    have hnodup : (before ++ N :: after).Nodup := hsorted.imp fun h he => by
      subst he
      exact String.lt_irrefl _ h
    -- Without the further file the list is still in order, and it has the files of the others.
    have hrest : (ofFiles F skipped).sources = before ++ after := by
      refine List.Pairwise.eq_of_mem_iff (pairwise_sources hF) (hsorted.sublist (by simp)) fun f => ?_
      have hiff : f ∈ before ++ N :: after ↔ f ∈ G ∧ f.isShallow = true := by
        rw [← hsources, mem_sources]
      have hother : f ∈ before ++ after → f ≠ N := by
        rintro hf rfl
        exact (List.nodup_middle.1 hnodup).notMem hf
      have hnot : f ∈ F → f ≠ N := by
        rintro hf rfl
        exact hpaths.notMem (List.mem_map_of_mem hf)
      rw [mem_sources]
      simp only [List.mem_append, List.mem_cons, hperm.mem_iff] at hiff hother ⊢
      constructor
      · rintro ⟨hf, hshallow⟩
        rcases hiff.2 ⟨.inr hf, hshallow⟩ with h | h | h
        · exact .inl h
        · exact absurd h (hnot hf)
        · exact .inr h
      · intro hf
        obtain ⟨h, hshallow⟩ := hiff.1 (hf.imp_right .inr)
        exact ⟨h.resolve_left (hother hf), hshallow⟩
    refine ⟨before.map (·.withScopes), [N.withScopes], after.map (·.withScopes), ?_, ?_, by simp⟩
    · rw [files_eq_map_withScopes, hrest, List.map_append]
    · rw [files_eq_map_withScopes, hsources]
      simp
  · refine ⟨(ofFiles F skipped).files, [], [], by simp, ?_, by simp⟩
    rw [List.append_nil, List.append_nil]
    refine files_eq hG hF fun f hf => ?_
    rw [hperm.mem_iff, List.mem_cons, or_iff_right]
    rintro rfl
    exact hN hf

end OfFiles

/-! ## Further files -/

variable {P Q : Project}

/-- A module is the first file that implements it, otherwise the first one that declares it. -/
theorem module?_eq (hP : P.Sound) (name : String) :
    P.module? name = (P.sources.findIdx? fun f => !f.isStub && f.module == name).or
      (P.sources.findIdx? fun f => f.isStub && f.module == name) := by
  have find : ∀ (p : SourceFile → Bool) (named : SourceFile × Nat → SourceFile × String × Nat)
      (files : List SourceFile), (∀ x, named x = (x.1, x.1.module, x.2)) →
      ((((files.zipIdx.map named).filter fun x => p x.1).map (·.2)).find? (·.1 == name)).map (·.2) =
        files.findIdx? fun f => p f && f.module == name := by
    intro p named files hnamed
    rw [List.find?_map, List.find?_filter, List.find?_map, List.findIdx?_eq_fst_find?_zipIdx]
    simp [Function.comp_def, Bool.beq_eq_decide_eq, hnamed]
  rw [module?, hP.modules_eq, modulesOf, List.find?_append, Option.map_or,
    find (fun f => !f.isStub) _ _ fun _ => rfl, find (·.isStub) _ _ fun _ => rfl]
  rfl

/-- The places of files after further files are inserted at a place. -/
def insertedPlace (start length i : Nat) : Nat := if i < start then i else i + length

theorem insertedPlace_of_lt {start length i : Nat} (h : i < start) : insertedPlace start length i = i :=
  if_pos h

theorem insertedPlace_add (start length j : Nat) :
    insertedPlace start length (start + j) = start + length + j := by
  rw [insertedPlace, if_neg (by omega)]
  omega

theorem insertedPlace_injective (start length : Nat) : Function.Injective (insertedPlace start length) := by
  intro i j h
  unfold insertedPlace at h
  split at h <;> split at h <;> omega

theorem findIdx?_insert {α : Type} {p : α → Bool} {before inserted after : List α}
    (h : ∀ x ∈ inserted, p x = false) :
    (before ++ inserted ++ after).findIdx? p =
      ((before ++ after).findIdx? p).map (insertedPlace before.length inserted.length) := by
  rw [List.findIdx?_append, List.findIdx?_append, List.findIdx?_append,
    List.findIdx?_eq_none_iff.2 h, Option.map_none, Option.or_none]
  cases hb : before.findIdx? p with
  | some i =>
    have hi : i < before.length := (List.findIdx?_eq_some_iff_getElem.1 hb).1
    simp [insertedPlace_of_lt hi]
  | none =>
    cases after.findIdx? p with
    | none => rfl
    | some j =>
      have hplace := insertedPlace_add before.length inserted.length j
      simp [Nat.add_comm j, hplace]

theorem firstPart_of_mem_packagesOf {name module : String} (h : name ∈ packagesOf module) :
    firstPart name = firstPart module := by
  obtain ⟨i, -, rfl⟩ := List.mem_map.1 h
  exact firstPart_intercalate_take module i

/-- A project lies in the one with further files, if none of its imports asks for a name that
starts like that of one of them. -/
def Embedding.insert (hP : P.Sound) (hQ : Q.Sound) {before inserted after : List ScopedFile}
    (hp : P.files = before ++ after) (hq : Q.files = before ++ inserted ++ after)
    (himports : ∀ f ∈ P.files, ∀ s ∈ f.scopes.scopes, ∀ b ∈ s.bindings, b.kind = .imported →
      ∀ t, b.target = some t → ∀ n ∈ inserted, firstPart t ≠ firstPart n.source.module) :
    Embedding P Q where
  place := insertedPlace before.length inserted.length
  known x := ∀ n ∈ inserted, x ≠ firstPart n.source.module
  sound := hP
  injective := insertedPlace_injective _ _
  file i := by
    unfold file? insertedPlace
    rw [hp, hq]
    split
    · next hi => rw [List.append_assoc, List.getElem?_append_left hi, List.getElem?_append_left hi]
    · next hi =>
      rw [List.getElem?_append_right (by simp; omega), List.getElem?_append_right (by omega)]
      congr 1
      simp only [List.length_append]
      omega
  module {name} hname := by
    have hnone : ∀ (p : SourceFile → Bool), ∀ f ∈ inserted.map (·.source),
        (p f && f.module == name) = false := by
      intro p f hf
      obtain ⟨n, hn, rfl⟩ := List.mem_map.1 hf
      have hne : n.source.module ≠ name := fun he => hname n hn (he ▸ rfl)
      simp [hne]
    rw [module?_eq hP, module?_eq hQ, sources, sources, hp, hq]
    simp only [List.map_append]
    rw [findIdx?_insert (hnone fun f => !f.isStub), findIdx?_insert (hnone (·.isStub)), Option.map_or]
    simp only [List.length_map]
  package {name} hname := by
    have hnone : (inserted.flatMap fun f => packagesOf f.source.module).contains name = false := by
      rw [List.contains_eq_mem, decide_eq_false_iff_not, List.mem_flatMap]
      rintro ⟨n, hn, hmem⟩
      exact hname n hn (firstPart_of_mem_packagesOf hmem)
    rw [hP.packages_eq, hQ.packages_eq, hp, hq]
    simp only [List.flatMap_append, List.contains_append, hnone, Bool.or_false]
  size_le := by
    rw [hP.size_eq, hQ.size_eq, hp, hq]
    simp only [List.map_append, List.sum_append]
    omega
  imports {i f} hf s hs b hb hk t ht :=
    himports f (List.mem_of_getElem? hf) s hs b hb hk t ht

end Project

end EffectGraph
