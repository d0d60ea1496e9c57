/-
An id names one function of a project.

Functions start at tokens of the text (`Tree.parse_starts`), tokens start at
characters, and the offsets of characters differ. So the functions of a file
have different offsets, as long as the parser and the table of lines agree on
what a line is. They do where every carriage return is followed by a line feed:
a carriage return that stands alone ends a line for the parser and not for the
table. Functions of different files differ in the path, and an id can be read in
one way only (`ids_decode`), so they never share an id.
-/
import EffectGraph.Proofs.Function.Id
import EffectGraph.Proofs.Grammar.Statement
import EffectGraph.Proofs.Report.Texts
import EffectGraph.Proofs.Text.Lines

namespace EffectGraph

/-- The functions of a file have different offsets. -/
theorem SourceFile.nodup_offsets {path text : String} {roots : List String} {f : SourceFile}
    (h : ofText path text roots = .ok f) (hpaired : Token.returnsPaired text.toList) :
    ((f.tree.root.functions false).map fun found => f.offset found.node).Nodup := by
  obtain ⟨-, htree, hlines⟩ := ofText_eq_ok h
  obtain ⟨tokens, htokens, hstarts⟩ := Tree.parse_starts htree
  have hplaces := hstarts.trans (Token.marks_scanFile htokens hpaired)
  have hoffsets := hplaces.map (Text.Lines.ofText text).offset
  rw [Text.Lines.map_offset_along, Node.functionStarts, List.map_map] at hoffsets
  simp only [offset, hlines]
  exact hoffsets.nodup List.nodup_range

namespace Project

variable {P : Project} {ignore : List String}

theorem nodup_functions (P : Project) (ignore : List String) : (P.functions ignore).Nodup := by
  rw [functions, List.nodup_flatMap]
  constructor
  · rintro ⟨f, i⟩ -
    simp only
    split
    · have hnumbers := (Node.nodup_functionNumbers _ false f.source.tree.nodup_index).1
      refine List.Nodup.of_map (·.node.index) ?_
      rw [List.map_map]
      exact hnumbers
    · exact .nil
  · have hplaces : P.files.zipIdx.Pairwise fun x y => x.2 ≠ y.2 := by
      rw [← List.pairwise_map, List.zipIdx_map_snd]
      exact List.nodup_range'
    refine hplaces.imp fun {x y} hxy => ?_
    have file : ∀ {z : ScopedFile × Nat} {k : Function}, (k ∈ if isAnalyzed ignore z.1.source then
        (z.1.source.tree.root.functions false).map (·.toFunction z.1.source z.2) else []) →
        k.file = z.2 := by
      intro z k hk
      split at hk
      · obtain ⟨found, -, rfl⟩ := List.mem_map.1 hk
        rfl
      · cases hk
    exact fun k hx hy => hxy ((file hx).symm.trans (file hy))

theorem place_eq_of_path_eq {F : List SourceFile} {skipped : List Skipped}
    (hpaths : (F.map (·.path)).Nodup) {i j : Nat} {f g : ScopedFile}
    (hf : (ofFiles F skipped).file? i = some f) (hg : (ofFiles F skipped).file? j = some g)
    (h : f.source.path = g.source.path) : i = j := by
  have hnodup : ((ofFiles F skipped).files.map (·.source.path)).Nodup := by
    have hbefore : (ofFiles F skipped).sources.Pairwise SourceFile.Before := pairwise_sources hpaths
    rw [sources, List.pairwise_map] at hbefore
    exact List.pairwise_map.2 (hbefore.imp String.ne_of_lt)
  rw [file?] at hf hg
  refine (List.getElem?_inj ?_ hnodup).1 ?_
  · rw [List.length_map]
    exact (List.getElem?_eq_some_iff.1 hf).1
  · rw [List.getElem?_map, List.getElem?_map, hf, hg]
    exact congrArg some h

variable {texts : List (String × String)} {roots : List String}

/-- Two functions of one id stand in one file, and a carriage return stands alone in its text. -/
theorem lone_return_of_id_eq (hpaths : (texts.map (·.1)).Nodup) (h : ofTexts texts roots = .ok P)
    {f g : Function} (hf : f ∈ P.functions ignore) (hg : g ∈ P.functions ignore) (hne : f ≠ g)
    (hid : f.id = g.id) :
    ∃ x ∈ texts, x.1 = f.label.path ∧ x.1 = g.label.path ∧ Token.returnsPaired x.2.toList = false := by
  obtain ⟨rfl, -⟩ := ofTexts_eq_ok h
  obtain ⟨i, file, hi, -, found, hfound, rfl⟩ := mem_functions.1 hf
  obtain ⟨j, file', hj, -, found', hfound', rfl⟩ := mem_functions.1 hg
  obtain ⟨hpath, hoffset⟩ := FoundFunction.place_eq_of_id_eq hid
  obtain rfl := place_eq_of_path_eq (nodup_paths_readFiles hpaths) hi hj hpath
  obtain rfl : file = file' := Option.some.inj (hi.symm.trans hj)
  have hsource : file.source ∈ (ofFiles (readFiles (readTexts texts roots))
      (readSkipped (readTexts texts roots))).sources :=
    List.mem_map_of_mem (List.mem_of_getElem? hi)
  obtain ⟨x, hx, hread⟩ := mem_readFiles.1 (mem_sources.1 hsource).1
  have hxpath := SourceFile.path_of_ofText hread
  refine ⟨x, hx, hxpath.symm, hxpath.symm, ?_⟩
  cases hpaired : Token.returnsPaired x.2.toList with
  | false => rfl
  | true =>
    have hnodup := SourceFile.nodup_offsets hread hpaired
    have hfound := List.inj_on_of_nodup_map hnodup hfound hfound' hoffset
    exact absurd (by rw [hfound]) hne

/-- Ids are unique, unless a carriage return stands alone. Where one does, only functions of that
file can share an id. -/
theorem nodup_ids (hpaths : (texts.map (·.1)).Nodup) (h : ofTexts texts roots = .ok P) :
    ((∀ x ∈ texts, Token.returnsPaired x.2.toList) → ((P.functions ignore).map Function.id).Nodup) ∧
      ∀ f ∈ P.functions ignore, ∀ g ∈ P.functions ignore, f ≠ g → f.id = g.id →
        ∃ x ∈ texts, x.1 = f.label.path ∧ x.1 = g.label.path ∧
          Token.returnsPaired x.2.toList = false := by
  refine ⟨fun hpaired => ?_, fun f hf g hg => lone_return_of_id_eq hpaths h hf hg⟩
  refine List.Nodup.map_on (fun f hf g hg hid => ?_) (P.nodup_functions ignore)
  by_contra hne
  obtain ⟨x, hx, -, -, hlone⟩ := lone_return_of_id_eq hpaths h hf hg hne hid
  rw [hpaired x hx] at hlone
  cases hlone

/-- Functions of one name, on lines that end in two ways and after a character of two bytes. -/
def sameNames : List (String × String) :=
  [("a.py", "def f(): pass\r\nf = lambda: 'é'; f = lambda: 1\n"), ("b.py", ")")]

theorem nodup_ids_sameNames :
    (sameNames.map (·.1)).Nodup ∧ (∀ x ∈ sameNames, Token.returnsPaired x.2.toList) ∧
      ∃ P, ofTexts sameNames [] = .ok P ∧
        (P.functions []).map Function.id = ["a.py:0:f", "a.py:19:f", "a.py:36:f"] ∧
        ((P.functions []).map Function.id).Nodup := by
  have hpaths : (sameNames.map (·.1)).Nodup := by decide
  have hpaired : ∀ x ∈ sameNames, Token.returnsPaired x.2.toList := by decide +kernel
  have heval : (ofTexts sameNames []).toOption.map (fun P => (P.functions []).map Function.id) =
      some ["a.py:0:f", "a.py:19:f", "a.py:36:f"] := by
    decide +kernel
  obtain ⟨P, h, hids⟩ := exists_ok_of_map_toOption heval
  exact ⟨hpaths, hpaired, P, h, hids, (nodup_ids hpaths h).1 hpaired⟩

/-- After a carriage return that stands alone, the table of lines has lost count, and two functions
fall on one offset. -/
theorem shared_id_of_lone_return :
    ∃ P, ofTexts [("m.py", "def f(): pass\rdef f(): pass\r")] [] = .ok P ∧
      (P.functions []).map Function.id = ["m.py:0:f", "m.py:0:f"] := by
  have heval : (ofTexts [("m.py", "def f(): pass\rdef f(): pass\r")] []).toOption.map
      (fun P => (P.functions []).map Function.id) = some ["m.py:0:f", "m.py:0:f"] := by
    decide +kernel
  exact exists_ok_of_map_toOption heval

/-- **An id can be read in one way only**, whatever the path is: it tells the path, the offset and
the name. So functions of files with different paths have different ids, and so do functions of
different files of a project. -/
theorem ids_decode :
    (∀ {path path' : String} {offset offset' : Nat} {name name' : String},
      IsIdName name → IsIdName name' →
      FoundFunction.idOf path offset name = FoundFunction.idOf path' offset' name' →
        path = path' ∧ offset = offset' ∧ name = name') ∧
      (∀ (found found' : FoundFunction) {file file' : SourceFile} (i j : Nat), file.path ≠ file'.path →
        (found.toFunction file i).id ≠ (found'.toFunction file' j).id) ∧
      ∀ {sources : List SourceFile} {skipped : List Skipped} {ignore : List String},
        (sources.map (·.path)).Nodup →
        ∀ f ∈ (ofFiles sources skipped).functions ignore,
        ∀ g ∈ (ofFiles sources skipped).functions ignore, f.file ≠ g.file → f.id ≠ g.id := by
  refine ⟨FoundFunction.eq_of_idOf_eq, fun found found' file file' i j hpath hid => ?_, ?_⟩
  · exact hpath (FoundFunction.place_eq_of_id_eq hid).1
  · intro sources skipped ignore hpaths f hf g hg hfile hid
    obtain ⟨i, file, hi, -, found, -, rfl⟩ := mem_functions.1 hf
    obtain ⟨j, file', hj, -, found', -, rfl⟩ := mem_functions.1 hg
    exact hfile (place_eq_of_path_eq hpaths hi hj (FoundFunction.place_eq_of_id_eq hid).1)

/-- The path of the second file is how the id of the function in the first one starts. -/
def colonTexts : List (String × String) :=
  [("m.py", "a[0] = lambda: 1\n"), ("m.py:7", "def f(): pass\n")]

theorem ids_decode_colonTexts :
    ∃ f ∈ (ofFiles (readFiles (readTexts colonTexts [])) []).functions [],
      ∃ g ∈ (ofFiles (readFiles (readTexts colonTexts [])) []).functions [],
        f.id = "m.py:7:<anonymous@1:8>" ∧ g.id = "m.py:7:0:f" ∧
        f.label.path = "m.py" ∧ f.label.name = "<anonymous@1:8>" ∧ f.file ≠ g.file ∧ f.id ≠ g.id := by
  have hpaths : ((readFiles (readTexts colonTexts [])).map (·.path)).Nodup :=
    nodup_paths_readFiles (by decide)
  have hsorted : ((readFiles (readTexts colonTexts [])).mergeSort fun a b => !(b.path < a.path)) =
      readFiles (readTexts colonTexts []) :=
    List.mergeSort_of_pairwise (by decide +kernel)
  have heval : ((ofFiles (readFiles (readTexts colonTexts [])) []).functions []).map
      (fun f => (f.file, f.id)) = [(0, "m.py:7:<anonymous@1:8>"), (1, "m.py:7:0:f")] := by
    rw [ofFiles, hsorted]
    decide +kernel
  obtain ⟨f, hf, hfeval⟩ := List.mem_map.1 (heval ▸ List.mem_cons_self :
    (0, "m.py:7:<anonymous@1:8>") ∈ _)
  obtain ⟨g, hg, hgeval⟩ := List.mem_map.1 (heval ▸ List.mem_cons_of_mem _ List.mem_cons_self :
    (1, "m.py:7:0:f") ∈ _)
  obtain ⟨hffile, hfid⟩ := Prod.mk.inj hfeval
  obtain ⟨hgfile, hgid⟩ := Prod.mk.inj hgeval
  have hfile : f.file ≠ g.file := by rw [hffile, hgfile]; decide
  have hread : f.label.path = "m.py" ∧ f.label.name = "<anonymous@1:8>" := by
    obtain ⟨i, file, -, -, found, -, rfl⟩ := mem_functions.1 hf
    have hend : IsIdName "<anonymous@1:8>" := .inr ⟨(1, 8), rfl⟩
    have hid : FoundFunction.idOf "m.py" 7 "<anonymous@1:8>" = "m.py:7:<anonymous@1:8>" := rfl
    obtain ⟨hpath, -, hname⟩ :=
      ids_decode.1 (found.isFunctionName file.source i).isIdName hend (hfid.trans hid.symm)
    exact ⟨hpath, hname⟩
  exact ⟨f, hf, g, hg, hfid, hgid, hread.1, hread.2, hfile, ids_decode.2.2 hpaths f hf g hg hfile⟩

end Project

end EffectGraph
