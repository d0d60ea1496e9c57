/-
A project from a disk against the project of its texts.

A walk leaves out directories by their names, and a file knows from its path
whether it lies below such a directory. The two tests are written apart. For
names as a file system has them a path gives back its names
(`parts_ofString_intercalate`), so what a walk leaves out is foreign
(`isFound_of_not_isDependency`) and only vendored code is foreign in what it
finds (`isDependency_iff_of_isFound`). Everything else about a function comes
from its own file.
-/
import EffectGraph.Disk.Load
import EffectGraph.Proofs.Disk.Encoding
import EffectGraph.Proofs.Report.Ending

namespace EffectGraph

/-! ## Names and paths -/

/-- A name as a file system has it, without backslashes. -/
structure IsPlainName (name : String) : Prop where
  ne_empty : name ≠ ""
  ne_dot : name ≠ "."
  ne_dots : name ≠ ".."
  noSlash : '/' ∉ name.toList
  noBackslash : '\\' ∉ name.toList

namespace Text

theorem pieces_of_notMem {c : Char} {cs : List Char} (h : c ∉ cs) : pieces (· == c) cs = [cs] := by
  induction cs with
  | nil => rfl
  | cons d cs ih =>
    rw [List.mem_cons, not_or] at h
    have hd : (d == c) = false := by simpa using Ne.symm h.1
    simp [pieces, ih h.2, hd]

theorem pieces_append_cons {c : Char} {cs : List Char} (h : c ∉ cs) (rest : List Char) :
    pieces (· == c) (cs ++ c :: rest) = cs :: pieces (· == c) rest := by
  induction cs with
  | nil => simp [pieces]
  | cons d cs ih =>
    rw [List.mem_cons, not_or] at h
    have hd : (d == c) = false := by simpa using Ne.symm h.1
    simp [pieces, ih h.2, hd]

theorem pieces_intercalate {c : Char} :
    ∀ {parts : List (List Char)}, parts ≠ [] → (∀ p ∈ parts, c ∉ p) →
      pieces (· == c) (List.intercalate [c] parts) = parts
  | [], hne, _ => absurd rfl hne
  | [p], _, h => by simpa using pieces_of_notMem (h p (by simp))
  | p :: q :: parts, _, h => by
    rw [List.forall_mem_cons] at h
    rw [List.intercalate_cons_cons, List.append_assoc, List.singleton_append, pieces_append_cons h.1,
      pieces_intercalate (by simp) h.2]

end Text

variable {below : Location}

theorem toList_intercalate_slash (below : Location) :
    ("/".intercalate below).toList = List.intercalate ['/'] (below.map String.toList) :=
  String.toList_intercalate

theorem split_intercalate (hne : below ≠ []) (h : ∀ name ∈ below, IsPlainName name) :
    Text.split '/' ("/".intercalate below) = below := by
  rw [Text.split, toList_intercalate_slash, Text.pieces_intercalate (by simpa using hne)]
  · simp [Function.comp_def]
  · intro p hp
    obtain ⟨name, hname, rfl⟩ := List.mem_map.1 hp
    exact (h name hname).noSlash

theorem notMem_intercalate {c : Char} (hc : c ≠ '/') (h : ∀ name ∈ below, c ∉ name.toList) :
    c ∉ ("/".intercalate below).toList := by
  rw [toList_intercalate_slash]
  induction below with
  | nil => simp
  | cons name below ih =>
    rw [List.forall_mem_cons] at h
    cases below with
    | nil => simpa using h.1
    | cons next below =>
      rw [List.map_cons, List.map_cons, List.intercalate_cons_cons]
      have := ih h.2
      rw [List.map_cons] at this
      simp [h.1, hc, this]

theorem suffix_toList_intercalate {name : String} (h : below.getLast? = some name) :
    name.toList <:+ ("/".intercalate below).toList := by
  rw [toList_intercalate_slash]
  induction below with
  | nil => cases h
  | cons first below ih =>
    cases below with
    | nil =>
      obtain rfl : first = name := by simpa using h
      simp
    | cons next below =>
      rw [List.getLast?_cons_cons] at h
      rw [List.map_cons, List.map_cons, List.intercalate_cons_cons]
      exact (ih h).trans (List.suffix_append _ _)

/-- The path of a file gives back the names on the way to it. -/
theorem parts_ofString_intercalate (hne : below ≠ []) (h : ∀ name ∈ below, IsPlainName name) :
    (Path.ofString (SourcePath.forward ("/".intercalate below))).parts = below := by
  have hback : '\\' ∉ ("/".intercalate below).toList :=
    notMem_intercalate (by decide) fun name hname => (h name hname).noBackslash
  have hforward : SourcePath.forward ("/".intercalate below) = "/".intercalate below := by
    refine String.toList_inj.1 ?_
    rw [SourcePath.forward, Text.replace, String.toList_ofList]
    refine (List.map_congr_left fun c hc => ?_).trans (List.map_id _)
    have hother : c ≠ '\\' := fun he => hback (he ▸ hc)
    simp [hother]
  have hnames : (Path.ofString ("/".intercalate below)).names = below := by
    rw [Path.ofString, split_intercalate hne h, List.filter_eq_self]
    intro name hname
    simp [(h name hname).ne_empty, (h name hname).ne_dot]
  have hroot : (Path.ofString ("/".intercalate below)).root = "" := by
    obtain ⟨name, rest, rfl⟩ := List.exists_cons_of_ne_nil hne
    have hplain := h name (by simp)
    obtain ⟨c, cs, hcs⟩ := List.exists_cons_of_ne_nil
      (l := name.toList) (by simpa using hplain.ne_empty)
    have hc : c ≠ '/' := fun he => hplain.noSlash (by simp [hcs, he])
    have hstart : ∃ tail, ("/".intercalate (name :: rest)).toList = c :: tail := by
      rw [toList_intercalate_slash, List.map_cons, hcs]
      cases rest with
      | nil => exact ⟨cs, by simp⟩
      | cons next rest => exact ⟨_, by rw [List.map_cons, List.intercalate_cons_cons]; rfl⟩
    obtain ⟨tail, htail⟩ := hstart
    simp only [Path.ofString, htail]
    split <;> simp_all
  rw [hforward, Path.parts, hroot, hnames]
  rfl

theorem isDependency_intercalate (hne : below ≠ []) (h : ∀ name ∈ below, IsPlainName name) :
    SourcePath.isDependency ("/".intercalate below) = below.dropLast.any SourcePath.isForeign := by
  rw [SourcePath.isDependency, parts_ofString_intercalate hne h]

/-! ## Two tests for directories -/

/-- Whether the last name is that of a source file. -/
def Disk.IsSourcePlace (below : Location) : Prop :=
  ∃ name, below.getLast? = some name ∧ isSource name = true

theorem Disk.IsSourcePlace.ne_nil (h : Disk.IsSourcePlace below) : below ≠ [] := by
  rintro rfl
  obtain ⟨name, hlast, -⟩ := h
  cases hlast

theorem Disk.IsSourcePlace.isSource (h : Disk.IsSourcePlace below) :
    Disk.isSource ("/".intercalate below) = true := by
  obtain ⟨name, hlast, hname⟩ := h
  have hsuffix := suffix_toList_intercalate hlast
  rw [Disk.isSource, Bool.or_eq_true, List.isSuffixOf_iff_suffix, List.isSuffixOf_iff_suffix] at hname ⊢
  exact hname.imp (·.trans hsuffix) (·.trans hsuffix)

theorem Disk.isFound_iff : Disk.isFound below = true ↔
    Disk.IsSourcePlace below ∧ ∀ name ∈ below.dropLast, Disk.isEntered name = true := by
  unfold Disk.isFound Disk.IsSourcePlace
  cases below.getLast? with
  | none => simp
  | some name => simp

/-- What a walk leaves out is foreign to the project. -/
theorem isFound_of_not_isDependency (hsource : Disk.IsSourcePlace below)
    (h : ∀ name ∈ below, IsPlainName name)
    (hown : SourcePath.isDependency ("/".intercalate below) = false) : Disk.isFound below = true := by
  rw [isDependency_intercalate hsource.ne_nil h, List.any_eq_false] at hown
  refine Disk.isFound_iff.2 ⟨hsource, fun name hname => ?_⟩
  have hplain := h name (List.dropLast_subset _ hname)
  have hforeign := hown name hname
  simp only [SourcePath.isForeign, Bool.or_eq_true, Bool.and_eq_true, bne_iff_ne, not_or] at hforeign
  have hvisible : SourcePath.isHidden name ≠ true := fun hidden =>
    hforeign.2 ⟨⟨hidden, hplain.ne_dot⟩, hplain.ne_dots⟩
  simp [Disk.isEntered, hforeign.1.1, hvisible]

/-- In what a walk finds, only vendored code is foreign. -/
theorem isDependency_iff_of_isFound (h : ∀ name ∈ below, IsPlainName name)
    (hfound : Disk.isFound below = true) :
    SourcePath.isDependency ("/".intercalate below) = true ↔
      ∃ name ∈ below.dropLast, name ∈ SourcePath.vendorNames := by
  obtain ⟨hsource, hentered⟩ := Disk.isFound_iff.1 hfound
  rw [isDependency_intercalate hsource.ne_nil h, List.any_eq_true]
  refine exists_congr fun name => and_congr_right fun hname => ?_
  have he := hentered name hname
  simp only [Disk.isEntered, Bool.and_eq_true, Bool.not_eq_true'] at he
  simp [SourcePath.isForeign, he.1, he.2]

/-! ## Trees of texts -/

/-- Some texts with their paths are all the source files below a directory, those in hidden and
pruned directories included. Names are plain, and the source files are in UTF-8, without a byte
order mark and without a declared encoding. -/
structure Disk.HoldsTexts (d : Disk) (root : Location) (texts : List (String × String)) : Prop where
  distinct : (d.files.map (·.1)).Nodup
  distinctPaths : (texts.map (·.1)).Nodup
  plain : ∀ below bytes, (root ++ below, bytes) ∈ d.files → ∀ name ∈ below, IsPlainName name
  text : ∀ below bytes, (root ++ below, bytes) ∈ d.files → IsSourcePlace below →
    ∃ text, ("/".intercalate below, text) ∈ texts ∧ bytes = Utf8.bytesOf text.toList ∧
      text.toList.head? ≠ some '\uFEFF' ∧ Encoding.declares text = false
  file : ∀ path text, (path, text) ∈ texts → ∃ below, path = "/".intercalate below ∧
    IsSourcePlace below ∧ (root ++ below, Utf8.bytesOf text.toList) ∈ d.files

namespace Disk

variable {d : Disk} {root : Location} {texts : List (String × String)}

theorem mem_sources : below ∈ d.sources root ↔
    isFound below = true ∧ ∃ bytes, (root ++ below, bytes) ∈ d.files := by
  rw [sources, (List.mergeSort_perm _ _).mem_iff, List.mem_filter, and_comm, List.mem_filterMap]
  refine and_congr_right fun _ => ?_
  constructor
  · rintro ⟨⟨place, bytes⟩, hmem, h⟩
    split at h
    · next hprefix =>
      obtain ⟨rest, rfl⟩ := List.isPrefixOf_iff_prefix.1 hprefix
      obtain rfl : rest = below := by simpa using h
      exact ⟨bytes, hmem⟩
    · cases h
  · rintro ⟨bytes, hmem⟩
    exact ⟨_, hmem, by simp⟩

theorem nodup_sources (h : (d.files.map (·.1)).Nodup) : (d.sources root).Nodup := by
  rw [sources, (List.mergeSort_perm _ _).nodup_iff]
  refine List.Nodup.filter _ ?_
  have hplaces : (d.files.filterMap fun f =>
      if root.isPrefixOf f.1 then some (f.1.drop root.length) else none) =
      (d.files.map (·.1)).filterMap fun place =>
        if root.isPrefixOf place then some (place.drop root.length) else none := by
    rw [List.filterMap_map]
    rfl
  rw [hplaces]
  refine List.Nodup.filterMap (fun a b rest ha hb => ?_) h
  -- A location below the root is the root and what follows it.
  have whole : ∀ {place : Location}, rest ∈ (if root.isPrefixOf place then
      some (place.drop root.length) else none) → place = root ++ rest := by
    intro place hplace
    split at hplace
    · next hprefix =>
      obtain ⟨tail, rfl⟩ := List.isPrefixOf_iff_prefix.1 hprefix
      obtain rfl : tail = rest := by simpa using hplace
      rfl
    · cases hplace
  rw [whole ha, whole hb]

theorem read?_of_mem (h : (d.files.map (·.1)).Nodup) {place : Location} {bytes : List UInt8}
    (hmem : (place, bytes) ∈ d.files) : d.read? place = some bytes := by
  obtain ⟨before, after, he⟩ := List.append_of_mem hmem
  refine List.lookup_eq_some_iff.2 ⟨before, after, he, fun x hx => ?_⟩
  rw [he, List.map_append, List.map_cons] at h
  have hne : place ≠ x.1 := by
    intro hplace
    have hmem : place ∈ before.map (·.1) := hplace ▸ List.mem_map_of_mem hx
    exact (List.nodup_middle.1 h).notMem (List.mem_append_left _ hmem)
  simpa using hne

namespace HoldsTexts

variable (h : d.HoldsTexts root texts)
include h

/-- A source file below the root is read as its text. -/
theorem read?_eq {bytes : List UInt8} (hmem : (root ++ below, bytes) ∈ d.files)
    (hsource : IsSourcePlace below) : ∃ text, ("/".intercalate below, text) ∈ texts ∧
      bytes = Utf8.bytesOf text.toList ∧
      (d.read? (root ++ below)).bind Encoding.read? = some text := by
  obtain ⟨text, htext, hbytes, hmark, hdeclares⟩ := h.text below bytes hmem hsource
  refine ⟨text, htext, hbytes, ?_⟩
  rw [read?_of_mem h.distinct hmem, Option.bind_some, hbytes, Encoding.read?_bytesOf hmark hdeclares]

theorem isSource_of_mem {x : String × String} (hx : x ∈ texts) : isSource x.1 = true := by
  obtain ⟨below, hpath, hsource, -⟩ := h.file x.1 x.2 hx
  rw [hpath]
  exact hsource.isSource

end HoldsTexts

/-- The texts that a walk finds. -/
def foundTexts (d : Disk) (root : Location) : List (String × String) :=
  (d.sources root).map fun below =>
    ("/".intercalate below, ((d.read? (root ++ below)).bind Encoding.read?).getD "")

namespace HoldsTexts

variable (h : d.HoldsTexts root texts)
include h

/-- A walk finds the texts of the files that it does not leave out. -/
theorem mem_foundTexts {x : String × String} : x ∈ d.foundTexts root ↔
    x ∈ texts ∧ ∃ below ∈ d.sources root, x.1 = "/".intercalate below := by
  constructor
  · intro hx
    obtain ⟨below, hbelow, rfl⟩ := List.mem_map.1 hx
    obtain ⟨hfound, bytes, hmem⟩ := mem_sources.1 hbelow
    obtain ⟨text, htext, -, hread⟩ := h.read?_eq hmem (isFound_iff.1 hfound).1
    refine ⟨?_, below, hbelow, rfl⟩
    rw [hread]
    exact htext
  · rintro ⟨hx, below, hbelow, hpath⟩
    obtain ⟨hfound, bytes, hmem⟩ := mem_sources.1 hbelow
    obtain ⟨text, htext, -, hread⟩ := h.read?_eq hmem (isFound_iff.1 hfound).1
    refine List.mem_map.2 ⟨below, hbelow, ?_⟩
    rw [hread]
    -- There is one text for a path.
    exact List.inj_on_of_nodup_map h.distinctPaths htext hx hpath.symm

theorem nodup_foundTexts : ((d.foundTexts root).map (·.1)).Nodup := by
  rw [foundTexts, List.map_map]
  refine (nodup_sources h.distinct).map_on fun below hbelow below' hbelow' he => ?_
  obtain ⟨hfound, bytes, hmem⟩ := mem_sources.1 hbelow
  obtain ⟨hfound', bytes', hmem'⟩ := mem_sources.1 hbelow'
  have hparts := parts_ofString_intercalate (isFound_iff.1 hfound).1.ne_nil (h.plain below bytes hmem)
  have hparts' :=
    parts_ofString_intercalate (isFound_iff.1 hfound').1.ne_nil (h.plain below' bytes' hmem')
  simp only [Function.comp_apply] at he
  rw [← hparts, ← hparts', he]

/-- Loading a directory is reading the texts that a walk finds in it. -/
theorem load_eq {s : Settings} (hroot : s.root = root) :
    Project.load d s = Project.ofTexts (d.foundTexts root) s.sourceRoots := by
  subst hroot
  rw [Project.load, Project.ofTexts, foundTexts, List.map_map]
  refine congrArg _ (List.map_congr_left fun below hbelow => ?_)
  obtain ⟨hfound, bytes, hmem⟩ := mem_sources.1 hbelow
  obtain ⟨text, -, -, hread⟩ := h.read?_eq hmem (isFound_iff.1 hfound).1
  simp only [Project.readSource, Function.comp_apply, hread]
  rfl

/-- A text of the project's own is found. -/
theorem mem_foundTexts_of_not_isDependency {x : String × String} (hx : x ∈ texts)
    (hown : SourcePath.isDependency x.1 = false) : x ∈ d.foundTexts root := by
  obtain ⟨below, hpath, hsource, hmem⟩ := h.file x.1 x.2 hx
  rw [hpath] at hown
  have hfound := isFound_of_not_isDependency hsource (h.plain below _ hmem) hown
  exact h.mem_foundTexts.2 ⟨hx, below, mem_sources.2 ⟨hfound, _, hmem⟩, hpath⟩

end HoldsTexts

end Disk

/-! ## Inventories -/

namespace Project

variable {P Q : Project} {ignore : List String}

/-- The same function of the same file, whatever the number of the file. -/
structure SameFunction (P Q : Project) (f g : Function) : Prop where
  label : f.label = g.label
  parameters : f.parameters = g.parameters
  receiver : f.receiver = g.receiver
  isAsync : f.isAsync = g.isAsync
  node : f.node = g.node
  file : ∃ file file', P.file? f.file = some file ∧ Q.file? g.file = some file' ∧
    file.source = file'.source

/-- The files that are analysed, with their numbers. -/
def analyzedFiles (P : Project) (ignore : List String) : List (ScopedFile × Nat) :=
  P.files.zipIdx.filter fun x => isAnalyzed ignore x.1.source

theorem functions_eq_flatMap : P.functions ignore = (P.analyzedFiles ignore).flatMap fun x =>
    (x.1.source.tree.root.functions false).map (·.toFunction x.1.source x.2) := by
  rw [functions, analyzedFiles]
  induction P.files.zipIdx with
  | nil => rfl
  | cons x rest ih =>
    obtain ⟨f, i⟩ := x
    rw [List.flatMap_cons, ih, List.filter_cons]
    by_cases hf : isAnalyzed ignore f.source = true <;> simp [hf]

theorem map_source_analyzedFiles :
    (P.analyzedFiles ignore).map (·.1.source) = P.sources.filter (isAnalyzed ignore) := by
  rw [sources, ← List.zipIdx_map_fst 0 P.files, List.map_map, List.filter_map, analyzedFiles]
  rfl

theorem file?_of_mem_analyzedFiles {x : ScopedFile × Nat} (h : x ∈ P.analyzedFiles ignore) :
    P.file? x.2 = some x.1 :=
  List.mem_zipIdx_iff_getElem?.1 (List.mem_filter.1 h).1

/-- The inventory depends on the analysed files alone. -/
theorem functions_same
    (h : P.sources.filter (isAnalyzed ignore) = Q.sources.filter (isAnalyzed ignore)) :
    List.Forall₂ (SameFunction P Q) (P.functions ignore) (Q.functions ignore) := by
  rw [← map_source_analyzedFiles, ← map_source_analyzedFiles, ← List.forall₂_eq_eq_eq,
    List.forall₂_map_left_iff, List.forall₂_map_right_iff] at h
  have hleft := (List.forall₂_and_left _ _).2
    ⟨fun x (hx : x ∈ P.analyzedFiles ignore) => file?_of_mem_analyzedFiles hx, h⟩
  have hboth := (List.forall₂_and_left _ _).2
    ⟨fun x (hx : x ∈ Q.analyzedFiles ignore) => file?_of_mem_analyzedFiles hx, hleft.flip⟩
  rw [functions_eq_flatMap, functions_eq_flatMap]
  refine List.rel_flatMap hboth.flip ?_
  rintro ⟨f, i⟩ ⟨g, j⟩ ⟨hj, hi, hsource⟩
  simp only at hi hj hsource
  simp only [hsource]
  rw [List.forall₂_map_left_iff, List.forall₂_map_right_iff, List.forall₂_same]
  exact fun found _ => ⟨rfl, rfl, rfl, rfl, rfl, f, g, hi, hj, hsource⟩

/-- A file of the project's own, a hidden one and one of a build. -/
def sampleTree : List (Location × String) :=
  [([".git", "m.py"], "def g(): pass\n"), (["build", "m.py"], "def h(): pass\n"),
   (["pkg", "m.py"], "def f(): pass\n")]

def sampleDisk : Disk where
  files := sampleTree.map fun x => ("p" :: x.1, Utf8.bytesOf x.2.toList)
  directories := []

end Project

end EffectGraph
