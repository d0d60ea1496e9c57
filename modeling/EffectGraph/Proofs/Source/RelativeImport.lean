/-
Relative imports agree with the names of modules.

The name of a module comes from its path, cut below a source root, and a
relative import cuts dotted names. Both say the same because a source root is
cut off between two names of a path: it is a beginning of the list of
directories (`liesBelow_iff`). So the root of a file is also the root of the
files further up, as long as they are below it (`exists_belowRoot`), whichever
other roots overlap with it.
-/
import EffectGraph.Proofs.Model.Files
import EffectGraph.Proofs.Source.ModuleName

namespace EffectGraph

/-! ## Cutting and joining -/

namespace Text

theorem pieces_eq_splitOn (d : Char) (cs : List Char) : pieces (· == d) cs = cs.splitOn d := by
  induction cs with
  | nil => rfl
  | cons c cs ih =>
    obtain ⟨q, qs, hq⟩ := List.exists_cons_of_ne_nil (pieces_ne_nil (· == d) cs)
    rw [List.splitOn_cons_eq_if_modifyHead, ← ih, pieces, hq]
    split <;> rfl

theorem intercalate_append {d : Char} {xs ys : List (List Char)} (hxs : xs ≠ []) (hys : ys ≠ []) :
    [d].intercalate (xs ++ ys) = [d].intercalate xs ++ d :: [d].intercalate ys := by
  induction xs with
  | nil => exact absurd rfl hxs
  | cons x xs ih =>
    by_cases hrest : xs = []
    · rw [hrest, List.singleton_append, List.intercalate_cons_of_ne_nil hys, List.intercalate_singleton,
        List.append_assoc, List.singleton_append]
    · have happend : xs ++ ys ≠ [] := by simp [hrest]
      rw [List.cons_append, List.intercalate_cons_of_ne_nil happend, ih hrest,
        List.intercalate_cons_of_ne_nil hrest, List.append_assoc (x ++ [d])]

theorem mem_intercalate {c d : Char} {names : List (List Char)} (h : c ∈ [d].intercalate names) :
    c = d ∨ ∃ n ∈ names, c ∈ n := by
  induction names with
  | nil => cases h
  | cons n names ih =>
    by_cases hrest : names = []
    · rw [hrest, List.intercalate_singleton] at h
      exact .inr ⟨n, List.mem_cons_self, h⟩
    · rw [List.intercalate_cons_of_ne_nil hrest, List.mem_append, List.mem_append,
        List.mem_singleton] at h
      rcases h with (h | h) | h
      · exact .inr ⟨n, List.mem_cons_self, h⟩
      · exact .inl h
      · obtain hd | ⟨m, hm, hc⟩ := ih h
        · exact .inl hd
        · exact .inr ⟨m, List.mem_cons_of_mem _ hm, hc⟩

end Text

/-! ## Source roots -/

namespace SourcePath

open Text

/-- The source roots in the order in which they are tried, each with a slash at its end. -/
def starts (roots : List String) : List (List Char) :=
  (roots.mergeSort fun a b => b.length ≤ a.length).map fun r => trimSlashes r ++ ['/']

/-- Whether a path lies below a source root. -/
def liesBelow (path start : List Char) : Bool := start != ['/'] && start.isPrefixOf path

theorem belowRoot_eq (path : List Char) (roots : List String) :
    belowRoot path roots = path.drop ((((starts roots).find? (liesBelow path)).map List.length).getD 0) := by
  unfold belowRoot
  simp only
  split
  · next start hfind =>
    change (starts roots).find? (liesBelow path) = some start at hfind
    rw [hfind, Option.map_some, Option.getD_some]
  · next hfind =>
    change (starts roots).find? (liesBelow path) = none at hfind
    rw [hfind, Option.map_none, Option.getD_none, List.drop_zero]

theorem exists_of_mem_starts {roots : List String} {start : List Char} (h : start ∈ starts roots) :
    ∃ root, start = root ++ ['/'] := by
  obtain ⟨r, -, rfl⟩ := List.mem_map.1 h
  exact ⟨trimSlashes r, rfl⟩

section Roots

variable {dirs : List (List Char)} (hdirs : ∀ n ∈ dirs, '/' ∉ n)

include hdirs

/-- A path lies below a source root exactly if the names of the root are the first directories of the
path. -/
theorem liesBelow_iff {root last : List Char} (hlast : '/' ∉ last) :
    liesBelow (['/'].intercalate (dirs ++ [last])) (root ++ ['/']) = true ↔
      root ≠ [] ∧ root.splitOn '/' <+: dirs := by
  have hnames : ∀ n ∈ dirs ++ [last], '/' ∉ n := by
    rw [List.forall_mem_append]
    exact ⟨hdirs, by simpa using hlast⟩
  rw [liesBelow, Bool.and_eq_true, bne_iff_ne, List.isPrefixOf_iff_prefix]
  refine and_congr (by simp) ⟨?_, ?_⟩
  · rintro ⟨rest, hrest⟩
    have hsplit : root.splitOn '/' ++ rest.splitOn '/' = dirs ++ [last] := by
      rw [← List.splitOn_intercalate '/' hnames (by simp), ← hrest, List.append_assoc,
        List.singleton_append, List.splitOn_append_cons_self]
    refine ⟨(rest.splitOn '/').dropLast, ?_⟩
    have hdrop := congrArg List.dropLast hsplit
    rwa [List.dropLast_append_of_ne_nil (List.splitOn_ne_nil _ _), List.dropLast_concat] at hdrop
  · rintro ⟨rest, rfl⟩
    rw [List.append_assoc, intercalate_append (List.splitOn_ne_nil _ _) (by simp),
      List.intercalate_splitOn]
    exact ⟨['/'].intercalate (rest ++ [last]), by simp⟩

/-- Further up, a path lies below the same source roots, those left out that reach further down. -/
theorem liesBelow_take_iff {root last last' : List Char} (hlast : '/' ∉ last) (hlast' : '/' ∉ last')
    (j : Nat) :
    liesBelow (['/'].intercalate (dirs.take j ++ [last'])) (root ++ ['/']) = true ↔
      liesBelow (['/'].intercalate (dirs ++ [last])) (root ++ ['/']) = true ∧
        (root.splitOn '/').length ≤ j := by
  have htake : ∀ n ∈ dirs.take j, '/' ∉ n := fun n hn => hdirs n (List.mem_of_mem_take hn)
  rw [liesBelow_iff htake hlast', liesBelow_iff hdirs hlast, List.prefix_take_iff, and_assoc]

/-- What is cut off a path is a number of directories, and the same number is cut off all paths further
up that have as many. -/
theorem exists_belowRoot (roots : List String) :
    ∃ i ≤ dirs.length, ∀ j, i ≤ j → ∀ last : List Char, '/' ∉ last →
      belowRoot (['/'].intercalate (dirs.take j ++ [last])) roots =
        ['/'].intercalate ((dirs.take j).drop i ++ [last]) := by
  have hup : ∀ {root last : List Char} (j : Nat), '/' ∉ last →
      (liesBelow (['/'].intercalate (dirs.take j ++ [last])) (root ++ ['/']) = true ↔
        liesBelow (['/'].intercalate (dirs ++ [[]])) (root ++ ['/']) = true ∧
          (root.splitOn '/').length ≤ j) := fun j hlast =>
    liesBelow_take_iff hdirs List.not_mem_nil hlast j
  cases hfind : (starts roots).find? (liesBelow (['/'].intercalate (dirs ++ [[]]))) with
  | none =>
    refine ⟨0, Nat.zero_le _, fun j _ last hlast => ?_⟩
    have hnone : (starts roots).find? (liesBelow (['/'].intercalate (dirs.take j ++ [last]))) = none := by
      rw [List.find?_eq_none] at hfind ⊢
      intro start hstart hbelow
      obtain ⟨root, rfl⟩ := exists_of_mem_starts hstart
      exact hfind _ hstart ((hup j hlast).1 hbelow).1
    rw [belowRoot_eq, hnone]
    rfl
  | some start =>
    obtain ⟨hbelow, before, after, hstarts, hbefore⟩ := List.find?_eq_some_iff_append.1 hfind
    obtain ⟨root, rfl⟩ := exists_of_mem_starts (List.mem_of_find?_eq_some hfind)
    obtain ⟨-, hfirst⟩ := (liesBelow_iff hdirs List.not_mem_nil).1 hbelow
    refine ⟨(root.splitOn '/').length, hfirst.length_le, fun j hj last hlast => ?_⟩
    have hsome : (starts roots).find? (liesBelow (['/'].intercalate (dirs.take j ++ [last]))) =
        some (root ++ ['/']) := by
      refine List.find?_eq_some_iff_append.2
        ⟨(hup j hlast).2 ⟨hbelow, hj⟩, before, after, hstarts, fun start hstart => ?_⟩
      obtain ⟨root', rfl⟩ := exists_of_mem_starts (hstarts ▸ List.mem_append_left _ hstart)
      have hout := hbefore _ hstart
      rw [Bool.not_eq_true', ← Bool.not_eq_true] at hout ⊢
      exact fun hin => hout ((hup j hlast).1 hin).1
    obtain ⟨rest, hrest⟩ := List.prefix_take_iff.2 ⟨hfirst, hj⟩
    have hpath : ['/'].intercalate (dirs.take j ++ [last]) =
        (root ++ ['/']) ++ ['/'].intercalate (rest ++ [last]) := by
      rw [← hrest, List.append_assoc, intercalate_append (List.splitOn_ne_nil _ _) (by simp),
        List.intercalate_splitOn, List.append_assoc, List.singleton_append]
    rw [belowRoot_eq, hsome, Option.map_some, Option.getD_some, hpath, List.drop_left, ← hrest,
      List.drop_left]

end Roots

end SourcePath

/-! ## Paths of modules -/

/-- The text of a name in a path: it has no slash, and it counts. -/
def Path.IsSegment (s : List Char) : Prop := '/' ∉ s ∧ s ≠ [] ∧ s ≠ ['.']

/-- A name of a directory or of a module: not empty, and without dots, slashes and backslashes. -/
structure PlainName where
  text : String
  nonempty : text ≠ ""
  plain : ∀ c ∈ text.toList, c ≠ '.' ∧ c ≠ '/' ∧ c ≠ '\\'

namespace PlainName

theorem toList_ne_nil (n : PlainName) : n.text.toList ≠ [] := by
  simpa using n.nonempty

/-- The file of a module with a name. -/
def fileName (n : PlainName) : String := n.text ++ ".py"

theorem toList_fileName (n : PlainName) : n.fileName.toList = n.text.toList ++ ['.', 'p', 'y'] := by
  simp [fileName]

theorem stemOf_fileName (n : PlainName) : Path.stemOf n.fileName = n.text := by
  have hsuffix : (n.fileName.toList.reverse.takeWhile (· != '.')).reverse = ['p', 'y'] := by
    simp [toList_fileName]
  have hstem : n.fileName.toList.take (n.fileName.toList.length - 2 - 1) = n.text.toList := by
    simp [toList_fileName]
  unfold Path.stemOf
  simp only [hsuffix, List.length_cons, List.length_nil, Nat.zero_add, Nat.reduceAdd, hstem]
  simp [toList_fileName, n.nonempty]

theorem isSegment_text (n : PlainName) : Path.IsSegment n.text.toList where
  left := fun h => (n.plain _ h).2.1 rfl
  right := ⟨n.toList_ne_nil, fun h => (n.plain '.' (h ▸ List.mem_singleton_self _)).1 rfl⟩

theorem isSegment_fileName (n : PlainName) : Path.IsSegment n.fileName.toList := by
  rw [toList_fileName]
  refine ⟨?_, by simp, fun h => ?_⟩
  · rw [List.mem_append, not_or]
    exact ⟨n.isSegment_text.1, by simp⟩
  · have hlength := congrArg List.length h
    simp at hlength

end PlainName

namespace Path

/-- The names of a path come back from their text. -/
theorem ofString_intercalate {names : List (List Char)} (hne : names ≠ [])
    (h : ∀ n ∈ names, IsSegment n) :
    Path.ofString (String.ofList (['/'].intercalate names)) = ⟨"", names.map String.ofList⟩ := by
  unfold Path.ofString
  rw [Path.mk.injEq]
  constructor
  · obtain ⟨n, rest, rfl⟩ := List.exists_cons_of_ne_nil hne
    obtain ⟨hslash, hn, -⟩ := h n List.mem_cons_self
    obtain ⟨c, cs, rfl⟩ := List.exists_cons_of_ne_nil hn
    rw [String.toList_ofList, List.intercalate_cons_cons_left]
    have hc : c ≠ '/' := fun hc => hslash (hc ▸ List.mem_cons_self)
    split
    · next he => exact absurd (List.cons.inj he).1 hc
    · next he => exact absurd (List.cons.inj he).1 hc
    · next he => exact absurd (List.cons.inj he).1 hc
    · rfl
  · rw [Text.split, String.toList_ofList, Text.pieces_eq_splitOn,
      List.splitOn_intercalate '/' (fun n hn => (h n hn).1) hne, List.filter_eq_self]
    intro s hs
    obtain ⟨n, hn, rfl⟩ := List.mem_map.1 hs
    obtain ⟨-, hempty, hdot⟩ := h n hn
    have hdot' : String.ofList n ≠ "." := fun he => hdot (by simpa using congrArg String.toList he)
    simp [hempty, hdot']

end Path

namespace SourcePath

/-- The path of a module in a directory. -/
def modulePath (dirs : List PlainName) (name : PlainName) : String :=
  "/".intercalate (dirs.map (·.text) ++ [name.fileName])

/-- The names in that path. -/
def segments (dirs : List PlainName) (name : PlainName) : List (List Char) :=
  dirs.map (·.text.toList) ++ [name.fileName.toList]

/-- How many directories of a path are left below its source root. -/
def directoriesBelow (path : String) (roots : List String) : Nat :=
  (Path.ofString (String.ofList (belowRoot (forward path).toList roots))).names.length - 1

/-- The names that make up the dotted name of a module. -/
def moduleNames (dirs : List PlainName) (name : PlainName) : List PlainName :=
  if name.text = "__init__" then dirs else dirs ++ [name]

variable (dirs : List PlainName) (name : PlainName)

theorem toList_modulePath : (modulePath dirs name).toList = ['/'].intercalate (segments dirs name) := by
  rw [modulePath, String.toList_intercalate, List.map_append, List.map_map]
  rfl

theorem isSegment_of_mem_segments : ∀ s ∈ segments dirs name, Path.IsSegment s := by
  rw [segments, List.forall_mem_append, List.forall_mem_map, List.forall_mem_singleton]
  exact ⟨fun n _ => n.isSegment_text, name.isSegment_fileName⟩

theorem forward_modulePath : forward (modulePath dirs name) = modulePath dirs name := by
  have hplain : ∀ c ∈ (modulePath dirs name).toList, c ≠ '\\' := by
    intro c hc
    rw [toList_modulePath] at hc
    rcases Text.mem_intercalate hc with rfl | ⟨segment, hsegment, hc⟩
    · decide
    · rcases List.mem_append.1 hsegment with hsegment | hsegment
      · obtain ⟨n, -, rfl⟩ := List.mem_map.1 hsegment
        exact (n.plain c hc).2.2
      · rw [List.mem_singleton.1 hsegment, name.toList_fileName, List.mem_append] at hc
        rcases hc with hc | hc
        · exact (name.plain c hc).2.2
        · rintro rfl
          simp at hc
  have hmap : (modulePath dirs name).toList.map (fun c => if c == '\\' then '/' else c) =
      (modulePath dirs name).toList.map id :=
    List.map_congr_left fun c hc => if_neg (by simpa using hplain c hc)
  rw [forward, Text.replace, hmap, List.map_id, String.ofList_toList]

theorem ofString_segments : Path.ofString (String.ofList (['/'].intercalate (segments dirs name))) =
    ⟨"", dirs.map (·.text) ++ [name.fileName]⟩ := by
  rw [Path.ofString_intercalate (by simp [segments]) (isSegment_of_mem_segments dirs name)]
  simp [segments]

theorem isPackage_modulePath : isPackage (modulePath dirs name) = (name.text == "__init__") := by
  have hpath : modulePath dirs name = String.ofList (['/'].intercalate (segments dirs name)) := by
    rw [← toList_modulePath, String.ofList_toList]
  rw [isPackage, hpath, ofString_segments, Path.stem, List.getLast?_concat, Option.getD_some,
    name.stemOf_fileName]

variable {dirs name}

section Below

variable {path : String} {roots : List String}
  (h : belowRoot (forward path).toList roots = ['/'].intercalate (segments dirs name))

include h

theorem directoriesBelow_eq : directoriesBelow path roots = dirs.length := by
  rw [directoriesBelow, h, ofString_segments]
  simp

theorem moduleName_eq :
    moduleName path roots = .ok (".".intercalate ((moduleNames dirs name).map (·.text))) := by
  have hstem : Path.withoutSuffix? ⟨"", dirs.map (·.text) ++ [name.fileName]⟩ =
      some ⟨"", dirs.map (·.text) ++ [name.text]⟩ := by
    simp [Path.withoutSuffix?, name.stemOf_fileName]
  unfold moduleName
  rw [h, ofString_segments]
  simp only [hstem]
  change Except.ok (".".intercalate (if (dirs.map (·.text) ++ [name.text]).getLast? == some "__init__"
    then (dirs.map (·.text) ++ [name.text]).dropLast else dirs.map (·.text) ++ [name.text])) = _
  rw [List.getLast?_concat, List.dropLast_concat, moduleNames]
  by_cases hinit : name.text = "__init__" <;> simp [hinit]

end Below

/-- The names of a module come back from its dotted name. -/
theorem split_dotted (names : List PlainName) :
    (if (".".intercalate (names.map (·.text))).isEmpty then [] else
      Text.split '.' (".".intercalate (names.map (·.text)))) = names.map (·.text) := by
  by_cases hne : names = []
  · rw [hne]
    rfl
  have hsplit : Text.split '.' (".".intercalate (names.map (·.text))) = names.map (·.text) := by
    have hdots : ∀ n ∈ (names.map (·.text)).map String.toList, '.' ∉ n := by
      rw [List.map_map, List.forall_mem_map]
      exact fun n _ h => (n.plain _ h).1 rfl
    rw [Text.split, String.toList_intercalate, Text.pieces_eq_splitOn]
    change (List.splitOn '.' (['.'].intercalate _)).map _ = _
    rw [List.splitOn_intercalate '.' hdots (by simpa using hne), List.map_map]
    simp
  -- The empty text has one empty piece, and no name is empty.
  have hnonempty : ".".intercalate (names.map (·.text)) ≠ "" := by
    intro he
    rw [he] at hsplit
    have hmem : "" ∈ names.map (·.text) := hsplit ▸ List.mem_cons_self
    obtain ⟨n, -, hn⟩ := List.mem_map.1 hmem
    exact n.nonempty hn
  rw [hsplit, if_neg (by simpa using hnonempty)]

theorem importedModule_eq {level : Nat} (hlevel : 1 ≤ level) (target : PlainName) :
    importedModule (".".intercalate ((moduleNames dirs name).map (·.text))) (name.text == "__init__") level
        target.text =
      ".".intercalate ((dirs.take (dirs.length - (level - 1)) ++ [target]).map (·.text)) := by
  have hpackage : (if (name.text == "__init__") = true then (moduleNames dirs name).map (·.text)
      else ((moduleNames dirs name).map (·.text)).dropLast) = dirs.map (·.text) := by
    by_cases hinit : name.text = "__init__" <;> simp [moduleNames, hinit]
  unfold importedModule
  rw [if_neg (by omega)]
  simp only [split_dotted, hpackage]
  rw [if_neg (by simpa using target.nonempty), List.length_map, ← List.map_take, List.map_append]
  rfl

end SourcePath

theorem SourceFile.moduleName_of_ofText {path text : String} {roots : List String} {file : SourceFile}
    (h : ofText path text roots = .ok file) : SourcePath.moduleName path roots = .ok file.module := by
  unfold ofText at h
  split at h
  · cases h
  · cases h
  · cases h
  · split at h
    · cases h
    · next module hmodule =>
      cases h
      exact hmodule

namespace SourcePath

/-- **Relative imports agree with the names of modules.** In a file that is a module or a package of a
directory, take a relative import that goes no further up than the source root of the file, whichever
source roots there are. It means the module that has its file in the directory that many levels up. -/
theorem moduleName_eq_importedModule {roots : List String} {dirs : List PlainName}
    {stem name : PlainName} {level : Nat} {text : String} {file : SourceFile}
    (hfile : SourceFile.ofText (modulePath dirs stem) text roots = .ok file) (hlevel : 1 ≤ level)
    (hbelow : level - 1 ≤ directoriesBelow (modulePath dirs stem) roots) (hname : name.text ≠ "__init__") :
    moduleName (modulePath (dirs.take (dirs.length - (level - 1))) name) roots =
      .ok (importedModule file.module file.isPackage level name.text) := by
  have hslash : ∀ segment ∈ dirs.map (·.text.toList), '/' ∉ segment := by
    rw [List.forall_mem_map]
    exact fun n _ => n.isSegment_text.1
  obtain ⟨i, hi, hroots⟩ := exists_belowRoot hslash roots
  rw [List.length_map] at hi
  -- What is left of a path below the source root, from the root down.
  have hleft : ∀ j, i ≤ j → ∀ n : PlainName,
      belowRoot (forward (modulePath (dirs.take j) n)).toList roots =
        ['/'].intercalate (segments ((dirs.take j).drop i) n) := by
    intro j hj n
    rw [forward_modulePath, toList_modulePath, segments, List.map_take,
      hroots j hj _ n.isSegment_fileName.1, segments, List.map_drop, List.map_take]
  have hwhole := hleft dirs.length hi stem
  rw [List.take_length] at hwhole
  rw [directoriesBelow_eq hwhole, List.length_drop] at hbelow
  have hmodule : file.module = ".".intercalate ((moduleNames (dirs.drop i) stem).map (·.text)) :=
    Except.ok.inj ((SourceFile.moduleName_of_ofText hfile).symm.trans (moduleName_eq hwhole))
  have hpackage : file.isPackage = (stem.text == "__init__") := by
    rw [SourceFile.isPackage, (SourceFile.ofText_eq_ok hfile).1, isPackage_modulePath]
  have hup : i ≤ dirs.length - (level - 1) :=
    Nat.le_sub_of_add_le' (Nat.add_le_of_le_sub hi hbelow)
  rw [moduleName_eq (hleft _ hup name), hmodule, hpackage, importedModule_eq hlevel, moduleNames, if_neg hname,
    List.drop_take, List.length_drop, Nat.sub_right_comm]

/-- A package two directories below a source root, and one below another root. -/
def nestedDirs : List PlainName :=
  [⟨"src", by decide, by simp⟩, ⟨"a", by decide, by simp⟩, ⟨"b", by decide, by simp⟩]

def packageFile : PlainName := ⟨"__init__", by decide, by simp⟩

def sibling : PlainName := ⟨"m", by decide, by simp⟩

theorem moduleName_eq_importedModule_nested :
    ∃ file, SourceFile.ofText (modulePath nestedDirs packageFile) "from ..m import f\n" ["src", "src/a"] =
        .ok file ∧ file.isPackage = true ∧
      directoriesBelow (modulePath nestedDirs packageFile) ["src", "src/a"] = 1 ∧
      moduleName "src/a/m.py" ["src", "src/a"] = .ok (importedModule file.module true 2 "m") ∧
      importedModule file.module true 2 "m" = "m" := by
  have hsorted : (["src", "src/a"].mergeSort fun a b => b.length ≤ a.length) = ["src/a", "src"] := by
    simp [List.mergeSort, show ¬ "src/a".length ≤ "src".length by decide]
  have hbelow : directoriesBelow (modulePath nestedDirs packageFile) ["src", "src/a"] = 1 := by
    rw [directoriesBelow, belowRoot_eq, starts, hsorted]
    decide +kernel
  have hparsed : ((Tree.parse "from ..m import f\n").toOption.map fun _ => true) = some true := by
    decide +kernel
  obtain ⟨tree, htree, -⟩ := exists_ok_of_map_toOption hparsed
  obtain ⟨module, hmodule⟩ := exists_moduleName
    (show Disk.isSource (modulePath nestedDirs packageFile) = true by decide +kernel) ["src", "src/a"]
  obtain ⟨file, hfile⟩ : ∃ file, SourceFile.ofText (modulePath nestedDirs packageFile)
      "from ..m import f\n" ["src", "src/a"] = .ok file := by
    rw [SourceFile.ofText, htree]
    simp only [hmodule]
    exact ⟨_, rfl⟩
  have hpackage : file.isPackage = true := by
    rw [SourceFile.isPackage, (SourceFile.ofText_eq_ok hfile).1]
    decide +kernel
  have hpath : modulePath (nestedDirs.take (nestedDirs.length - (2 - 1))) sibling = "src/a/m.py" := by
    decide +kernel
  have himport : moduleName (modulePath (nestedDirs.take (nestedDirs.length - (2 - 1))) sibling)
      ["src", "src/a"] = .ok (importedModule file.module file.isPackage 2 sibling.text) :=
    moduleName_eq_importedModule hfile (by decide) (by rw [hbelow]) (by decide)
  have hname : moduleName "src/a/m.py" ["src", "src/a"] = .ok "m" := by
    rw [moduleName, belowRoot_eq, starts, hsorted]
    decide +kernel
  rw [hpackage, hpath] at himport
  exact ⟨file, hfile, hpackage, hbelow, himport, Except.ok.inj (himport.symm.trans hname)⟩

end SourcePath

end EffectGraph
