/-
Settings against the file that they come from.

`ReadFrom` says what a table of settings means, key by key: a key that is there
gives the value of its field, and the default stands for one that is not. A
table is accepted exactly if it means something (`ofEntries_eq_ok_iff`), so a
load gives the values of the file or is refused. In between lie the files that
break the loading off (`Breaks`): bytes that are no text, an integer of too many
digits, a document whose `tool` is no table, where the settings are looked for
before it is known whether there is a table to look in, and a severity that is
to be refused but that the message cannot show.
-/
import EffectGraph.Proofs.Cli.Frontend
import EffectGraph.Proofs.Model.Analysis

namespace EffectGraph

namespace Settings

variable {s : Settings} {root : Location} {entries : Toml.Entries} {key : String}

/-! ## Tables -/

/-- A field has the value that a table gives to a key, or its default if the table has no such
key. -/
def Field {α : Type} (entries : Toml.Entries) (key : String) (Means : Setting → α → Prop)
    (otherwise value : α) : Prop :=
  match Setting.get? entries key with
  | some given => Means given value
  | none => value = otherwise

def MeansTexts (given : Setting) (texts : List String) : Prop := given = .list (texts.map .text)

def MeansFlag (given : Setting) (flag : Bool) : Prop := given = .bool flag

/-- Names of severities are read in any case. -/
def MeansSeverity (given : Setting) (severity : Severity) : Prop :=
  ∃ name, given = .text name ∧ String.ofList (name.toList.map Char.toLower) = severity.name

/-- Settings are what a table says, with the defaults for the rest. -/
structure ReadFrom (s : Settings) (root : Location) (entries : Toml.Entries) : Prop where
  known : ∀ key ∈ entries.map (·.1), key ∈ knownKeys
  root : s.root = root
  sourceRoots : Field entries "source-roots" MeansTexts ["src"] s.sourceRoots
  ignore : Field entries "ignore" MeansTexts [] s.ignore
  severity : Field entries "severity" MeansSeverity .info s.severity
  failOnImpure : Field entries "fail-on-impure" MeansFlag false s.failOnImpure
  failOnAsync : Field entries "fail-on-async" MeansFlag false s.failOnAsync

theorem textItems_eq_some_iff {items : List Setting} {texts : List String} :
    textItems items = some texts ↔ items = texts.map .text := by
  fun_induction textItems items generalizing texts with
  | case1 => cases texts <;> simp
  | case2 s rest ih =>
    cases texts with
    | nil => simp
    | cons t texts => simp [ih, and_comm]
  | case3 item rest hitem =>
    cases texts with
    | nil => simp
    | cons t texts =>
      simp only [List.map_cons, List.cons.injEq, reduceCtorEq, false_iff, not_and]
      exact fun he => absurd he (hitem t)

theorem stringsOf_eq_ok_iff {otherwise texts : List String} :
    stringsOf entries key otherwise = .ok texts ↔ Field entries key MeansTexts otherwise texts := by
  unfold stringsOf Field MeansTexts
  cases Setting.get? entries key with
  | none => simp [eq_comm]
  | some given =>
    cases given with
    | list items =>
      simp only [Setting.list.injEq, ← textItems_eq_some_iff]
      cases textItems items <;> simp
    | _ => simp

theorem boolOf_eq_ok_iff {otherwise flag : Bool} :
    boolOf entries key otherwise = .ok flag ↔ Field entries key MeansFlag otherwise flag := by
  unfold boolOf Field MeansFlag
  cases Setting.get? entries key with
  | none => simp [eq_comm]
  | some given => cases given <;> simp

theorem severityOf_eq_ok_iff {given : Setting} {severity : Severity} :
    severityOf given = .ok severity ↔ MeansSeverity given severity := by
  have hname : ∀ name, Severity.ofName? name = some severity ↔ name = severity.name := by
    intro name
    constructor
    · intro h
      have hfound := List.find?_some h
      exact (beq_iff_eq.1 hfound).symm
    · rintro rfl
      cases severity <;> rfl
  unfold severityOf MeansSeverity
  cases given with
  | text name =>
    simp only [Setting.text.injEq, exists_eq_left', ← hname]
    cases Severity.ofName? (String.ofList (name.toList.map Char.toLower)) <;> simp
  | _ => simp

theorem filter_unknown_eq_nil_iff :
    ((entries.map (·.1)).filter (!knownKeys.contains ·)).eraseDups = [] ↔
      ∀ key ∈ entries.map (·.1), key ∈ knownKeys := by
  have hdups : ∀ keys : List String, keys.eraseDups = [] ↔ keys = [] := by
    intro keys
    cases keys <;> simp [List.eraseDups_cons]
  rw [hdups, List.filter_eq_nil_iff]
  simp

/-- The severity in a table, or a default. -/
def severityIn (entries : Toml.Entries) (otherwise : Severity) : Except LoadError Severity :=
  match Setting.get? entries "severity" with
  | some value => severityOf value
  | none => .ok otherwise

theorem severityIn_eq_ok_iff {otherwise severity : Severity} :
    severityIn entries otherwise = .ok severity ↔
      Field entries "severity" MeansSeverity otherwise severity := by
  unfold severityIn Field
  cases Setting.get? entries "severity" with
  | none => simp [eq_comm]
  | some given => exact severityOf_eq_ok_iff

/-- The fields of a table are read one after the other. -/
theorem ofEntries_of_known (hknown : ∀ key ∈ entries.map (·.1), key ∈ knownKeys) :
    ofEntries root entries =
      stringsOf entries "source-roots" ["src"] >>= fun sourceRoots =>
      stringsOf entries "ignore" [] >>= fun ignore =>
      severityIn entries .info >>= fun severity =>
      boolOf entries "fail-on-impure" false >>= fun failOnImpure =>
      boolOf entries "fail-on-async" false >>= fun failOnAsync =>
      .ok { root, sourceRoots, ignore, severity, failOnImpure, failOnAsync } := by
  simp only [ofEntries, filter_unknown_eq_nil_iff.2 hknown, List.isEmpty_nil, Bool.not_true,
    Bool.false_eq_true, if_false, severityIn]
  cases Setting.get? entries "severity" <;> rfl

theorem ofEntries_of_unknown (h : ¬∀ key ∈ entries.map (·.1), key ∈ knownKeys) (root : Location) :
    ∃ names, ofEntries root entries = .error (.config (.unknownOptions names)) := by
  rw [← filter_unknown_eq_nil_iff, ← List.isEmpty_iff, Bool.not_eq_true] at h
  simp only [ofEntries, h, Bool.not_false, if_true]
  exact ⟨_, rfl⟩

/-- A table is accepted exactly if it means some settings. -/
theorem ofEntries_eq_ok_iff : ofEntries root entries = .ok s ↔ s.ReadFrom root entries := by
  by_cases hknown : ∀ key ∈ entries.map (·.1), key ∈ knownKeys
  · rw [ofEntries_of_known hknown]
    simp only [bind_eq_ok, stringsOf_eq_ok_iff, boolOf_eq_ok_iff, severityIn_eq_ok_iff]
    constructor
    · rintro ⟨a, ha, b, hb, c, hc, e, he, f, hf, h⟩
      cases h
      exact ⟨hknown, rfl, ha, hb, hc, he, hf⟩
    · rintro ⟨-, rfl, ha, hb, hc, he, hf⟩
      exact ⟨_, ha, _, hb, _, hc, _, he, _, hf, rfl⟩
  · obtain ⟨names, he⟩ := ofEntries_of_unknown hknown root
    rw [he]
    exact ⟨fun h => (by cases h), fun h => absurd h.known hknown⟩

/-- The severity that a table gives is none and cannot be shown. What is looked at before it is in
order. -/
structure Hides (entries : Toml.Entries) (reason : Setting.Unshowable) : Prop where
  known : ∀ key ∈ entries.map (·.1), key ∈ knownKeys
  sourceRoots : ∃ texts, Field entries "source-roots" MeansTexts ["src"] texts
  ignore : ∃ texts, Field entries "ignore" MeansTexts [] texts
  severity : ∃ given, Setting.get? entries "severity" = some given ∧
    (∀ severity, ¬ MeansSeverity given severity) ∧ given.shown = .error reason

theorem stringsOf_error {otherwise : List String} {e : LoadError}
    (h : stringsOf entries key otherwise = .error e) : ∃ c, e = .config c := by
  unfold stringsOf at h
  split at h
  · cases h
  · split at h <;> cases h
    exact ⟨_, rfl⟩
  · cases h
    exact ⟨_, rfl⟩

theorem boolOf_error {otherwise : Bool} {e : LoadError} (h : boolOf entries key otherwise = .error e) :
    ∃ c, e = .config c := by
  unfold boolOf at h
  split at h <;> cases h
  exact ⟨_, rfl⟩

theorem severityOf_of_not_means {given : Setting} (h : ∀ severity, ¬ MeansSeverity given severity) :
    severityOf given = .error (notASeverity given) := by
  cases hs : severityOf given with
  | ok severity => exact absurd (severityOf_eq_ok_iff.1 hs) (h severity)
  | error e =>
    unfold severityOf at hs
    split at hs
    · split at hs <;> cases hs
      rfl
    · cases hs
      rfl

theorem severityIn_error {otherwise : Severity} {e : LoadError}
    (h : severityIn entries otherwise = .error e) : ∃ given, Setting.get? entries "severity" = some given ∧
      (∀ severity, ¬ MeansSeverity given severity) ∧ e = notASeverity given := by
  unfold severityIn at h
  split at h
  · next given hgiven =>
    have hnot : ∀ severity, ¬ MeansSeverity given severity := fun severity hm => by
      cases h.symm.trans (severityOf_eq_ok_iff.2 hm)
    exact ⟨given, hgiven, hnot, Except.error.inj (h.symm.trans (severityOf_of_not_means hnot))⟩
  · cases h

/-- What is wrong with a table can be said, or the severity in it cannot be shown. -/
theorem ofEntries_error {e : LoadError} (h : ofEntries root entries = .error e) :
    (∃ c, e = .config c) ∨ ∃ reason, e = .unshowable reason ∧ Hides entries reason := by
  by_cases hknown : ∀ key ∈ entries.map (·.1), key ∈ knownKeys
  · rw [ofEntries_of_known hknown] at h
    rcases bind_eq_error.1 h with h | ⟨sourceRoots, hroots, h⟩
    · exact .inl (stringsOf_error h)
    rcases bind_eq_error.1 h with h | ⟨ignore, hignore, h⟩
    · exact .inl (stringsOf_error h)
    rcases bind_eq_error.1 h with h | ⟨severity, -, h⟩
    · obtain ⟨given, hgiven, hnot, rfl⟩ := severityIn_error h
      unfold notASeverity
      split
      · exact .inl ⟨_, rfl⟩
      · next reason hshown =>
        exact .inr ⟨reason, rfl, hknown, ⟨_, stringsOf_eq_ok_iff.1 hroots⟩,
          ⟨_, stringsOf_eq_ok_iff.1 hignore⟩, given, hgiven, hnot, hshown⟩
    rcases bind_eq_error.1 h with h | ⟨failOnImpure, -, h⟩
    · exact .inl (boolOf_error h)
    rcases bind_eq_error.1 h with h | ⟨failOnAsync, -, h⟩
    · exact .inl (boolOf_error h)
    · cases h
  · obtain ⟨names, he⟩ := ofEntries_of_unknown hknown root
    rw [he] at h
    cases h
    exact .inl ⟨_, rfl⟩

theorem ofEntries_of_hides {reason : Setting.Unshowable} (h : Hides entries reason) (root : Location) :
    ofEntries root entries = .error (.unshowable reason) := by
  obtain ⟨hknown, ⟨sourceRoots, hroots⟩, ⟨ignore, hignore⟩, given, hgiven, hnot, hshown⟩ := h
  have hseverity : severityIn entries .info = .error (.unshowable reason) := by
    simp only [severityIn, hgiven, severityOf_of_not_means hnot, notASeverity, hshown]
  rw [ofEntries_of_known hknown, stringsOf_eq_ok_iff.2 hroots, stringsOf_eq_ok_iff.2 hignore, hseverity]
  rfl

/-! ## Documents -/

/-- The table with the settings of a document. A named file that has no table of its own for them
holds them at its top level. -/
def IsPart (named : Bool) (document entries : Toml.Entries) : Prop :=
  (∃ tool, Setting.get? document "tool" = some (.table tool) ∧
    Setting.get? tool "callograph" = some (.table entries)) ∨
  ((Setting.get? document "tool" = none ∨ ∃ tool, Setting.get? document "tool" = some (.table tool) ∧
      Setting.get? tool "callograph" = none) ∧ entries = if named then document else [])

/-- Settings are those in a file with some bytes. -/
def InFile (s : Settings) (named : Bool) (root : Location) (bytes : List UInt8) : Prop :=
  ∃ text document entries, Encoding.utf8Text? bytes = some text ∧ Toml.parse text = .ok document ∧
    IsPart named document entries ∧ s.ReadFrom root entries

/-- Some bytes break the loading off. -/
inductive Breaks (named : Bool) (bytes : List UInt8) : LoadError → Prop where
  | undecodable (h : Encoding.utf8Text? bytes = none) : Breaks named bytes .undecodable
  | integerTooLong {text : String} (h : Encoding.utf8Text? bytes = some text)
      (hparse : Toml.parse text = .error .integerTooLong) : Breaks named bytes .integerTooLong
  | toolIsNoTable {text : String} {document : Toml.Entries} {tool : Setting}
      (h : Encoding.utf8Text? bytes = some text) (hparse : Toml.parse text = .ok document)
      (htool : Setting.get? document "tool" = some tool) (hno : ∀ entries, tool ≠ .table entries) :
      Breaks named bytes .toolIsNoTable
  | unshowable {text : String} {document entries : Toml.Entries} {reason : Setting.Unshowable}
      (h : Encoding.utf8Text? bytes = some text) (hparse : Toml.parse text = .ok document)
      (hpart : IsPart named document entries) (hhides : Hides entries reason) :
      Breaks named bytes (.unshowable reason)

variable {d : Disk} {named : Bool} {place : Location} {path : String} {bytes : List UInt8}
  {document : Toml.Entries}

/-- A document has a part for the settings, or something else stands where it should be, or where
the table around it should be. -/
theorem part_cases (named : Bool) (document : Toml.Entries) :
    (∃ entries, IsPart named document entries) ∨
    (∃ tool given, Setting.get? document "tool" = some (.table tool) ∧
      Setting.get? tool "callograph" = some given ∧ ∀ entries, given ≠ .table entries) ∨
    ∃ tool, Setting.get? document "tool" = some tool ∧ ∀ entries, tool ≠ .table entries := by
  cases htool : Setting.get? document "tool" with
  | none => exact .inl ⟨_, .inr ⟨.inl htool, rfl⟩⟩
  | some tool =>
    cases tool with
    | table tool =>
      cases hpart : Setting.get? tool "callograph" with
      | none => exact .inl ⟨_, .inr ⟨.inr ⟨tool, htool, hpart⟩, rfl⟩⟩
      | some given =>
        cases given with
        | table entries => exact .inl ⟨entries, .inl ⟨tool, htool, hpart⟩⟩
        | _ => exact .inr (.inl ⟨tool, _, rfl, hpart, by simp⟩)
    | _ => exact .inr (.inr ⟨_, rfl, by simp⟩)

theorem ofDocument_of_part (h : IsPart named document entries) (root : Location) :
    ofDocument root document (if named then document else []) = ofEntries root entries := by
  have hpart : settingsPart document (if named then document else []) = .ok (.table entries) := by
    rcases h with ⟨tool, htool, hpart⟩ | ⟨htool | ⟨tool, htool, hpart⟩, rfl⟩
    · simp [settingsPart, htool, hpart]
    · simp [settingsPart, htool]
    · simp [settingsPart, htool, hpart]
  rw [ofDocument, hpart]
  rfl

theorem ofDocument_of_tool {tool : Setting} (htool : Setting.get? document "tool" = some tool)
    (hno : ∀ entries, tool ≠ .table entries) (root : Location) (otherwise : Toml.Entries) :
    ofDocument root document otherwise = .error .toolIsNoTable := by
  have hpart : settingsPart document otherwise = .error .toolIsNoTable := by
    cases tool with
    | table tool => exact absurd rfl (hno tool)
    | _ => simp [settingsPart, htool]
  rw [ofDocument, hpart]
  rfl

theorem ofDocument_of_given {tool : Toml.Entries} {given : Setting}
    (htool : Setting.get? document "tool" = some (.table tool))
    (hpart : Setting.get? tool "callograph" = some given) (hno : ∀ entries, given ≠ .table entries)
    (root : Location) (otherwise : Toml.Entries) :
    ofDocument root document otherwise = .error (.config .notATable) := by
  have hpart : settingsPart document otherwise = .ok given := by simp [settingsPart, htool, hpart]
  rw [ofDocument, hpart]
  cases given with
  | table entries => exact absurd rfl (hno entries)
  | _ => rfl

/-! ## Files -/

/-- The settings in a file. -/
def ofFile (d : Disk) (named : Bool) (root place : Location) (path : String) :
    Except LoadError Settings :=
  readDocument d place path >>= fun document =>
    ofDocument root document (if named then document else [])

section Bytes

variable (hread : d.read? place = some bytes)
include hread

theorem readDocument_eq (path : String) :
    readDocument d place path = match Encoding.utf8Text? bytes with
      | none => .error .undecodable
      | some text => match Toml.parse text with
        | .ok entries => .ok entries
        | .error .malformed => .error (.config (.invalidToml path))
        | .error .integerTooLong => .error .integerTooLong := by
  rw [readDocument, hread]
  rfl

theorem ofFile_of_document {text : String} (htext : Encoding.utf8Text? bytes = some text)
    (hparse : Toml.parse text = .ok document) (named : Bool) (root : Location) (path : String) :
    ofFile d named root place path = ofDocument root document (if named then document else []) := by
  rw [ofFile, readDocument_eq hread, htext]
  simp only [hparse]
  rfl

theorem ofFile_of_breaks {e : LoadError} (h : Breaks named bytes e) (root : Location) (path : String) :
    ofFile d named root place path = .error e := by
  cases h with
  | undecodable htext =>
    rw [ofFile, readDocument_eq hread, htext]
    rfl
  | integerTooLong htext hparse =>
    rw [ofFile, readDocument_eq hread, htext]
    simp only [hparse]
    rfl
  | toolIsNoTable htext hparse htool hno =>
    rw [ofFile_of_document hread htext hparse, ofDocument_of_tool htool hno]
  | unshowable htext hparse hpart hhides =>
    rw [ofFile_of_document hread htext hparse, ofDocument_of_part hpart, ofEntries_of_hides hhides]

/-- What the bytes of a file give: the settings in it, a refusal, or neither. -/
theorem ofFile_cases (named : Bool) (root : Location) (path : String) :
    (∃ s, s.InFile named root bytes ∧ ofFile d named root place path = .ok s) ∨
      (∃ c, ofFile d named root place path = .error (.config c)) ∨ ∃ e, Breaks named bytes e := by
  cases htext : Encoding.utf8Text? bytes with
  | none => exact .inr (.inr ⟨_, .undecodable htext⟩)
  | some text =>
    cases hparse : Toml.parse text with
    | error fault =>
      cases fault with
      | malformed =>
        refine .inr (.inl ⟨.invalidToml path, ?_⟩)
        rw [ofFile, readDocument_eq hread, htext]
        simp only [hparse]
        rfl
      | integerTooLong => exact .inr (.inr ⟨_, .integerTooLong htext hparse⟩)
    | ok document =>
      rw [ofFile_of_document hread htext hparse]
      rcases part_cases named document with ⟨entries, hpart⟩ | ⟨tool, given, htool, hpart, hno⟩ |
        ⟨tool, htool, hno⟩
      · rw [ofDocument_of_part hpart]
        cases hs : ofEntries root entries with
        | ok s => exact .inl ⟨s, ⟨text, document, entries, htext, hparse, hpart, ofEntries_eq_ok_iff.1 hs⟩, rfl⟩
        | error e =>
          rcases ofEntries_error hs with ⟨c, rfl⟩ | ⟨reason, rfl, hhides⟩
          · exact .inr (.inl ⟨c, rfl⟩)
          · exact .inr (.inr ⟨_, .unshowable htext hparse hpart hhides⟩)
      · exact .inr (.inl ⟨_, ofDocument_of_given htool hpart hno root _⟩)
      · exact .inr (.inr ⟨_, .toolIsNoTable htext hparse htool hno⟩)

/-- A file is accepted exactly if there are settings in it. -/
theorem ofFile_eq_ok_iff {s : Settings} :
    ofFile d named root place path = .ok s ↔ s.InFile named root bytes := by
  constructor
  · intro h
    rcases ofFile_cases hread named root path with ⟨s', hs', he⟩ | ⟨c, he⟩ | ⟨e, he⟩
    · rw [he] at h
      cases h
      exact hs'
    · rw [he] at h
      cases h
    · rw [ofFile_of_breaks hread he] at h
      cases h
  · rintro ⟨text, document, entries, htext, hparse, hpart, hs⟩
    rw [ofFile_of_document hread htext hparse, ofDocument_of_part hpart, ofEntries_eq_ok_iff.2 hs]

end Bytes

/-! ## Loading -/

/-- The file that the settings come from: the one that is named, or that of the project. -/
def configPlace? (d : Disk) (cwd root : Location) : Option String → Option Location
  | some file => d.fileAt? cwd (Path.ofString file)
  | none => if d.isFile (root ++ ["pyproject.toml"]) then some (root ++ ["pyproject.toml"]) else none

/-- A file breaks the loading off. -/
def BreaksOff (d : Disk) (cwd root : Location) (file : Option String) (e : LoadError) : Prop :=
  ∃ place bytes, configPlace? d cwd root file = some place ∧ d.read? place = some bytes ∧
    Breaks file.isSome bytes e

/-- Settings are those in their file, or the defaults if the project has none. -/
def GivenBy (s : Settings) (d : Disk) (cwd root : Location) (file : Option String) : Prop :=
  (file = none ∧ configPlace? d cwd root file = none ∧ s = default root) ∨
    ∃ place bytes, configPlace? d cwd root file = some place ∧ d.read? place = some bytes ∧
      s.InFile file.isSome root bytes

theorem exists_read?_of_isFile (h : d.isFile place = true) : ∃ bytes, d.read? place = some bytes := by
  cases hread : d.read? place with
  | some bytes => exact ⟨bytes, rfl⟩
  | none =>
    obtain ⟨f, hf, he⟩ := List.any_eq_true.1 h
    have hne := List.lookup_eq_none_iff.1 hread f hf
    rw [beq_iff_eq.1 he] at hne
    simp at hne

section Load

variable {cwd : Location} {start : String} {file : Option String}

theorem exists_read?_of_configPlace? (h : configPlace? d cwd root file = some place) :
    ∃ bytes, d.read? place = some bytes := by
  refine exists_read?_of_isFile ?_
  cases file with
  | some file => exact (Option.filter_eq_some_iff.1 h).2
  | none =>
    rw [configPlace?, Option.ite_none_right_eq_some] at h
    exact Option.some.inj h.2 ▸ h.1

variable (hroot : Disk.resolve cwd (Path.ofString start) = root) (hdir : d.isDirectory root = true)
include hroot hdir

theorem load_of_configPlace? (h : configPlace? d cwd root file = some place) :
    ∃ path, load d cwd start file = ofFile d file.isSome root place path := by
  subst hroot
  cases file with
  | some file =>
    have hfile : d.fileAt? cwd (Path.ofString file) = some place := h
    refine ⟨(Path.ofString file).toString, ?_⟩
    simp only [load, hdir, hfile]
    rfl
  | none =>
    rw [configPlace?, Option.ite_none_right_eq_some] at h
    obtain ⟨hfile, hplace⟩ := h
    cases hplace
    refine ⟨"/" ++ "/".intercalate (Disk.resolve cwd (Path.ofString start) ++ ["pyproject.toml"]), ?_⟩
    simp only [load, hdir, hfile]
    rfl

theorem load_of_no_place (h : configPlace? d cwd root file = none) :
    (file = none ∧ load d cwd start file = .ok (default root)) ∨
      ∃ c, file ≠ none ∧ load d cwd start file = .error (.config c) := by
  subst hroot
  cases file with
  | some file =>
    have hfile : d.fileAt? cwd (Path.ofString file) = none := h
    refine .inr ⟨.fileNotFound (Path.ofString file).toString, by simp, ?_⟩
    simp only [load, hdir, hfile]
    rfl
  | none =>
    rw [configPlace?, ite_eq_right_iff] at h
    have hfile : d.isFile (Disk.resolve cwd (Path.ofString start) ++ ["pyproject.toml"]) = false := by
      rw [Bool.eq_false_iff]
      intro hfile
      cases h hfile
    refine .inl ⟨rfl, ?_⟩
    simp only [load, hdir, hfile]
    rfl

theorem load_of_breaksOff {e : LoadError} (h : BreaksOff d cwd root file e) :
    load d cwd start file = .error e := by
  obtain ⟨place, bytes, hplace, hread, hbreaks⟩ := h
  obtain ⟨path, he⟩ := load_of_configPlace? hroot hdir hplace
  rw [he, ofFile_of_breaks hread hbreaks]

/-- A load gives the settings in the file or is refused, unless the file breaks it off. -/
theorem load_cases (file : Option String) :
    (∃ s, s.GivenBy d cwd root file ∧ load d cwd start file = .ok s) ∨
      (∃ c, load d cwd start file = .error (.config c)) ∨ ∃ e, BreaksOff d cwd root file e := by
  cases hplace : configPlace? d cwd root file with
  | none =>
    rcases load_of_no_place hroot hdir hplace with ⟨rfl, he⟩ | ⟨c, -, he⟩
    · exact .inl ⟨_, .inl ⟨rfl, hplace, rfl⟩, he⟩
    · exact .inr (.inl ⟨c, he⟩)
  | some place =>
    obtain ⟨bytes, hread⟩ := exists_read?_of_configPlace? hplace
    obtain ⟨path, he⟩ := load_of_configPlace? hroot hdir hplace
    rw [he]
    rcases ofFile_cases hread file.isSome root path with ⟨s, hs, h⟩ | h | ⟨e, hbreaks⟩
    · exact .inl ⟨s, .inr ⟨place, bytes, hplace, hread, hs⟩, h⟩
    · exact .inr (.inl h)
    · exact .inr (.inr ⟨e, place, bytes, hplace, hread, hbreaks⟩)

theorem load_eq_ok_iff {s : Settings} :
    load d cwd start file = .ok s ↔ s.GivenBy d cwd root file := by
  constructor
  · intro h
    rcases load_cases hroot hdir file with ⟨s', hs', he⟩ | ⟨c, he⟩ | ⟨e, he⟩
    · rw [he] at h
      cases h
      exact hs'
    · rw [he] at h
      cases h
    · rw [load_of_breaksOff hroot hdir he] at h
      cases h
  · rintro (⟨rfl, hplace, rfl⟩ | ⟨place, bytes, hplace, hread, hs⟩)
    · rcases load_of_no_place hroot hdir hplace with ⟨-, he⟩ | ⟨c, hne, -⟩
      · exact he
      · exact absurd rfl hne
    · obtain ⟨path, he⟩ := load_of_configPlace? hroot hdir hplace
      rw [he, ofFile_eq_ok_iff hread]
      exact hs

end Load

end Settings

namespace Cli

variable {F : Frontend} {d : Disk} {cwd : Location} {args : List String} {o : Options}

/-- Settings that cannot be used always end a run with a message. -/
theorem refused_eq_ok (hF : F.Renders) (c : ConfigError) :
    ∃ message, refused F c = .ok ⟨2, "", some message⟩ := by
  have hnested : Nested F.escape [] (errorLine F c).toList := by
    have h : Nested F.escape [] ('[' :: "red".toList ++ ']' :: ("Error:".toList ++
        ('[' :: ('/' :: "red".toList) ++ ']' :: ([' '] ++ (F.escape c.message).toList)))) := by
      refine .started (by decide) ?_
      exact .closingBy (by decide) (by decide) (.escaped (by decide) (by decide) c.message)
    unfold errorLine
    generalize F.escape c.message = escaped at h
    simpa using h
  obtain ⟨text, htext⟩ := hF.nested _ hnested
  exact ⟨text ++ "\n", by rw [refused, printed, htext]; rfl⟩

theorem run_of_load_error {e : LoadError} (hargs : F.command args = .ok (.analyze o))
    (h : Settings.load d cwd o.path o.config = .error e) :
    run F d cwd args = match e with
      | .config c => refused F c
      | e => .error (.load e) := by
  have hwith : Settings.loadWith d cwd o.path o.config (overrides o) = .error e := by
    rw [Settings.loadWith, h]
    rfl
  simp only [run, hargs, runAnalyze, hwith]
  cases e <;> rfl

/-- **Settings are those of their file, or they are refused.** In a directory, loading gives
settings exactly if they are what the file says, with the defaults for all keys that are not there;
everything else is refused with a message, and the command line ends with the exit code 2. There is
one exception. A file that is not in UTF-8, that has an integer of too many digits, whose key `tool`
holds no table or whose severity is none and cannot be shown breaks the loading off, and the command
line with it. -/
theorem load_gives_or_refuses (hF : F.Renders) {start : String} {file : Option String}
    (hdir : d.isDirectory (Disk.resolve cwd (Path.ofString start)) = true) :
    (∀ s, Settings.load d cwd start file = .ok s ↔
      s.GivenBy d cwd (Disk.resolve cwd (Path.ofString start)) file) ∧
    ((∃ s, Settings.load d cwd start file = .ok s) ∨
      (∃ c, Settings.load d cwd start file = .error (.config c)) ∨
      ∃ e, Settings.BreaksOff d cwd (Disk.resolve cwd (Path.ofString start)) file e) ∧
    (∀ e, Settings.BreaksOff d cwd (Disk.resolve cwd (Path.ofString start)) file e →
      Settings.load d cwd start file = .error e ∧ ∀ c, e ≠ .config c) ∧
    ∀ args o, F.command args = .ok (.analyze o) → o.path = start → o.config = file →
      (∀ c, Settings.load d cwd start file = .error (.config c) →
        ∃ message, run F d cwd args = .ok ⟨2, "", some message⟩) ∧
      ∀ e, Settings.BreaksOff d cwd (Disk.resolve cwd (Path.ofString start)) file e →
        run F d cwd args = .error (.load e) := by
  have hconfig : ∀ {e : LoadError}, Settings.BreaksOff d cwd
      (Disk.resolve cwd (Path.ofString start)) file e → ∀ c, e ≠ .config c := by
    rintro e ⟨place, bytes, -, -, hbreaks⟩ c rfl
    cases hbreaks
  refine ⟨fun s => Settings.load_eq_ok_iff rfl hdir, ?_, fun e he => ?_, ?_⟩
  · exact (Settings.load_cases rfl hdir file).imp (fun ⟨s, _, h⟩ => ⟨s, h⟩) id
  · exact ⟨Settings.load_of_breaksOff rfl hdir he, hconfig he⟩
  · rintro args o hargs rfl rfl
    refine ⟨fun c hc => ?_, fun e he => ?_⟩
    · rw [run_of_load_error hargs hc]
      exact refused_eq_ok hF c
    · rw [run_of_load_error hargs (Settings.load_of_breaksOff rfl hdir he)]
      cases e with
      | config c => exact absurd rfl (hconfig he c)
      | _ => rfl

/-- A project with nothing but a file for its settings. -/
def configDisk (text : String) : Disk where
  files := [(["p", "pyproject.toml"], text.toUTF8.data.toList)]
  directories := []

/-- Two settings, one of them in capital letters. -/
def acceptedText : String := "[tool.callograph]\nignore = ['x']\nseverity = 'WARNING'\n"

/-- A severity that is no text. -/
def refusedText : String := "[tool.callograph]\nseverity = 3\n"

def isRefusal : LoadError → Bool
  | .config _ => true
  | _ => false

def isAtTool : LoadError → Bool
  | .toolIsNoTable => true
  | _ => false

/-- Whether loading fails with an error of a kind. -/
def failsWith (kind : LoadError → Bool) : Except LoadError Settings → Bool
  | .error e => kind e
  | .ok _ => false

theorem exists_of_failsWith {kind : LoadError → Bool} {loaded : Except LoadError Settings}
    (h : failsWith kind loaded = true) : ∃ e, loaded = .error e ∧ kind e = true := by
  cases loaded with
  | error e => exact ⟨e, rfl, h⟩
  | ok s => cases h

theorem load_gives_or_refuses_sample :
    Frontend.standard.Renders ∧ (∃ s : Settings, s.GivenBy (configDisk acceptedText) [] ["p"] none ∧ s.ignore = ["x"] ∧
      s.severity = .warning ∧ s.sourceRoots = ["src"]) ∧
      ∃ message, run .standard (configDisk refusedText) [] ["analyze", "/p"] =
        .ok ⟨2, "", some message⟩ := by
  have hF := Frontend.standard_renders
  refine ⟨hF, ?_, ?_⟩
  · have heval : (Settings.load (configDisk acceptedText) [] "/p" none).toOption.map
        (fun s => (s.ignore, s.severity, s.sourceRoots)) = some (["x"], .warning, ["src"]) := by
      decide +kernel
    have hdir : (configDisk acceptedText).isDirectory
        (Disk.resolve [] (Path.ofString "/p")) = true := by decide +kernel
    obtain ⟨s, hs, heval⟩ := exists_ok_of_map_toOption heval
    simp only [Prod.mk.injEq] at heval
    exact ⟨s, ((load_gives_or_refuses hF hdir).1 s).1 hs, heval.1, heval.2.1, heval.2.2⟩
  · have heval : failsWith isRefusal (Settings.load (configDisk refusedText) [] "/p" none) = true := by
      decide +kernel
    have hdir : (configDisk refusedText).isDirectory
        (Disk.resolve [] (Path.ofString "/p")) = true := by decide +kernel
    have hargs : Frontend.standard.command ["analyze", "/p"] =
        .ok (.analyze ⟨"/p", none, [], none, false, false, false⟩) := by decide +kernel
    obtain ⟨e, he, hkind⟩ := exists_of_failsWith heval
    cases e with
    | config c => exact ((load_gives_or_refuses hF hdir).2.2.2 ["analyze", "/p"] _ hargs rfl rfl).1 c he
    | _ => cases hkind

/-- A number for the key `tool` breaks a run off where a refusal was due. -/
theorem run_breaks_off_at_tool :
    Settings.load (configDisk "tool = 1\n") [] "/p" none = .error .toolIsNoTable ∧
      run .standard (configDisk "tool = 1\n") [] ["analyze", "/p"] = .error (.load .toolIsNoTable) := by
  have heval : failsWith isAtTool (Settings.load (configDisk "tool = 1\n") [] "/p" none) = true := by
    decide +kernel
  have hargs : Frontend.standard.command ["analyze", "/p"] =
      .ok (.analyze ⟨"/p", none, [], none, false, false, false⟩) := by decide +kernel
  obtain ⟨e, hload, hkind⟩ := exists_of_failsWith heval
  cases e with
  | toolIsNoTable => exact ⟨hload, run_of_load_error (F := .standard) hargs hload⟩
  | _ => cases hkind

end Cli

end EffectGraph
