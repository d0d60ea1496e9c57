/-
The settings of an analysis.

They come from a TOML file: `pyproject.toml` in the root of the project, if it
is there, or a file that is named. A file that sets something unknown or
something of the wrong kind is refused. The refusal of a severity shows the
value, and a value that cannot be shown breaks the loading off.
-/
import EffectGraph.Config.Toml
import EffectGraph.Disk.Basic
import EffectGraph.Finding.Severity

namespace EffectGraph

structure Settings where
  root : Location
  sourceRoots : List String
  ignore : List String
  severity : Severity
  failOnImpure : Bool
  failOnAsync : Bool
  deriving Inhabited

/-- What a user can put right about the settings. -/
inductive ConfigError where
  | notADirectory (path : String)
  | fileNotFound (path : String)
  | invalidToml (path : String)
  | notATable
  | unknownOptions (names : List String)
  | notStrings (key : String)
  | notBoolean (key : String)
  | invalidSeverity (shown : String)
  deriving Inhabited

def ConfigError.message : ConfigError → String
  | notADirectory path => s!"Project root is not a directory: {path}"
  | fileNotFound path => s!"Config file not found: {path}"
  | invalidToml path => s!"Invalid TOML in {path}"
  | notATable => "[tool.callograph] must be a table"
  | unknownOptions names =>
    "Unknown option(s) in [tool.callograph]: " ++ ", ".intercalate names
  | notStrings key => s!"'{key}' must be a list of strings"
  | notBoolean key => s!"'{key}' must be true or false"
  | invalidSeverity shown =>
    let choices := ", ".intercalate (Severity.all.map (·.name))
    s!"Invalid severity {shown} (expected one of: {choices})"

/-- Why settings cannot be loaded. Beside what a user can put right there are files that break the
loading off. -/
inductive LoadError where
  | config (error : ConfigError)
  /-- The key `tool` holds something that is no table. -/
  | toolIsNoTable
  /-- The file is not in UTF-8. -/
  | undecodable
  | integerTooLong
  /-- The message about a severity cannot show the value. -/
  | unshowable (reason : Setting.Unshowable)
  deriving Inhabited

namespace Settings

def default (root : Location) : Settings where
  root
  sourceRoots := ["src"]
  ignore := []
  severity := .info
  failOnImpure := false
  failOnAsync := false

/-- The root as a path. -/
def rootPath (s : Settings) : String := "/" ++ "/".intercalate s.root

/-- What is wrong with a value that names no severity. The message about it shows the value. -/
def notASeverity (value : Setting) : LoadError :=
  match value.shown with
  | .ok shown => .config (.invalidSeverity shown)
  | .error reason => .unshowable reason

/-- The severity that a value names, whatever the case of its letters. -/
def severityOf (value : Setting) : Except LoadError Severity :=
  match value with
  | .text s =>
    match Severity.ofName? (String.ofList (s.toList.map Char.toLower)) with
    | some severity => .ok severity
    | none => .error (notASeverity value)
  | _ => .error (notASeverity value)

def knownKeys : List String :=
  ["source-roots", "ignore", "severity", "fail-on-impure", "fail-on-async"]

/-- The texts in a list of nothing but texts. -/
def textItems : List Setting → Option (List String)
  | [] => some []
  | .text s :: rest => (textItems rest).map (s :: ·)
  | _ :: _ => none

def stringsOf (entries : Toml.Entries) (key : String) (otherwise : List String) :
    Except LoadError (List String) :=
  match Setting.get? entries key with
  | none => .ok otherwise
  | some (.list items) =>
    match textItems items with
    | some texts => .ok texts
    | none => .error (.config (.notStrings key))
  | some _ => .error (.config (.notStrings key))

def boolOf (entries : Toml.Entries) (key : String) (otherwise : Bool) : Except LoadError Bool :=
  match Setting.get? entries key with
  | none => .ok otherwise
  | some (.bool b) => .ok b
  | some _ => .error (.config (.notBoolean key))

/-- The settings in a table. -/
def ofEntries (root : Location) (entries : Toml.Entries) : Except LoadError Settings := do
  let unknown := ((entries.map (·.1)).filter (!knownKeys.contains ·)).eraseDups
  if !unknown.isEmpty then
    throw (.config (.unknownOptions (unknown.mergeSort fun a b => !(b < a))))
  let given := default root
  let sourceRoots ← stringsOf entries "source-roots" given.sourceRoots
  let ignore ← stringsOf entries "ignore" given.ignore
  let severity ← match Setting.get? entries "severity" with
    | some value => severityOf value
    | none => pure given.severity
  let failOnImpure ← boolOf entries "fail-on-impure" given.failOnImpure
  let failOnAsync ← boolOf entries "fail-on-async" given.failOnAsync
  return { root, sourceRoots, ignore, severity, failOnImpure, failOnAsync }

/-- The document in a file. -/
def readDocument (d : Disk) (place : Location) (path : String) : Except LoadError Toml.Entries :=
  match String.fromUTF8? ⟨((d.read? place).getD []).toArray⟩ with
  | none => .error .undecodable
  | some text =>
    match Toml.parse text with
    | .ok entries => .ok entries
    | .error .malformed => .error (.config (.invalidToml path))
    | .error .integerTooLong => .error .integerTooLong

/-- The part of a document that holds the settings, or what stands for it if the part is
missing. -/
def settingsPart (document otherwise : Toml.Entries) : Except LoadError Setting :=
  match Setting.get? document "tool" with
  | none => .ok (.table otherwise)
  | some (.table tool) => .ok ((Setting.get? tool "callograph").getD (.table otherwise))
  | some _ => .error .toolIsNoTable

def ofDocument (root : Location) (document otherwise : Toml.Entries) : Except LoadError Settings := do
  match ← settingsPart document otherwise with
  | .table entries => ofEntries root entries
  | _ => throw (.config .notATable)

/-- Loads the settings of the project in a directory. A named file may hold the settings in its own
table or at its top level. -/
def load (d : Disk) (cwd : Location) (root : String) (configFile : Option String) :
    Except LoadError Settings := do
  let root := Disk.resolve cwd (Path.ofString root)
  let given := default root
  if !d.isDirectory root then throw (.config (.notADirectory given.rootPath))
  match configFile with
  | some file =>
    let path := Path.ofString file
    match d.fileAt? cwd path with
    | none => throw (.config (.fileNotFound path.toString))
    | some place =>
      let document ← readDocument d place path.toString
      ofDocument root document document
  | none =>
    let place := root ++ ["pyproject.toml"]
    if d.isFile place then
      let document ← readDocument d place ("/" ++ "/".intercalate place)
      ofDocument root document []
    else return given

/-- What a command line sets beside the file. -/
structure Overrides where
  ignore : List String
  severity : Option String
  failOnImpure : Bool
  failOnAsync : Bool
  deriving Inhabited

/-- Ignored paths are added, a severity takes the place of the one in the file, and what fails there
fails here too. -/
def apply (s : Settings) (o : Overrides) : Except LoadError Settings := do
  let severity ← match o.severity with
    | some name => severityOf (.text name)
    | none => pure s.severity
  return { s with
    ignore := s.ignore ++ o.ignore
    severity
    failOnImpure := s.failOnImpure || o.failOnImpure
    failOnAsync := s.failOnAsync || o.failOnAsync }

def loadWith (d : Disk) (cwd : Location) (root : String) (configFile : Option String)
    (o : Overrides) : Except LoadError Settings := do
  (← load d cwd root configFile).apply o

end Settings

end EffectGraph
