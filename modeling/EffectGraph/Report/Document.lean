/-
Reports as JSON documents.

A document is written over several lines, two blanks for each level, with
everything outside of printable ASCII escaped.
-/
import EffectGraph.Report.Basic
import EffectGraph.Text.Quoted

namespace EffectGraph

/-- A document. The fields of a record keep their order. -/
inductive Document where
  | text (value : String)
  | number (value : Nat)
  | flag (value : Bool)
  | list (items : List Document)
  | record (fields : List (String × Document))
  deriving Inhabited

namespace Document

/-- A code of four digits. -/
def unit (n : Nat) : List Char := '\\' :: 'u' :: Text.hexDigits 4 n

/-- A character in a text. What lies above the first 65536 codes is written as a pair. -/
def escapeChar (c : Char) : List Char :=
  if c = '"' || c = '\\' then ['\\', c]
  else if c = '\n' then ['\\', 'n']
  else if c = '\r' then ['\\', 'r']
  else if c = '\t' then ['\\', 't']
  else if c = '\x08' then ['\\', 'b']
  else if c = '\x0c' then ['\\', 'f']
  else if 32 ≤ c.toNat && c.toNat ≤ 126 then [c]
  else if c.toNat < 0x10000 then unit c.toNat
  else
    let n := c.toNat - 0x10000
    unit (0xd800 + n / 0x400) ++ unit (0xdc00 + n % 0x400)

def textForm (s : String) : String :=
  String.ofList ('"' :: s.toList.flatMap escapeChar ++ ['"'])

def indent (level : Nat) : String := String.ofList (List.replicate (2 * level) ' ')

/-- Parts in brackets, each on lines of its own. -/
def bracketed (opening closing : String) (level : Nat) (parts : List String) : String :=
  if parts.isEmpty then opening ++ closing
  else
    let inner := indent (level + 1)
    opening ++ "\n" ++ ",\n".intercalate (parts.map (inner ++ ·)) ++ "\n" ++ indent level ++ closing

mutual

/-- The text of a document at a level. -/
def render (level : Nat) : Document → String
  | text value => textForm value
  | number value => s!"{value}"
  | flag value => if value then "true" else "false"
  | list items => bracketed "[" "]" level (renderItems (level + 1) items)
  | record fields => bracketed "\x7b" "\x7d" level (renderFields (level + 1) fields)

def renderItems (level : Nat) : List Document → List String
  | [] => []
  | item :: items => render level item :: renderItems level items

def renderFields (level : Nat) : List (String × Document) → List String
  | [] => []
  | (key, value) :: fields =>
    (textForm key ++ ": " ++ render level value) :: renderFields level fields

end

def ofTexts (texts : List String) : Document := .list (texts.map .text)

def ofLabel (l : Label) : List (String × Document) :=
  [("id", .text l.id), ("name", .text l.name), ("file", .text l.path), ("line", .number l.line),
   ("character", .number l.character)]

def ofPurity (r : PurityResult) : Document :=
  .record (ofLabel r.label ++ [("isPure", .flag r.isPure), ("reasons", ofTexts r.reasons)])

def ofAsync (r : AsyncResult) : Document :=
  .record (ofLabel r.label ++ [("issues", .list (r.issues.map fun i =>
    .record [("message", .text i.message), ("severity", .text i.severity.name)]))])

def ofSummary (s : Report.Summary) : Document :=
  .record [("functions", .number s.functions), ("edges", .number s.edges),
    ("impure", .number s.impure), ("asyncIssues", .number s.asyncIssues),
    ("skippedFiles", .number s.skippedFiles)]

/-- The document of a report, with the hazards that are serious enough. -/
def ofReport (r : Report) (threshold : Severity) : Document :=
  .record
    [("graph", .record (r.graph.toMapping.map fun (id, callees) => (id, ofTexts callees))),
     ("purity", .list (r.purity.map ofPurity)),
     ("async", .list ((r.asyncAtLeast threshold).map ofAsync)),
     ("errors", ofTexts r.errors),
     ("summary", ofSummary (r.summary threshold))]

end Document

end EffectGraph
