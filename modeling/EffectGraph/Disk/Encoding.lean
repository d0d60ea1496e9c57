/-
The encoding of source files.

A file is in UTF-8 unless a mark at its start or a comment in one of its first
two lines says otherwise. Beside UTF-8, only Latin-1 and ASCII are known.
-/
import EffectGraph.Text.Pieces

namespace EffectGraph

inductive Encoding where
  | utf8
  /-- UTF-8 after a byte order mark. -/
  | utf8Marked
  | latin1
  | ascii
  deriving DecidableEq, Repr, Inhabited

namespace Encoding

def mark : List UInt8 := [0xef, 0xbb, 0xbf]

def utf8Text? (bytes : List UInt8) : Option String :=
  String.fromUTF8? ⟨bytes.toArray⟩

/-- The text of some bytes. -/
def decode? (e : Encoding) (bytes : List UInt8) : Option String :=
  match e with
  | utf8 => utf8Text? bytes
  | utf8Marked => utf8Text? (if mark.isPrefixOf bytes then bytes.drop mark.length else bytes)
  | latin1 => some (String.ofList (bytes.map fun b => Char.ofNat b.toNat))
  | ascii =>
    if bytes.all (· < 128) then some (String.ofList (bytes.map fun b => Char.ofNat b.toNat))
    else none

/-! ### Names -/

/-- The names of UTF-8, in small letters and with underscores. -/
def utf8Names : List String := ["utf_8", "utf8", "u8", "utf", "utf8_ucs2", "utf8_ucs4", "cp65001"]

def latin1Names : List String :=
  ["latin_1", "latin1", "latin", "l1", "8859", "cp819", "csisolatin1", "ibm819", "iso8859",
   "iso8859_1", "iso_8859_1", "iso_8859_1_1987", "iso_ir_100"]

def asciiNames : List String :=
  ["ascii", "646", "ansi_x3.4_1968", "ansi_x3_4_1968", "ansi_x3.4_1986", "cp367", "csascii",
   "ibm367", "iso646_us", "iso_646.irv_1991", "iso_ir_6", "us", "us_ascii"]

/-- A name in small letters. -/
def lower (name : List Char) : List Char := name.map Char.toLower

/-- A name in the form in which registers list it: runs of other characters than letters, digits
and points become one underscore between what they separate. -/
def registered (name : List Char) : String :=
  let parts := (Text.pieces (fun c => !(c.isAlphanum || c = '.')) (lower name)).filter (!·.isEmpty)
  "_".intercalate (parts.map String.ofList)

/-- Whether a name is one of some words, or continues one of them after a hyphen. -/
def isOneOf (words : List String) (name : List Char) : Bool :=
  words.any fun w => name = w.toList || (w ++ "-").toList.isPrefixOf name

/-- The usual spellings, told by the first twelve characters of a name. -/
def usual? (name : List Char) : Option Encoding :=
  let short := (lower (name.take 12)).map fun c => if c = '_' then '-' else c
  if isOneOf ["utf-8"] short then some utf8
  else if isOneOf ["latin-1", "iso-8859-1", "iso-latin-1"] short then some latin1
  else none

/-- The encoding with a name. After a byte order mark only the usual spellings of UTF-8 will do. -/
def named? (marked : Bool) (name : List Char) : Option Encoding :=
  let encoding := match usual? name with
    | some e => some e
    | none =>
      let r := registered name
      if utf8Names.contains r then some utf8
      else if latin1Names.contains r then some latin1
      else if asciiNames.contains r then some ascii
      else none
  if marked then
    if usual? name = some utf8 then some utf8Marked else none
  else encoding

/-! ### Declarations -/

def isIndent (c : Char) : Bool := c = ' ' || c = '\t' || c = '\x0c'

def isNameChar (c : Char) : Bool := c.isAlphanum || c = '-' || c = '_' || c = '.'

/-- The first name in a comment that `coding:` or `coding=` announces. -/
def announced? : List Char → Option (List Char)
  | [] => none
  | c :: cs =>
    let here := match (c :: cs).drop 6 with
      | sep :: rest =>
        if "coding".toList.isPrefixOf (c :: cs) && (sep = ':' || sep = '=') then
          (rest.dropWhile fun c => c = ' ' || c = '\t').takeWhile isNameChar
        else []
      | [] => []
    if here.isEmpty then announced? cs else some here

/-- The name that a line declares. -/
def declared? (line : List Char) : Option (List Char) :=
  match line.dropWhile isIndent with
  | '#' :: rest => announced? rest
  | _ => none

/-- A line that holds nothing but a comment. -/
def isBlankLine (line : List Char) : Bool :=
  match line.dropWhile isIndent with
  | [] => true
  | c :: _ => c = '#' || c = '\r' || c = '\n'

/-- The first line with its line feed, and the rest. -/
def firstLine (bytes : List UInt8) : List UInt8 × List UInt8 :=
  let line := bytes.takeWhile (· != 10)
  let rest := bytes.drop line.length
  (line ++ rest.take 1, rest.drop 1)

/-- What a line says: it may not be readable, name an encoding, or say nothing. -/
def ofLine (marked : Bool) (line : List UInt8) : Option (Option Encoding) :=
  match utf8Text? line with
  | none => none
  | some text =>
    match declared? text.toList with
    | some name => (named? marked name).map some
    | none => some none

/-- The encoding of a file, if it is known. -/
def ofBytes? (bytes : List UInt8) : Option Encoding :=
  let marked := mark.isPrefixOf bytes
  let default := if marked then utf8Marked else utf8
  let (first, rest) := firstLine (if marked then bytes.drop mark.length else bytes)
  if first.isEmpty then some default
  else
    match ofLine marked first with
    | none => none
    | some (some e) => some e
    | some none =>
      let (second, _) := firstLine rest
      let isBlank := ((utf8Text? first).map fun t => isBlankLine t.toList).getD false
      if !isBlank || second.isEmpty then some default
      else
        match ofLine marked second with
        | none => none
        | some e => some (e.getD default)

/-- The text of a source file, if it can be read. -/
def read? (bytes : List UInt8) : Option String :=
  (ofBytes? bytes).bind fun e => e.decode? bytes

end Encoding

end EffectGraph
