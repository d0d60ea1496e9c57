/-
A console for texts with markup.

A tag is a name in square brackets. It starts a style, or ends one if the name
starts with a slash. Only the text around the tags is printed. A backslash
before a tag makes it text. The program prints through whatever console it is
given; this one knows as much of tags as it takes to run it.
-/
import EffectGraph.Text.Pieces

namespace EffectGraph.Markup

/-- Whether a name in brackets is a tag. -/
def startsTag (c : Char) : Bool :=
  ('a' ≤ c && c ≤ 'z') || c = '#' || c = '/' || c = '@'

/-- A tag at the start, without its brackets, and what follows it. -/
def tag? : List Char → Option (List Char × List Char)
  | '[' :: c :: cs =>
    let inner := cs.takeWhile fun c => c != ']' && c != '['
    match cs.drop inner.length with
    | ']' :: rest => if startsTag c then some (c :: inner, rest) else none
    | _ => none
  | _ => none

/-- An open style, with what follows an equals sign in its tag. -/
structure Style where
  name : List Char
  parameters : List Char
  deriving DecidableEq, Repr

def trim (cs : List Char) : List Char :=
  ((cs.dropWhile (· = ' ')).reverse.dropWhile (· = ' ')).reverse

/-- The attributes of styles with their short spellings. -/
def attributes : List (String × String) :=
  [("bold", "b"), ("dim", "d"), ("italic", "i"), ("underline", "u"), ("blink", "blink"),
   ("blink2", "blink2"), ("reverse", "r"), ("conceal", "c"), ("strike", "s"),
   ("underline2", "uu"), ("frame", "frame"), ("encircle", "encircle"), ("overline", "o")]

/-- The spelling under which a style is opened and closed. Attributes have one spelling and one
order. -/
def styleName (name : List Char) : List Char :=
  let trimmed := (trim name).map Char.toLower
  let words := (Text.split ' ' (String.ofList trimmed)).filter (· != "")
  let isIn (a : String × String) : Bool := words.contains a.1 || words.contains a.2
  if words.all fun w => attributes.any fun a => a.1 == w || a.2 == w then
    (" ".intercalate ((attributes.filter isIn).map (·.1))).toList
  else trimmed

/-- Whether a piece between commas is a number or a plain text in quotes. -/
def isLiteral (piece : String) : Bool :=
  match trim piece.toList with
  | [] => false
  | c :: cs =>
    if c = '\'' || c = '"' then cs.getLast? = some c && (cs.filter (fun d => d = c || d = '\\')).length = 1
    else (c :: cs).all Char.isDigit

/-- Whether what follows the equals sign of an `@` tag is the name of a handler, perhaps with
arguments in parentheses. -/
def isHandler (parameters : List Char) : Bool :=
  let parameters := trim parameters
  match parameters.dropWhile fun c => c.isAlphanum || c = '_' || c = '.' with
  | [] => true
  | '(' :: rest =>
    rest.getLast? = some ')' &&
      (rest.dropLast.isEmpty || (Text.split ',' (String.ofList rest.dropLast)).all isLiteral)
  | _ => false

/-- Ends the first of the open styles that passes a test. The parameters of an `@` tag are looked at
only then. -/
def close? (test : Style → Bool) : List Style → Option (List Style)
  | [] => none
  | s :: rest =>
    if test s then
      if s.name.head? = some '@' && !isHandler s.parameters then none else some rest
    else (close? test rest).map (s :: ·)

/-- Opens or closes a style. Only an open style can be closed. -/
def turn (opened : List Style) (tag : List Char) : Option (List Style) :=
  match tag with
  | '/' :: name =>
    if (trim name).isEmpty then close? (fun _ => true) opened
    else close? (·.name == styleName name) opened
  | _ =>
    let name := tag.takeWhile (· != '=')
    some (⟨styleName name, tag.drop (name.length + 1)⟩ :: opened)

/-- A bracket that starts no tag loses one backslash before it. -/
def plainText : List Char → List Char
  | [] => []
  | '\\' :: '[' :: cs => '[' :: plainText cs
  | c :: cs => c :: plainText cs

/-- The printed text, a step for each tag. The characters since the last tag are held in reverse. -/
def printedFrom : Nat → List Style → List Char → List Char → Option (List Char)
  | 0, _, held, cs => some (plainText (held.reverse ++ cs))
  | _ + 1, _, held, [] => some (plainText held.reverse)
  | n + 1, opened, held, c :: cs =>
    let slashes := (c :: cs).takeWhile (· = '\\')
    let rest := (c :: cs).drop slashes.length
    match tag? rest with
    | none =>
      match slashes with
      | [] => printedFrom n opened (c :: held) cs
      | _ => printedFrom n opened (slashes ++ held) rest
    | some (tag, after) =>
      let before := plainText held.reverse ++ List.replicate (slashes.length / 2) '\\'
      if slashes.length % 2 = 1 then
        (printedFrom n opened [] after).map ((before ++ '[' :: tag ++ [']']) ++ ·)
      else
        match turn opened tag with
        | none => none
        | some opened => (printedFrom n opened [] after).map (before ++ ·)

/-- What is printed of a text with tags. A tag that closes a style that is not open has no
meaning. -/
def printed? (s : String) : Option String :=
  (printedFrom (s.length + 1) [] [] s.toList).map String.ofList

/-! ### Escaping -/

/-- Puts a backslash before each tag, and doubles those that are there. -/
def escapeFrom : Nat → List Char → List Char
  | 0, cs => cs
  | _ + 1, [] => []
  | n + 1, c :: cs =>
    let slashes := (c :: cs).takeWhile (· = '\\')
    let rest := (c :: cs).drop slashes.length
    match tag? rest with
    | some (tag, after) => slashes ++ slashes ++ '\\' :: '[' :: tag ++ ']' :: escapeFrom n after
    | none =>
      match slashes with
      | [] => c :: escapeFrom n cs
      | _ => slashes ++ escapeFrom n rest

/-- A text with its tags made text. A single backslash at the end is doubled. -/
def escape (s : String) : String :=
  let escaped := escapeFrom (s.length + 1) s.toList
  match escaped.reverse with
  | '\\' :: '\\' :: _ => String.ofList escaped
  | '\\' :: _ => String.ofList (escaped ++ ['\\'])
  | _ => String.ofList escaped

end EffectGraph.Markup
