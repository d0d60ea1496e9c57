/-
Text literals: what stands between the quotes, and what it means.

A plain literal is read by `Literal.ofToken?`. A formatted literal is cut into
its replacement fields by `Field.ofBody`; the expressions of the fields are
still text there, with the place where each one starts, because reading them
is the work of the grammar.
-/
import EffectGraph.Syntax.Token

namespace EffectGraph

/-- The body of a literal and how its mark says to read it. -/
structure QuotedText where
  isBytes : Bool
  isRaw : Bool
  isFormatted : Bool
  body : List Char
  /-- Where the literal starts with its mark. -/
  origin : Pos
  /-- Where the body starts. -/
  start : Pos
  deriving Inhabited

namespace QuotedText

def ofToken (t : Token) : QuotedText :=
  let cs := t.text.toList
  let mark := cs.takeWhile Char.isAlpha
  let rest := cs.drop mark.length
  let isLong :=
    match rest with
    | a :: b :: c :: _ => a == b && b == c && rest.length ≥ 6
    | _ => false
  let width := if isLong then 3 else 1
  let lower := mark.map Char.toLower
  { isBytes := lower.contains 'b'
    isRaw := lower.contains 'r'
    isFormatted := lower.contains 'f'
    body := (rest.drop width).take (rest.length - 2 * width)
    origin := t.span.start
    start := t.span.start.advance (mark ++ rest.take width) }

end QuotedText

/-! ### Escapes -/

namespace Escape

/-- A character given by its number; half of a surrogate pair is no character. -/
def code (n : Nat) : Except Fault (Option Char) :=
  if n > 0x10ffff then .error .malformed
  else if 0xd800 ≤ n && n ≤ 0xdfff then .ok none
  else .ok (some (Char.ofNat n))

def hexCode (ds : List Char) : Except Fault (Option Char) :=
  if ds.all Token.isHexDigit then code (Text.hexValue ds) else .error .malformed

def octalValue (ds : List Char) : Nat :=
  ds.foldl (fun n d => 8 * n + (d.toNat - '0'.toNat)) 0

/-- The escapes of one character. -/
def simple? : Char → Option Char
  | '\\' => some '\\'
  | '\'' => some '\''
  | '"' => some '"'
  | 'a' => some '\x07'
  | 'b' => some '\x08'
  | 'f' => some '\x0c'
  | 'n' => some '\n'
  | 'r' => some '\r'
  | 't' => some '\t'
  | 'v' => some '\x0b'
  | _ => none

def push (c : Except Fault (Option Char)) (rest : Except Fault (List (Option Char))) :
    Except Fault (List (Option Char)) := do
  let c ← c
  let cs ← rest
  .ok (c :: cs)

/-- Reads the escapes of a text. A character given by name stands as the replacement character;
`inName` counts the characters of the name that is being read. A backslash before any other
character stands for itself. -/
def read : Option Nat → List Char → Except Fault (List (Option Char))
  | some _, [] => .error .malformed
  | some n, c :: cs =>
    if c == '\x7d' then
      if n = 0 then .error .malformed else push (.ok (some '�')) (read none cs)
    else read (some (n + 1)) cs
  | none, [] => .ok []
  | none, '\\' :: '\n' :: cs => read none cs
  | none, '\\' :: 'N' :: '\x7b' :: cs => read (some 0) cs
  | none, '\\' :: 'N' :: _ => .error .malformed
  | none, '\\' :: 'x' :: a :: b :: cs => push (hexCode [a, b]) (read none cs)
  | none, '\\' :: 'x' :: _ => .error .malformed
  | none, '\\' :: 'u' :: a :: b :: c :: d :: cs => push (hexCode [a, b, c, d]) (read none cs)
  | none, '\\' :: 'u' :: _ => .error .malformed
  | none, '\\' :: 'U' :: a :: b :: c :: d :: e :: f :: g :: h :: cs =>
    push (hexCode [a, b, c, d, e, f, g, h]) (read none cs)
  | none, '\\' :: 'U' :: _ => .error .malformed
  | none, '\\' :: a :: cs =>
    if Token.isOctalDigit a then
      match cs with
      | b :: cs' =>
        if Token.isOctalDigit b then
          match cs' with
          | c :: cs'' =>
            if Token.isOctalDigit c then push (code (octalValue [a, b, c])) (read none cs'')
            else push (code (octalValue [a, b])) (read none (c :: cs''))
          | [] => push (code (octalValue [a, b])) (read none [])
        else push (code (octalValue [a])) (read none (b :: cs'))
      | [] => push (code (octalValue [a])) (read none [])
    else
      match simple? a with
      | some c => push (.ok (some c)) (read none cs)
      | none => push (.ok (some '\\')) (push (.ok (some a)) (read none cs))
  | none, c :: cs => push (.ok (some c)) (read none cs)

/-- Whether every `\x` of a byte text has its two digits. -/
def wellFormedBytes : List Char → Bool
  | '\\' :: 'x' :: a :: b :: cs =>
    Token.isHexDigit a && Token.isHexDigit b && wellFormedBytes cs
  | '\\' :: 'x' :: _ => false
  | '\\' :: _ :: cs => wellFormedBytes cs
  | _ :: cs => wellFormedBytes cs
  | [] => true

end Escape

namespace QuotedText

/-- The characters of a literal that is neither formatted nor made of bytes. -/
def characters (q : QuotedText) : Except Fault (List (Option Char)) :=
  if q.isRaw then .ok (q.body.map some) else Escape.read none q.body

/-- Byte literals hold ASCII only, and their escapes are complete. -/
def checkBytes (q : QuotedText) : Except Fault Unit :=
  if q.body.all (·.toNat < 128) && (q.isRaw || Escape.wellFormedBytes q.body) then .ok ()
  else .error .malformed

end QuotedText

namespace Literal

/-- The text made of these characters. -/
def ofCharacters (cs : List (Option Char)) : Literal :=
  if cs.all Option.isSome then text (String.ofList (cs.filterMap id)) else brokenText

end Literal

/-! ### Replacement fields -/

/-- A replacement field: the text of its expression, the place of its opening brace, and the
fields inside its format specification if it has one. -/
inductive Field where
  | mk (expression : List Char) (start : Pos) (spec : Option (List Field))

namespace Field

/-- Where the scan of an expression stands: inside a literal with its quote and whether it is a
long one, and under which open brackets. -/
structure Nesting where
  quote : Option (Char × Bool)
  brackets : List Char

def closes (opening closing : Char) : Bool :=
  (opening == '(' && closing == ')') || (opening == '[' && closing == ']') ||
    (opening == '\x7b' && closing == '\x7d')

/-- Whether two more of the same quote follow. -/
def isTripled (q : Char) (cs : List Char) : Bool :=
  [q, q].isPrefixOf cs

/-- Splits off the expression of a field. It ends at a brace, a colon, an exclamation mark or an
equals sign outside of quotes and brackets that is not part of a comparison operator. Neither a
backslash nor a number sign may stand in it. -/
def expressionText (st : Nesting) : List Char → Except Fault (List Char × List Char)
  | [] => .error .malformed
  | c :: cs =>
    let keep (r : Except Fault (List Char × List Char)) : Except Fault (List Char × List Char) :=
      r.map fun (t, rest) => (c :: t, rest)
    let keepTriple (r : Except Fault (List Char × List Char)) :
        Except Fault (List Char × List Char) :=
      r.map fun (t, rest) => (c :: c :: c :: t, rest)
    if c == '\\' then .error .malformed
    else
      match st.quote with
      | some (q, long) =>
        if c != q then keep (expressionText st cs)
        else if !long then keep (expressionText { st with quote := none } cs)
        else if isTripled q cs then
          match cs with
          | _ :: _ :: rest => keepTriple (expressionText { st with quote := none } rest)
          | _ => .error .malformed
        else keep (expressionText st cs)
      | none =>
        if c == '\'' || c == '"' then
          if isTripled c cs then
            match cs with
            | _ :: _ :: rest => keepTriple (expressionText { st with quote := some (c, true) } rest)
            | _ => .error .malformed
          else keep (expressionText { st with quote := some (c, false) } cs)
        else if c == '(' || c == '[' || c == '\x7b' then
          if st.brackets.length ≥ Token.maxBrackets then .error .malformed
          else keep (expressionText { st with brackets := c :: st.brackets } cs)
        else if c == '#' then .error .malformed
        else if st.brackets.isEmpty &&
            (c == '!' || c == ':' || c == '\x7d' || c == '=' || c == '<' || c == '>') then
          if (c == '!' || c == '=' || c == '<' || c == '>') && cs.head? == some '=' then
            match cs with
            | _ :: rest => (expressionText st rest).map fun (t, rest) => (c :: '=' :: t, rest)
            | [] => .error .malformed
          else if c == '<' || c == '>' then keep (expressionText st cs)
          else .ok ([], c :: cs)
        else if c == ')' || c == ']' || c == '\x7d' then
          match st.brackets with
          | b :: bs =>
            if closes b c then keep (expressionText { st with brackets := bs } cs)
            else .error .malformed
          | [] => .error .malformed
        else keep (expressionText st cs)

def isSpace (c : Char) : Bool :=
  c == ' ' || c == '\t' || c == '\n' || c == '\r' || c == '\x0b' || c == '\x0c'

/-- What may follow the expression before the format specification: an equals sign with blanks
after it, and a conversion. -/
def afterExpression (cs : List Char) : Except Fault (List Char) :=
  let cs :=
    match cs with
    | '=' :: rest => rest.dropWhile isSpace
    | _ => cs
  match cs with
  | '!' :: c :: rest =>
    if c == 's' || c == 'r' || c == 'a' then .ok rest else .error .malformed
  | '!' :: [] => .error .malformed
  | _ => .ok cs

/-- The literal text before the next field, checked for its escapes, and the rest, which is
empty or starts with a brace. Doubled braces stand for braces outside of format specifications
only. -/
def literalText (isRaw : Bool) (level : Nat) (done : List Char) :
    List Char → Except Fault (List Char × List Char)
  | [] => .ok (done.reverse, [])
  | '\\' :: c :: cs =>
    if isRaw || c == '\x7b' || c == '\x7d' then
      literalText isRaw level ('\\' :: done) (c :: cs)
    else if c == 'N' then
      match cs with
      | '\x7b' :: cs' => name isRaw level ('\x7b' :: 'N' :: '\\' :: done) cs'
      | _ => .error .malformed
    else literalText isRaw level (c :: '\\' :: done) cs
  | c :: cs =>
    if c == '\x7b' || c == '\x7d' then
      if level = 0 then
        match cs with
        | d :: cs' =>
          if d == c then literalText isRaw level (c :: done) cs'
          else if c == '\x7d' then .error .malformed
          else .ok (done.reverse, c :: d :: cs')
        | [] => if c == '\x7d' then .error .malformed else .ok (done.reverse, [c])
      else .ok (done.reverse, c :: cs)
    else literalText isRaw level (c :: done) cs
where
  /-- The rest of a character name. -/
  name (isRaw : Bool) (level : Nat) (done : List Char) :
      List Char → Except Fault (List Char × List Char)
    | [] => .error .malformed
    | c :: cs =>
      if c == '\x7d' then literalText isRaw level (c :: done) cs
      else name isRaw level (c :: done) cs

/-- The place after the characters that were read to get from one rest to a later one. -/
def placeAfter (pos : Pos) (before after : List Char) : Pos :=
  pos.advance (before.take (before.length - after.length))

/-- What follows the literal text before the next field. -/
def afterLiteral (isRaw : Bool) (level : Nat) (cs : List Char) : Except Fault (List Char) := do
  let (literal, rest) ← literalText isRaw level [] cs
  if isRaw then .ok rest
  else
    let _ ← Escape.read none literal
    .ok rest

/-- The expression of a field, which may not be blank, and what follows before the format
specification. Specifications nest twice at most. -/
def expressionOf (level : Nat) (body : List Char) : Except Fault (List Char × List Char) :=
  if level ≥ 2 then .error .malformed
  else do
    let (expression, after) ← expressionText ⟨none, []⟩ body
    if expression.all fun c => c == ' ' || c == '\t' || c == '\n' || c == '\x0c' then
      .error .malformed
    else
      let after ← afterExpression after
      .ok (expression, after)

/-- The format specification of a field if it has one, with what reads the fields in it. -/
def specificationOf (read : Pos → List Char → Except Fault (List Field × Pos × List Char))
    (pos : Pos) : List Char → Except Fault (Option (List Field) × Pos × List Char)
  | ':' :: inner => do
    let (fields, pos, after) ← read (pos.next ':') inner
    .ok (some fields, pos, after)
  | after => .ok (none, pos, after)

/-- The fields of a literal or of a format specification, and what follows them: nothing at the
outermost level, a closing brace at the inner ones. -/
def scan (isRaw : Bool) : Nat → Nat → Pos → List Char →
    Except Fault (List Field × Pos × List Char)
  | 0, _, _, _ => .error .malformed
  | fuel + 1, level, pos, cs => do
    let rest ← afterLiteral isRaw level cs
    let start := placeAfter pos cs rest
    match rest with
    | '\x7b' :: body => do
      let (expression, after) ← expressionOf level body
      let (spec, stop, after) ←
        specificationOf (scan isRaw fuel (level + 1)) (placeAfter start rest after) after
      match after with
      | '\x7d' :: after => do
        let (fields, last, after) ← scan isRaw fuel level (stop.next '\x7d') after
        .ok (⟨expression, start, spec⟩ :: fields, last, after)
      | _ => .error .malformed
    | _ => .ok ([], start, rest)

/-- The replacement fields of a formatted literal. -/
def ofBody (q : QuotedText) : Except Fault (List Field) := do
  let (fields, _, rest) ← scan q.isRaw (q.body.length + 1) 0 q.start q.body
  if rest.isEmpty then .ok fields else .error .malformed

end Field

end EffectGraph
