/-
Tokens of a Python text.

`Token.scan` cuts a text into tokens and turns the layout of lines into
`newline`, `indent` and `dedent` tokens: the blanks before the first token of a
line are measured twice, with tabs to the next multiple of eight and with tabs
one column wide, and the two measures must agree on the nesting. Inside
brackets line ends do not count.
-/
import EffectGraph.Syntax.Node
import EffectGraph.Text.Identifier

namespace EffectGraph

/-- Why a text has no syntax tree. -/
inductive Fault where
  | malformed
  | tooDeep
  /-- The parser has no stack left. -/
  | overflow
  deriving DecidableEq, Repr, Inhabited

inductive TokenKind where
  | name
  | keyword
  | number
  | text
  | op
  | newline
  | indent
  | dedent
  | stop
  deriving DecidableEq, Repr, Inhabited

structure Token where
  kind : TokenKind
  text : String
  span : Span
  deriving DecidableEq, Repr, Inhabited

namespace Token

/-- Whether the token is this operator or keyword. -/
def is (t : Token) (text : String) : Bool :=
  (t.kind == .op || t.kind == .keyword) && t.text == text

/-- Layout tokens do not extend the construct they end. -/
def isLayout (t : Token) : Bool :=
  match t.kind with
  | .newline | .indent | .dedent | .stop => true
  | _ => false

def keywords : List String :=
  ["False", "None", "True", "and", "as", "assert", "async", "await", "break", "class", "continue",
   "def", "del", "elif", "else", "except", "finally", "for", "from", "global", "if", "import",
   "in", "is", "lambda", "nonlocal", "not", "or", "pass", "raise", "return", "try", "while",
   "with", "yield"]

/-! ### Characters -/

def isBlank (c : Char) : Bool := c == ' ' || c == '\t' || c == '\x0c'

/-- Whether a run of identifier characters may start here, before it is checked as a whole. -/
def mayStartName (c : Char) : Bool := c.isAlpha || c == '_' || 128 ≤ c.toNat

def mayContinueName (c : Char) : Bool := mayStartName c || c.isDigit

def isHexDigit (c : Char) : Bool := (Text.hexDigit? c).isSome
def isOctalDigit (c : Char) : Bool := '0' ≤ c && c ≤ '7'
def isBinaryDigit (c : Char) : Bool := c == '0' || c == '1'

/-! ### Numbers -/

/-- Splits off digits with single underscores before them; an underscore that no digit follows
is a fault. -/
def digits (isDigit : Char → Bool) : List Char → Option (List Char × List Char)
  | [] => some ([], [])
  | '_' :: c :: cs =>
    if isDigit c then (digits isDigit cs).map fun (ds, rest) => ('_' :: c :: ds, rest) else none
  | ['_'] => none
  | c :: cs =>
    if isDigit c then (digits isDigit cs).map fun (ds, rest) => (c :: ds, rest)
    else some ([], c :: cs)

/-- Whether a word stands at the front and ends there. -/
def startsWithWord (word : String) (cs : List Char) : Bool :=
  word.toList.isPrefixOf cs &&
    match cs.drop word.length with
    | c :: _ => !mayContinueName c
    | [] => true

/-- A number may not run into a name, except into a keyword that can follow it. -/
def mayEndNumber (cs : List Char) : Bool :=
  ["and", "else", "for", "if", "in", "is", "or", "not"].any (startsWithWord · cs) ||
    match cs with
    | c :: _ => !mayContinueName c
    | [] => true

def endNumber (lexeme rest : List Char) : Option (List Char × List Char) :=
  if mayEndNumber rest then some (lexeme, rest) else none

/-- The digits after a base mark such as `0x`. -/
def radixNumber (mark : List Char) (isDigit : Char → Bool) (cs : List Char) :
    Option (List Char × List Char) := do
  let (ds, rest) ← digits isDigit cs
  if ds.isEmpty then none
  else if (rest.head?.map Char.isDigit).getD false then none
  else endNumber (mark ++ ds) rest

/-- An imaginary mark, if there is one, and the end of the number. -/
def imaginaryPart (lexeme : List Char) : List Char → Option (List Char × List Char)
  | 'j' :: cs => endNumber (lexeme ++ ['j']) cs
  | 'J' :: cs => endNumber (lexeme ++ ['J']) cs
  | cs => endNumber lexeme cs

/-- An exponent, if there is one. The letter of a following `else` is none. -/
def exponentPart (lexeme : List Char) : List Char → Option (List Char × List Char)
  | e :: cs =>
    if e == 'e' || e == 'E' then
      let (sign, digitsAt) :=
        match cs with
        | '+' :: r => (['+'], r)
        | '-' :: r => (['-'], r)
        | _ => ([], cs)
      if (digitsAt.head?.map Char.isDigit).getD false then do
        let (ds, rest) ← digits Char.isDigit digitsAt
        imaginaryPart (lexeme ++ e :: sign ++ ds) rest
      else if sign.isEmpty then endNumber lexeme (e :: cs)
      else none
    else imaginaryPart lexeme (e :: cs)
  | [] => imaginaryPart lexeme []

/-- What may follow the integer part of a number. -/
def fractionPart (lexeme : List Char) : List Char → Option (List Char × List Char)
  | '.' :: cs =>
    if (cs.head?.map Char.isDigit).getD false then do
      let (ds, rest) ← digits Char.isDigit cs
      exponentPart (lexeme ++ '.' :: ds) rest
    else exponentPart (lexeme ++ ['.']) cs
  | cs => exponentPart lexeme cs

/-- Whether a lexeme made of digits is an integer that may be written so: no leading zeros
before other digits, and at most 4300 digits. -/
def isPlainInteger (ds : List Char) : Bool :=
  (ds.head? != some '0' || ds.all fun c => c == '0' || c == '_') &&
    (ds.filter Char.isDigit).length ≤ 4300

/-- A number at the front of the text, which starts with a digit or with a dot and a digit. -/
def number : List Char → Option (List Char × List Char)
  | '0' :: 'x' :: cs => radixNumber ['0', 'x'] isHexDigit cs
  | '0' :: 'X' :: cs => radixNumber ['0', 'X'] isHexDigit cs
  | '0' :: 'o' :: cs => radixNumber ['0', 'o'] isOctalDigit cs
  | '0' :: 'O' :: cs => radixNumber ['0', 'O'] isOctalDigit cs
  | '0' :: 'b' :: cs => radixNumber ['0', 'b'] isBinaryDigit cs
  | '0' :: 'B' :: cs => radixNumber ['0', 'B'] isBinaryDigit cs
  | cs => do
    let (ds, rest) ← digits Char.isDigit cs
    let (lexeme, rest) ← fractionPart ds rest
    if lexeme.all (fun c => c.isDigit || c == '_') && !isPlainInteger lexeme then none
    else some (lexeme, rest)

/-! ### Text literals -/

/-- The rest of a literal after its opening quotes, closing quotes included. -/
def textRest (quote : Char) (long : Bool) : List Char → Option (List Char × List Char)
  | [] => none
  | '\\' :: c :: cs => (textRest quote long cs).map fun (t, rest) => ('\\' :: c :: t, rest)
  | c :: cs =>
    if c == quote then
      if !long then some ([c], cs)
      else
        match cs with
        | d :: e :: rest =>
          if d == quote && e == quote then some ([c, d, e], rest)
          else (textRest quote long cs).map fun (t, rest) => (c :: t, rest)
        | _ => none
    else if c == '\n' && !long then none
    else (textRest quote long cs).map fun (t, rest) => (c :: t, rest)

/-- A literal from its first quote on. -/
def quoted : List Char → Option (List Char × List Char)
  | q :: cs =>
    match cs with
    | a :: b :: rest =>
      if a == q && b == q then (textRest q true rest).map fun (t, r) => (q :: a :: b :: t, r)
      else (textRest q false cs).map fun (t, r) => (q :: t, r)
    | _ => (textRest q false cs).map fun (t, r) => (q :: t, r)
  | [] => none

/-- The marks that may stand before the quotes of a literal, in lower case. -/
def textMarks : List String :=
  ["", "b", "r", "u", "f", "br", "rb", "fr", "rf"]

/-- A literal with its mark, if one stands at the front of the text. -/
def markedText? (cs : List Char) : Option (List Char × List Char) :=
  let mark := cs.takeWhile Char.isAlpha
  match cs.drop mark.length with
  | q :: rest =>
    if (q == '\'' || q == '"') && textMarks.contains (String.ofList (mark.map Char.toLower)) then
      some (mark, q :: rest)
    else none
  | [] => none

/-! ### Operators -/

def operators : List String :=
  ["**=", "//=", "<<=", ">>=", "...",
   "!=", "%=", "&=", "**", "*=", "+=", "-=", "->", "//", "/=", ":=", "<<", "<=", "<>", "==",
   ">=", ">>", "@=", "^=", "|=",
   "%", "&", "(", ")", "*", "+", ",", "-", ".", "/", ":", ";", "<", "=", ">", "@", "[", "]",
   "^", "\x7b", "|", "\x7d", "~"]

/-- The longest operator at the front of the text. -/
def operator? (cs : List Char) : Option String :=
  operators.find? fun o => o.toList.isPrefixOf cs

/-! ### Layout -/

/-- What has been read so far decides how the rest is read: the open brackets, innermost first,
and the columns of the open blocks in both measures, innermost first. -/
structure Scanner where
  rest : List Char
  pos : Pos
  brackets : List Char
  blocks : List (Nat × Nat)
  deriving Inhabited

def maxBrackets : Nat := 200
def maxBlocks : Nat := 100

namespace Scanner

def skip (s : Scanner) (cs rest : List Char) : Scanner :=
  { s with rest, pos := s.pos.advance cs }

/-- The blanks at the start of a line in both measures, and what follows them. A backslash
joins the next line; the column of the first joining backslash, unless it is zero, is then the
column of the whole. -/
def measure (column alternative joined : Nat) (pos : Pos) :
    List Char → Except Fault (Nat × Nat × Pos × List Char)
  | ' ' :: cs => measure (column + 1) (alternative + 1) joined (pos.next ' ') cs
  | '\t' :: cs => measure ((column / 8 + 1) * 8) (alternative + 1) joined (pos.next '\t') cs
  | '\x0c' :: cs => measure 0 0 joined (pos.next '\x0c') cs
  | ['\\', '\n'] => .error .malformed
  | '\\' :: '\n' :: cs =>
    measure column alternative (if joined = 0 then column else joined)
      ((pos.next '\\').next '\n') cs
  | '\\' :: _ => .error .malformed
  | cs =>
    if joined = 0 then .ok (column, alternative, pos, cs)
    else .ok (joined, joined, pos, cs)

/-- Closes the blocks that are deeper than a column. The column must be that of an open block. -/
def closeBlocks (column alternative : Nat) : List (Nat × Nat) →
    Except Fault (Nat × List (Nat × Nat))
  | [] => .error .malformed
  | (c, a) :: blocks =>
    if column < c then (closeBlocks column alternative blocks).map fun (n, bs) => (n + 1, bs)
    else if column == c && alternative == a then .ok (0, (c, a) :: blocks)
    else .error .malformed

/-- The layout tokens before the first token of a line. -/
def layout (s : Scanner) (column alternative : Nat) : Except Fault (List Token × Scanner) :=
  match s.blocks with
  | [] => .error .malformed
  | (c, a) :: _ =>
    if c < column then
      if s.blocks.length ≥ maxBlocks || alternative ≤ a then .error .malformed
      else
        .ok ([⟨.indent, "", ⟨s.pos, s.pos⟩⟩],
          { s with blocks := (column, alternative) :: s.blocks })
    else do
      let (n, blocks) ← closeBlocks column alternative s.blocks
      .ok (List.replicate n ⟨.dedent, "", ⟨s.pos, s.pos⟩⟩, { s with blocks })

/-- A token made of the first characters of the rest. -/
def take (s : Scanner) (kind : TokenKind) (lexeme rest : List Char) : Token × Scanner :=
  let after := s.skip lexeme rest
  (⟨kind, String.ofList lexeme, ⟨s.pos, after.pos⟩⟩, after)

/-- Keeps account of the brackets. -/
def bracket (s : Scanner) (op : String) : Except Fault Scanner :=
  if op == "(" || op == "[" || op == "\x7b" then
    if s.brackets.length ≥ maxBrackets then .error .malformed
    else .ok { s with brackets := op.toList.headD ' ' :: s.brackets }
  else if op == ")" || op == "]" || op == "\x7d" then
    match s.brackets with
    | b :: bs =>
      if (b == '(' && op == ")") || (b == '[' && op == "]") || (b == '\x7b' && op == "\x7d") then
        .ok { s with brackets := bs }
      else .error .malformed
    | [] => .error .malformed
  else .ok s

/-- The token at the front of the rest, which is neither blank nor a line end. -/
def token (s : Scanner) : Except Fault (Token × Scanner) :=
  match markedText? s.rest with
  | some (mark, literal) =>
    match quoted literal with
    | some (lexeme, rest) => .ok (s.take .text (mark ++ lexeme) rest)
    | none => .error .malformed
  | none =>
    match s.rest with
    | [] => .error .malformed
    | c :: cs =>
      if mayStartName c then
        let lexeme := s.rest.takeWhile mayContinueName
        let rest := s.rest.dropWhile mayContinueName
        if !Text.Identifier.isIdentifier lexeme then .error .malformed
        else
          let kind := if keywords.contains (String.ofList lexeme) then .keyword else .name
          .ok (s.take kind lexeme rest)
      else if c.isDigit || (c == '.' && (cs.head?.map Char.isDigit).getD false) then
        match number s.rest with
        | some (lexeme, rest) => .ok (s.take .number lexeme rest)
        | none => .error .malformed
      else
        match operator? s.rest with
        | some op => do
          let s' ← s.bracket op
          .ok (s'.take .op op.toList (s.rest.drop op.length))
        | none => .error .malformed

/-- Reads the rest of the text. `fresh` says that a line starts here, `done` holds the tokens
read so far in reverse. -/
def run : Nat → Bool → Scanner → List Token → Except Fault (List Token)
  | 0, _, _, _ => .error .malformed
  | fuel + 1, true, s, done => do
    let (column, alternative, pos, rest) ← measure 0 0 0 s.pos s.rest
    let s := { s with rest, pos }
    if !s.brackets.isEmpty then run fuel false s done
    else
      match rest with
      | '\n' :: cs => run fuel true (s.skip ['\n'] cs) done
      | '#' :: _ =>
        let comment := rest.takeWhile (· != '\n')
        match rest.dropWhile (· != '\n') with
        | '\n' :: cs => run fuel true (s.skip (comment ++ ['\n']) cs) done
        | _ => run fuel false (s.skip comment []) done
      | _ =>
        let (tokens, s) ← s.layout column alternative
        run fuel false s (tokens.reverse ++ done)
  | fuel + 1, false, s, done =>
    let blanks := s.rest.takeWhile isBlank
    let s := s.skip blanks (s.rest.dropWhile isBlank)
    match s.rest with
    | [] =>
      if !s.brackets.isEmpty then .error .malformed
      else .ok ((⟨.stop, "", ⟨s.pos, s.pos⟩⟩ :: done).reverse)
    | '#' :: _ =>
      let comment := s.rest.takeWhile (· != '\n')
      run fuel false (s.skip comment (s.rest.dropWhile (· != '\n'))) done
    | '\n' :: cs =>
      let after := s.skip ['\n'] cs
      if s.brackets.isEmpty then
        run fuel true after (⟨.newline, "", ⟨s.pos, after.pos⟩⟩ :: done)
      else run fuel true after done
    | '\\' :: cs =>
      match cs with
      | '\n' :: rest =>
        if rest.isEmpty then .error .malformed
        else run fuel false (s.skip ['\\', '\n'] rest) done
      | _ => .error .malformed
    | _ => do
      let (t, s) ← s.token
      run fuel false s (t :: done)

end Scanner

/-- Every line end is written as one line feed. -/
def unifyLineEnds : List Char → List Char
  | [] => []
  | '\r' :: '\n' :: cs => '\n' :: unifyLineEnds cs
  | '\r' :: cs => '\n' :: unifyLineEnds cs
  | c :: cs => c :: unifyLineEnds cs

/-- The tokens of a text that starts at a place. Every step of the scanner reads a character or
leaves the start of a line, so twice the length is enough steps. -/
def scanAt (pos : Pos) (cs : List Char) : Except Fault (List Token) :=
  Scanner.run (2 * cs.length + 2) true ⟨cs, pos, [], [(0, 0)]⟩ []

/-- The tokens of a whole file, whose last line always ends. -/
def scanFile (text : String) : Except Fault (List Token) :=
  let cs := unifyLineEnds text.toList
  if cs.contains '\x00' then .error .malformed
  else scanAt .start (if cs.getLast? == some '\n' then cs else cs ++ ['\n'])

/-- The tokens of an expression that stands alone. -/
def scanExpression (text : String) : Except Fault (List Token) :=
  scanAt .start (unifyLineEnds text.toList)

end Token

end EffectGraph
