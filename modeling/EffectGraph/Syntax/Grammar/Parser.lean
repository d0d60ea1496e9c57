/-
Parsers over tokens.

A parser takes the tokens that are left and fails for good: the grammar
chooses by looking at the next tokens, and the two places where it has to try
one reading before another say so with `attempt`.
-/
import EffectGraph.Syntax.Token
import EffectGraph.Text.Normal

namespace EffectGraph.Grammar

/-- The tokens that are left, where the last one that was not layout ended, and how many tokens
there were at the start. -/
structure Cursor where
  rest : List Token
  last : Pos
  total : Nat
  deriving Inhabited

def Cursor.ofTokens (tokens : List Token) (start : Pos) : Cursor :=
  ⟨tokens, start, tokens.length⟩

abbrev Parser (α : Type) := StateT Cursor (Except Fault) α

def fail {α : Type} : Parser α := throw .malformed

/-- The next token; after the last one, a token that ends everything. -/
def peek : Parser Token := do
  match (← get).rest with
  | t :: _ => return t
  | [] => return ⟨.stop, "", ⟨(← get).last, (← get).last⟩⟩

/-- The token after the next one. -/
def peekSecond : Parser Token := do
  match (← get).rest with
  | _ :: t :: _ => return t
  | _ => return ⟨.stop, "", ⟨(← get).last, (← get).last⟩⟩

def next : Parser Token := do
  let c ← get
  match c.rest with
  | t :: rest =>
    set { c with rest, last := if t.isLayout then c.last else t.span.stop }
    return t
  | [] => fail

/-- Where the next token starts. -/
def here : Parser Pos := do
  match (← get).rest with
  | t :: _ => return t.span.start
  | [] => fail

/-- Whether the next token is this operator or keyword. -/
def sees (text : String) : Parser Bool := return (← peek).is text

/-- Takes the next token if it is this operator or keyword. -/
def accept (text : String) : Parser Bool := do
  if ← sees text then
    let _ ← next
    return true
  else return false

/-- Takes the next token if it is this operator or keyword and that is allowed here. -/
def acceptWhen (allowed : Bool) (text : String) : Parser Bool :=
  if allowed then accept text else return false

/-- Takes the next token if it is one of these operators or keywords. -/
def acceptAny (texts : List String) : Parser Bool := do
  let t ← peek
  if texts.any t.is then
    let _ ← next
    return true
  else return false

def expect (text : String) : Parser Unit := do
  unless ← accept text do fail

def expectKind (kind : TokenKind) : Parser Token := do
  if (← peek).kind = kind then next else fail

/-- Whether the next token is this word and not a reserved one. -/
def seesWord (word : String) : Parser Bool := do
  let t ← peek
  return t.kind = .name && t.text == word

/-- A name, in the form in which equal names are equal. -/
def identifier : Parser Identifier := do
  match Identifier.ofText? (Text.Normal.normalize (← expectKind .name).text) with
  | some name => return name
  | none => fail

/-- The text of a name. -/
def nameText : Parser String := return (← identifier).text

/-- A node from a place to the end of the last token. -/
def node (kind : Kind) (start : Pos) (children : List Node) : Parser Node :=
  return .new kind ⟨start, (← get).last⟩ children

/-- Runs a parser, and takes nothing if the text does not fit it. Text that is nested too deeply
is never tried again. -/
def attempt {α : Type} (p : Parser α) : Parser (Option α) := fun c =>
  match p c with
  | .ok (a, c') => .ok (some a, c')
  | .error .malformed => .ok (none, c)
  | .error e => .error e

def repeatFor {α : Type} (step : Parser (Option α)) : Nat → List α → Parser (List α)
  | 0, done => return done.reverse
  | n + 1, done => do
    match ← step with
    | some a => repeatFor step n (a :: done)
    | none => return done.reverse

/-- Repeats a step until it gives nothing. A step that gives something takes a token, so there
are no more rounds than tokens. -/
def many {α : Type} (step : Parser (Option α)) : Parser (List α) := do
  repeatFor step (← get).total []

def extendFor {α : Type} (step : α → Parser (Option α)) : Nat → α → Parser α
  | 0, a => return a
  | n + 1, a => do
    match ← step a with
    | some b => extendFor step n b
    | none => return a

/-- Extends a value as long as a step can. -/
def extend {α : Type} (step : α → Parser (Option α)) (a : α) : Parser α := do
  extendFor step (← get).total a

/-- Items after commas as long as the token after the comma may start one, and whether the last
comma stands alone. -/
def afterCommas {α : Type} (mayStart : Token → Bool) (item : Parser α) : Parser (List α × Bool) := do
  let items ← many do
    if (← sees ",") && mayStart (← peekSecond) then
      expect ","
      return some (← item)
    else return none
  let trailing ← accept ","
  return (items, trailing)

/-- Whether an expression, a starred one included, may start with the token. -/
def startsExpression (t : Token) : Bool :=
  match t.kind with
  | .name | .number | .text => true
  | .op => ["(", "[", "\x7b", "-", "+", "~", "...", "*"].contains t.text
  | .keyword => ["not", "lambda", "await", "None", "True", "False"].contains t.text
  | _ => false

end EffectGraph.Grammar
