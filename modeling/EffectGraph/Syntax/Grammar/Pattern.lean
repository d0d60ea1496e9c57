/-
The grammar of patterns in `match` statements. It is tied together like the
grammar of expressions: `again` reads a pattern at a deeper nesting.
-/
import EffectGraph.Syntax.Grammar.Expression

namespace EffectGraph.Grammar

/-- A name that captures a value: not the wildcard, and not the start of something longer. -/
def captureName : Parser String := do
  if ← seesWord "_" then fail
  let name ← nameText
  if (← sees ".") || (← sees "(") || (← sees "=") then fail else return name

def isImaginary (t : Token) : Bool :=
  t.text.toList.getLast? == some 'j' || t.text.toList.getLast? == some 'J'

/-- A number with its sign. -/
def signedNumber : Parser Node := do
  let start ← here
  if ← accept "-" then
    let t ← expectKind .number
    let value := Node.new (.constant .number) t.span []
    node .unaryOp start [value.as .operand]
  else
    let _ ← expectKind .number
    node (.constant .number) start []

/-- A number, or the sum or difference of a real and an imaginary one. -/
def numberLiteral : Parser Node := do
  let start ← here
  let first ← if ← sees "-" then peekSecond else peek
  let real ← signedNumber
  if ← acceptAny ["+", "-"] then
    let t ← expectKind .number
    if isImaginary first || !isImaginary t then fail
    let imaginary := Node.new (.constant .number) t.span []
    node (.binOp false) start [real.as .left, imaginary.as .right]
  else return real

def startsNumber (t : Token) : Bool := t.kind = .number || t.is "-"

/-- A name, or members of a name. -/
def dottedName : Parser Node := do
  let start ← here
  extend (fun base => do
    if ← accept "." then
      let name ← identifier
      return some (← node (.member name .read) start [base.as .value])
    else return none) (← nameNode .read)

/-- The literal of a mapping key or of a value pattern: `none` if the next token starts none. -/
def literal? : Parser (Option Node) := do
  let t ← peek
  if startsNumber t then return some (← numberLiteral)
  else if t.kind = .text then return some (← textLiterals outermost)
  else return none

def singleton? : Parser (Option Node) := do
  if ← sees "None" then return some (← constant .none)
  else if ← sees "True" then return some (← constant (.bool true))
  else if ← sees "False" then return some (← constant (.bool false))
  else return none

def asPattern (name : Option String) (pattern : List Node) (start : Pos) : Parser Node :=
  node (.matchAs name) start (pattern.map (·.as .pattern))

def starPattern : Parser Node := do
  let start ← here
  expect "*"
  if ← seesWord "_" then
    let _ ← next
    node (.matchStar none) start []
  else
    let name ← captureName
    node (.matchStar (some name)) start []

def maybeStarPattern (again : Parser Node) : Parser Node := do
  if ← sees "*" then starPattern else again

def startsPattern (t : Token) : Bool :=
  match t.kind with
  | .name | .number | .text => true
  | .op => ["(", "[", "\x7b", "-", "*"].contains t.text
  | .keyword => ["None", "True", "False"].contains t.text
  | _ => false

def sequence (start : Pos) (patterns : List Node) : Parser Node :=
  node .matchSequence start (patterns.map (·.as .pattern))

/-- What brackets enclose: a sequence, or with parentheses and no comma a pattern by itself. -/
def enclosedPattern (again : Parser Node) : Parser Node := do
  let start ← here
  if ← accept "[" then
    if ← accept "]" then sequence start []
    else
      let first ← maybeStarPattern again
      let (rest, _) ← afterCommas startsPattern (maybeStarPattern again)
      expect "]"
      sequence start (first :: rest)
  else
    expect "("
    if ← accept ")" then sequence start []
    else
      let isStarred ← sees "*"
      let first ← maybeStarPattern again
      if ← sees "," then
        let (rest, _) ← afterCommas startsPattern (maybeStarPattern again)
        expect ")"
        sequence start (first :: rest)
      else
        expect ")"
        if isStarred then fail else return first

/-- The entries of a mapping pattern read so far: keys, patterns, and the name for the rest. -/
structure MappingEntries where
  keys : List Node
  patterns : List Node
  rest : Option String

def mappingStep (again : Parser Node) (m : MappingEntries) : Parser (Option MappingEntries) := do
  if (← sees "\x7d") then return none
  if m.rest.isSome then fail
  let m ←
    if ← accept "**" then
      let name ← captureName
      pure { m with rest := some name }
    else
      let key ←
        match ← literal? with
        | some key => pure key
        | none =>
          match ← singleton? with
          | some key => pure key
          | none =>
            let key ← dottedName
            match key.kind with
            | .member .. => pure key
            | _ => fail
      expect ":"
      let pattern ← again
      pure { m with keys := m.keys ++ [key], patterns := m.patterns ++ [pattern] }
  unless (← sees "\x7d") || (← accept ",") do fail
  return some m

def mappingPattern (again : Parser Node) : Parser Node := do
  let start ← here
  expect "\x7b"
  let m ← extend (mappingStep again) ⟨[], [], none⟩
  expect "\x7d"
  node (.matchMapping m.rest) start (m.keys.map (·.as .key) ++ m.patterns.map (·.as .pattern))

/-- The patterns of a class pattern read so far: positional ones first. -/
def classStep (again : Parser Node) (ps : List Node × List Node) :
    Parser (Option (List Node × List Node)) := do
  if ← sees ")" then return none
  let ps ←
    if (← peek).kind = .name && (← peekSecond).is "=" then
      let _ ← identifier
      expect "="
      pure (ps.1, ps.2 ++ [← again])
    else if ps.2.isEmpty then pure (ps.1 ++ [← again], ps.2)
    else fail
  unless (← sees ")") || (← accept ",") do fail
  return some ps

/-- A name or members of one: it captures, compares, or with brackets matches a class. -/
def namePattern (again : Parser Node) : Parser Node := do
  let start ← here
  if ← seesWord "_" then
    let _ ← next
    asPattern none [] start
  else
    let value ← dottedName
    if ← accept "(" then
      let (positional, keywords) ← extend (classStep again) ([], [])
      expect ")"
      node .matchClass start
        (value.as .base :: positional.map (·.as .pattern) ++ keywords.map (·.as .keyPattern))
    else if ← sees "=" then fail
    else
      match value.kind with
      | .name id _ => asPattern (some id) [] start
      | _ => node .matchValue start [value.as .value]

def closedPattern (again : Parser Node) : Parser Node := do
  let start ← here
  let t ← peek
  match ← literal? with
  | some value => node .matchValue start [value.as .value]
  | none =>
    match ← singleton? with
    | some _ => node .matchSingleton start []
    | none =>
      if t.kind = .name then namePattern again
      else if t.is "\x7b" then mappingPattern again
      else enclosedPattern again

/-- Alternatives, and a name for the whole. -/
def patternRule (again : Parser Node) : Parser Node := do
  let start ← here
  let first ← closedPattern again
  let rest ← many do
    if ← accept "|" then return some (← closedPattern again) else return none
  let value ←
    if rest.isEmpty then pure first
    else node .matchOr start ((first :: rest).map (·.as .pattern))
  if ← accept "as" then
    let name ← captureName
    asPattern (some name) [value] start
  else return value

/-- A pattern with nesting bounded by a number. -/
def pattern : Nat → Parser Node
  | 0 => throw .overflow
  | n + 1 => patternRule (pattern n)

/-- What follows `case`: a pattern, or patterns with commas that form a sequence. -/
def patterns : Parser Node := do
  let start ← here
  let isStarred ← sees "*"
  let first ← maybeStarPattern (pattern maxDepth)
  if ← sees "," then
    let (rest, _) ← afterCommas startsPattern (maybeStarPattern (pattern maxDepth))
    sequence start (first :: rest)
  else if isStarred then fail
  else return first

end EffectGraph.Grammar
