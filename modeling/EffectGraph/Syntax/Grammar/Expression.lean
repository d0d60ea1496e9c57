/-
The grammar of expressions.

Each rule is a parser that takes, as `again`, the parsers of the rules it may
use at a deeper nesting (`Goal`). The rules themselves are not recursive; they
are tied together at the end by `solve`, whose first argument is what is left of
the parser's stack. A rule uses `again` only after it has taken a token.

How much of the stack a nested expression takes depends on what it is nested in:
an operator goes straight on with its operand, while a bracket leaves all
strengths of operators waiting. So the rules of operators take the parsers of
the rules below them with the levels they leave waiting (`Deeper`).
-/
import EffectGraph.Syntax.Grammar.Parser
import EffectGraph.Syntax.Grammar.Target
import EffectGraph.Syntax.Literal

namespace EffectGraph.Grammar

/-- The rules that other rules use at a deeper nesting. -/
inductive Goal where
  | expression
  | disjunction
  | inversion
  | bitOr
  | factor
  | primary
  deriving DecidableEq

abbrev Again := Goal → Parser Node

/-- The rules at a deeper nesting, by the levels of the stack that wait for them. -/
abbrev Deeper := Nat → Again

/-- A star and what it spreads. -/
def starred (again : Again) (goal : Goal) : Parser Node := do
  let start ← here
  expect "*"
  let value ← again goal
  node .starred start [value.as .value]

/-- A name as an expression. -/
def nameNode (access : Access) : Parser Node := do
  let start ← here
  let id ← identifier
  node (.name id access) start []

/-- Whether a name and `:=` stand next. -/
def seesNamed : Parser Bool :=
  return (← peek).kind = .name && (← peekSecond).is ":="

/-- `name := value`, or an expression that no `:=` follows. -/
def namedExpression (again : Again) : Parser Node := do
  let start ← here
  if ← seesNamed then
    let target ← nameNode .write
    expect ":="
    let value ← again .expression
    node .namedExpr start [target.as .target, value.as .value]
  else
    let value ← again .expression
    if ← sees ":=" then fail else return value

def starNamedExpression (again : Again) : Parser Node := do
  if ← sees "*" then starred again .bitOr else namedExpression again

def starExpression (again : Again) : Parser Node := do
  if ← sees "*" then starred again .bitOr else again .expression

/-- One or more expressions; with a comma they form a tuple. -/
def starExpressions (again : Again) : Parser Node := do
  let start ← here
  let first ← starExpression again
  let (rest, trailing) ← afterCommas startsExpression (starExpression again)
  if rest.isEmpty && !trailing then return first
  else node .tuple start ((first :: rest).map (·.as .element))

def yieldExpression (again : Again) : Parser Node := do
  let start ← here
  expect "yield"
  if ← accept "from" then
    let value ← again .expression
    node .yieldFrom start [value.as .value]
  else if startsExpression (← peek) then
    let value ← starExpressions again
    node .yield start [value.as .value]
  else node .yield start []

def yieldOrStarExpressions (again : Again) : Parser Node := do
  if ← sees "yield" then yieldExpression again else starExpressions again

/-! ### Targets -/

def starTarget (again : Again) : Parser Node := do
  let start ← here
  if ← accept "*" then
    let value ← again .primary
    match value.asTarget? with
    | some target => node .starred start [target.as .value]
    | none => fail
  else
    match (← again .primary).asTarget? with
    | some target => return target
    | none => fail

/-- The targets of a loop; with a comma they form a tuple. -/
def starTargets (again : Again) : Parser Node := do
  let start ← here
  let first ← starTarget again
  let (rest, trailing) ← afterCommas startsExpression (starTarget again)
  if rest.isEmpty && !trailing then return first
  else node .tuple start ((first :: rest).map (·.as .element))

/-! ### Comprehensions -/

def seesClause : Parser Bool := do
  return (← sees "for") || ((← sees "async") && (← peekSecond).is "for")

def clause (again : Again) : Parser Node := do
  let start ← here
  let isAsync ← accept "async"
  expect "for"
  let target ← starTargets again
  expect "in"
  let iter ← again .disjunction
  let conditions ← many do
    if ← accept "if" then return some (← again .disjunction) else return none
  node (.comprehension isAsync) start
    (target.as .target :: iter.as .iter :: conditions.map (·.as .condition))

def clauses (again : Again) : Parser (List Node) := do
  let cs ← many do
    if ← seesClause then return some (← clause again) else return none
  if cs.isEmpty then fail else return cs.map (·.as .generator)

/-! ### Parameters -/

/-- The parameters read so far. -/
structure Parameters where
  posonly : List Node
  positional : List Node
  vararg : Option Node
  kwonly : List Node
  kwDefaults : List Node
  kwarg : Option Node
  defaults : List Node

/-- Which parameters may still come. -/
inductive Stage where
  | positional (sawDefault sawSlash : Bool)
  /-- After a star; `bare` until a parameter follows a star that names none. -/
  | keywords (bare : Bool)
  | finished

/-- A parameter with its hint, where the signature allows one. -/
def parameter (again : Again) (annotated mayStar : Bool) : Parser Node := do
  let start ← here
  let name ← identifier
  if ← acceptWhen annotated ":" then
    let hint ← if mayStar then starExpression again else again .expression
    node (.arg name) start [hint.as .hint]
  else node (.arg name) start []

/-- After a parameter comes a comma or the end of the signature. -/
def parameterEnd (close : String) : Parser Unit := do
  unless (← sees close) || (← accept ",") do fail

def parameterStep (again : Again) (close : String) (annotated : Bool)
    (st : Parameters × Stage) : Parser (Option (Parameters × Stage)) := do
  let (ps, stage) := st
  if ← sees close then return none
  match stage with
  | .finished => fail
  | .positional sawDefault sawSlash =>
    if ← accept "/" then
      if sawSlash || ps.positional.isEmpty then fail
      parameterEnd close
      return some ({ ps with posonly := ps.positional, positional := [] },
        .positional sawDefault true)
    else if ← accept "**" then
      let p ← parameter again annotated false
      parameterEnd close
      return some ({ ps with kwarg := some p }, .finished)
    else if ← accept "*" then
      if ← accept "," then return some (ps, .keywords true)
      else
        let p ← parameter again annotated true
        parameterEnd close
        return some ({ ps with vararg := some p }, .keywords false)
    else
      let p ← parameter again annotated false
      if ← accept "=" then
        let d ← again .expression
        parameterEnd close
        return some ({ ps with positional := ps.positional ++ [p], defaults := ps.defaults ++ [d] },
          .positional true sawSlash)
      else if sawDefault then fail
      else
        parameterEnd close
        return some ({ ps with positional := ps.positional ++ [p] }, .positional false sawSlash)
  | .keywords bare =>
    if ← acceptWhen (!bare) "**" then
      let p ← parameter again annotated false
      parameterEnd close
      return some ({ ps with kwarg := some p }, .finished)
    else
      let p ← parameter again annotated false
      if ← accept "=" then
        let d ← again .expression
        parameterEnd close
        return some ({ ps with kwonly := ps.kwonly ++ [p], kwDefaults := ps.kwDefaults ++ [d] },
          .keywords false)
      else
        parameterEnd close
        return some ({ ps with kwonly := ps.kwonly ++ [p] }, .keywords false)

/-- A signature up to its closing token, which stays. -/
def signature (again : Again) (close : String) (annotated : Bool) : Parser Node := do
  let start ← here
  let (ps, stage) ← extend (parameterStep again close annotated)
    (⟨[], [], none, [], [], none, []⟩, .positional false false)
  match stage with
  | .keywords true => fail
  | _ =>
    node .arguments start
      (ps.posonly.map (·.as .posonly) ++ ps.positional.map (·.as .positional) ++
        ps.vararg.toList.map (·.as .vararg) ++ ps.kwonly.map (·.as .kwonly) ++
        ps.kwDefaults.map (·.as .kwDefault) ++ ps.kwarg.toList.map (·.as .kwarg) ++
        ps.defaults.map (·.as .default))

def lambdaExpression (again : Again) : Parser Node := do
  let start ← here
  expect "lambda"
  let args ← signature again ":" false
  expect ":"
  let body ← again .expression
  node .lambda start [args.as .signature, body.as .body]

/-! ### Calls -/

/-- The arguments of a call read so far, and which may still come: positional ones until a
keyword, starred ones until a double star. -/
structure Arguments where
  positional : List Node
  keywords : List Node
  stage : Nat

def argumentStep (again : Again) (args : Arguments) : Parser (Option Arguments) := do
  if ← sees ")" then return none
  let start ← here
  if ← accept "**" then
    let value ← again .expression
    let k ← node (.keyword none) start [value.as .value]
    unless (← sees ")") || (← accept ",") do fail
    return some { args with keywords := args.keywords ++ [k], stage := 2 }
  else if ← sees "*" then
    if args.stage ≥ 2 then fail
    let s ← starred again .expression
    unless (← sees ")") || (← accept ",") do fail
    return some { args with positional := args.positional ++ [s] }
  else if (← peek).kind = .name && (← peekSecond).is "=" then
    let name ← nameText
    expect "="
    let value ← again .expression
    let k ← node (.keyword (some name)) start [value.as .value]
    unless (← sees ")") || (← accept ",") do fail
    return some { args with keywords := args.keywords ++ [k], stage := max 1 args.stage }
  else
    if args.stage ≥ 1 then fail
    let value ← namedExpression again
    unless (← sees ")") || (← accept ",") do fail
    return some { args with positional := args.positional ++ [value] }

/-- The arguments between the brackets of a call or of a class, without the brackets. -/
def arguments (again : Again) : Parser (List Node × List Node) := do
  let args ← extend (argumentStep again) ⟨[], [], 0⟩
  return (args.positional.map (·.as .argument), args.keywords.map (·.as .keyword))

/-- The arguments of a call with their brackets. A generator expression that is the only argument
uses the brackets of the call. -/
def callArguments (again : Again) : Parser (List Node × List Node) := do
  let start ← here
  expect "("
  if ← accept ")" then return ([], [])
  let isPlain := !((← sees "*") || (← sees "**") ||
    ((← peek).kind = .name && (← peekSecond).is "="))
  if isPlain then
    let first ← namedExpression again
    if ← seesClause then
      let gens ← clauses again
      expect ")"
      let g ← node .generatorExp start (first.as .element :: gens)
      return ([g.as .argument], [])
    else
      unless (← sees ")") || (← accept ",") do fail
      let (positional, keywords) ← arguments again
      expect ")"
      return (first.as .argument :: positional, keywords)
  else
    let (positional, keywords) ← arguments again
    expect ")"
    return (positional, keywords)

/-! ### Subscripts -/

def sliceOrExpression (again : Again) : Parser Node := do
  let start ← here
  let isNamed ← seesNamed
  let lower ← if ← sees ":" then pure none else some <$> namedExpression again
  if ← acceptWhen (!isNamed) ":" then
    let bound (role : Role) : Parser (List Node) := do
      if startsExpression (← peek) then return [(← again .expression).as role] else return []
    let upper ← bound .upper
    let step ← if ← accept ":" then bound .step else pure []
    node .slice start ((lower.map (·.as .lower)).toList ++ upper ++ step)
  else
    match lower with
    | some e => return e
    | none => fail

def indexItem (again : Again) : Parser Node := do
  if ← sees "*" then starred again .expression else sliceOrExpression again

def startsIndex (t : Token) : Bool := startsExpression t || t.is ":"

/-- What stands between the brackets of a subscript; with a comma or a star it is a tuple. -/
def indexExpression (again : Again) : Parser Node := do
  let start ← here
  let isStarred ← sees "*"
  let first ← indexItem again
  let (rest, trailing) ← afterCommas startsIndex (indexItem again)
  if rest.isEmpty && !trailing && !isStarred then return first
  else node .tuple start ((first :: rest).map (·.as .element))

/-! ### Atoms -/

/-- What an opening parenthesis starts: a tuple, an expression in parentheses, or a generator. -/
def parenthesized (again : Again) : Parser Node := do
  let start ← here
  expect "("
  if ← accept ")" then node .tuple start []
  else if ← sees "yield" then
    let value ← yieldExpression again
    expect ")"
    return value
  else
    let isStarred ← sees "*"
    let first ← starNamedExpression again
    if !isStarred && (← seesClause) then
      let gens ← clauses again
      expect ")"
      node .generatorExp start (first.as .element :: gens)
    else if ← sees "," then
      let (rest, _) ← afterCommas startsExpression (starNamedExpression again)
      expect ")"
      node .tuple start ((first :: rest).map (·.as .element))
    else
      expect ")"
      if isStarred then fail else return first

def listDisplay (again : Again) : Parser Node := do
  let start ← here
  expect "["
  if ← accept "]" then node .list start []
  else
    let isStarred ← sees "*"
    let first ← starNamedExpression again
    if !isStarred && (← seesClause) then
      let gens ← clauses again
      expect "]"
      node .listComp start (first.as .element :: gens)
    else
      let (rest, _) ← afterCommas startsExpression (starNamedExpression again)
      expect "]"
      node .list start ((first :: rest).map (·.as .element))

/-- An entry of a dictionary: its key, unless a double star spreads another one, and its value. -/
def dictEntry (again : Again) : Parser (Option Node × Node) := do
  if ← accept "**" then return (none, ← again .bitOr)
  else
    let key ← again .expression
    expect ":"
    return (some key, ← again .expression)

def dictNode (start : Pos) (entries : List (Option Node × Node)) : Parser Node :=
  node .dict start
    (entries.filterMap (fun e => e.1.map (·.as .key)) ++ entries.map (fun e => e.2.as .value))

def startsEntry (t : Token) : Bool := startsExpression t || t.is "**"

def braced (again : Again) : Parser Node := do
  let start ← here
  expect "\x7b"
  if ← accept "\x7d" then node .dict start []
  else if ← sees "**" then
    let first ← dictEntry again
    let (rest, _) ← afterCommas startsEntry (dictEntry again)
    expect "\x7d"
    dictNode start (first :: rest)
  else
    let isStarred ← sees "*"
    let isNamed ← seesNamed
    let first ← starNamedExpression again
    if ← acceptWhen (!isStarred && !isNamed) ":" then
      let value ← again .expression
      if ← seesClause then
        let gens ← clauses again
        expect "\x7d"
        node .dictComp start (first.as .key :: value.as .value :: gens)
      else
        let (rest, _) ← afterCommas startsEntry (dictEntry again)
        expect "\x7d"
        dictNode start ((some first, value) :: rest)
    else if !isStarred && (← seesClause) then
      let gens ← clauses again
      expect "\x7d"
      node .setComp start (first.as .element :: gens)
    else
      let (rest, _) ← afterCommas startsExpression (starNamedExpression again)
      expect "\x7d"
      node .set start ((first :: rest).map (·.as .element))

/-! ### Replacement fields

The expression of a field is scanned as a text of its own, in which the braces
are parentheses. Its first line goes on in the line that the field stands in, so
what ends on that line is moved to the right. What starts there and ends on a
later line is not: a literal of several lines keeps the column that it has in
the text of the field, and so do the fields of that literal. -/

/-- A token of the text of a field, placed where the field starts. -/
def placed (start : Pos) (t : Token) : Token :=
  if t.span.stop.line = start.line then
    { t with
      span := ⟨⟨start.line, start.column + t.span.start.column⟩,
        ⟨start.line, start.column + t.span.stop.column⟩⟩ }
  else t

/-- Where a field counts as starting: at its brace or, if the line of the brace ends after it, where
the literal or the line starts. -/
def fieldStart (origin brace : Pos) (text : List Char) : Pos :=
  if (text.dropWhile Token.isBlank).head? = some '\n' then
    if brace.line = origin.line then origin else ⟨brace.line, 0⟩
  else brace

def fieldExpression (again : Again) (text : List Char) (start : Pos) : Parser Node := fun c => do
  let tokens ← Token.scanAt ⟨start.line, 0⟩ ('(' :: text ++ [')'])
  let (value, _) ← again .expression (.ofTokens (tokens.map (placed start)) start)
  return (value, c)

mutual

/-- The node of a replacement field of a literal that starts at `origin`. Its span is that of all
adjacent literals. -/
def fieldNode (again : Again) (span : Span) (origin : Pos) : Field → Parser Node
  | .mk text brace none => do
    let value ← fieldExpression again text (fieldStart origin brace text)
    return .new .formattedValue span [value.as .value]
  | .mk text brace (some fields) => do
    let value ← fieldExpression again text (fieldStart origin brace text)
    let inner ← fieldNodes again span origin fields
    let spec := Node.new .joinedStr span (inner.map (·.as .value))
    return .new .formattedValue span [value.as .value, spec.as .formatSpec]

def fieldNodes (again : Again) (span : Span) (origin : Pos) : List Field → Parser (List Node)
  | [] => return []
  | f :: fs => do
    let n ← fieldNode again span origin f
    return n :: (← fieldNodes again span origin fs)

end

/-- Adjacent literals are one constant, or one formatted text if any of them is formatted. Text
and bytes do not mix. -/
def textLiterals (again : Again) : Parser Node := do
  let start ← here
  let tokens ← many do
    if (← peek).kind = .text then return some (← next) else return none
  let span : Span := ⟨start, (← get).last⟩
  let parts := tokens.map QuotedText.ofToken
  if parts.isEmpty then fail
  else if parts.all (·.isBytes) then
    for q in parts do
      q.checkBytes
    return .new (.constant .bytes) span []
  else if parts.any (·.isBytes) then fail
  else if parts.any (·.isFormatted) then
    let mut nodes : List Node := []
    for q in parts do
      if q.isFormatted then
        let fields ← Field.ofBody q
        nodes := nodes ++ (← fieldNodes again span q.origin fields)
      else
        let _ ← q.characters
    return .new .joinedStr span (nodes.map (·.as .value))
  else
    let mut chars : List (Option Char) := []
    for q in parts do
      chars := chars ++ (← q.characters)
    return .new (.constant (.ofCharacters chars)) span []

def constant (value : Literal) : Parser Node := do
  let start ← here
  let _ ← next
  node (.constant value) start []

def atom (again : Again) : Parser Node := do
  let t ← peek
  match t.kind with
  | .name => nameNode .read
  | .number => constant .number
  | .text => textLiterals again
  | .keyword =>
    if t.text == "True" then constant (.bool true)
    else if t.text == "False" then constant (.bool false)
    else if t.text == "None" then constant .none
    else fail
  | .op =>
    if t.text == "(" then parenthesized again
    else if t.text == "[" then listDisplay again
    else if t.text == "\x7b" then braced again
    else if t.text == "..." then constant .ellipsis
    else fail
  | _ => fail

/-! ### Operators -/

/-- A member access, a call or a subscript after an expression. -/
def trailer (again : Again) (start : Pos) (base : Node) : Parser (Option Node) := do
  if ← accept "." then
    let name ← identifier
    return some (← node (.member name .read) start [base.as .value])
  else if ← sees "(" then
    let (positional, keywords) ← callArguments again
    return some (← node .call start (base.as .func :: positional ++ keywords))
  else if ← accept "[" then
    let index ← indexExpression again
    expect "]"
    return some (← node .subscript start [base.as .value, index.as .index])
  else return none

/-- The levels that wait for what stands in brackets. -/
def bracketLevels : Nat := 27

/-- The levels that wait for what stands in the brackets after an expression. -/
def trailerLevels : Nat := 23

def primary (deeper : Deeper) : Parser Node := do
  let start ← here
  extend (trailer (deeper trailerLevels) start) (← atom (deeper bracketLevels))

def awaitPrimary (deeper : Deeper) : Parser Node := do
  let start ← here
  if ← accept "await" then
    let value ← primary deeper
    node .await start [value.as .value]
  else primary deeper

def power (deeper : Deeper) : Parser Node := do
  let start ← here
  let base ← awaitPrimary deeper
  if ← accept "**" then
    let exponent ← deeper 1 .factor
    node (.binOp false) start [base.as .left, exponent.as .right]
  else return base

def factor (deeper : Deeper) : Parser Node := do
  let start ← here
  if ← acceptAny ["-", "+", "~"] then
    let operand ← deeper 0 .factor
    node .unaryOp start [operand.as .operand]
  else power deeper

/-- Operators of one strength, from the left. -/
def leftAssociative (ops : List String) (operand : Parser Node) : Parser Node := do
  let start ← here
  let first ← operand
  extend (fun left => do
    let t ← peek
    if t.kind = .op && ops.contains t.text then
      let _ ← next
      let right ← operand
      return some (← node (.binOp (t.text == "|")) start [left.as .left, right.as .right])
    else return none) first

def term (deeper : Deeper) : Parser Node :=
  leftAssociative ["*", "/", "//", "%", "@"] (factor deeper)

def sum (deeper : Deeper) : Parser Node := leftAssociative ["+", "-"] (term deeper)

def shift (deeper : Deeper) : Parser Node := leftAssociative ["<<", ">>"] (sum deeper)

def bitAnd (deeper : Deeper) : Parser Node := leftAssociative ["&"] (shift deeper)

def bitXor (deeper : Deeper) : Parser Node := leftAssociative ["^"] (bitAnd deeper)

def bitOr (deeper : Deeper) : Parser Node := leftAssociative ["|"] (bitXor deeper)

/-- Takes a comparison operator. -/
def acceptComparison : Parser Bool := do
  let t ← peek
  if t.kind = .op && ["==", "!=", "<=", "<", ">=", ">"].contains t.text then
    let _ ← next
    return true
  else if ← accept "in" then return true
  else if ← accept "is" then
    let _ ← accept "not"
    return true
  else if (← sees "not") && (← peekSecond).is "in" then
    expect "not"
    accept "in"
  else return false

def comparison (deeper : Deeper) : Parser Node := do
  let start ← here
  let first ← bitOr deeper
  let rest ← many do
    if ← acceptComparison then return some (← bitOr deeper) else return none
  if rest.isEmpty then return first
  else node .compare start (first.as .left :: rest.map (·.as .right))

def inversion (deeper : Deeper) : Parser Node := do
  let start ← here
  if ← accept "not" then
    let operand ← deeper 0 .inversion
    node .unaryOp start [operand.as .operand]
  else comparison deeper

/-- Operands joined by a word; a single one stands for itself. -/
def joined (word : String) (operand : Parser Node) : Parser Node := do
  let start ← here
  let first ← operand
  let rest ← many do
    if ← accept word then return some (← operand) else return none
  if rest.isEmpty then return first
  else node .boolOp start ((first :: rest).map (·.as .value))

def conjunction (deeper : Deeper) : Parser Node := joined "and" (inversion deeper)

def disjunction (deeper : Deeper) : Parser Node := joined "or" (conjunction deeper)

def expression (deeper : Deeper) : Parser Node := do
  let start ← here
  if ← sees "lambda" then lambdaExpression (deeper 1)
  else
    let value ← disjunction deeper
    if ← accept "if" then
      let test ← deeper 0 .disjunction
      expect "else"
      let other ← deeper 0 .expression
      node .ifExp start [test.as .test, value.as .body, other.as .orelse]
    else return value

/-- One level of the grammar. -/
def rule (deeper : Deeper) : Goal → Parser Node
  | .expression => expression deeper
  | .disjunction => disjunction deeper
  | .inversion => inversion deeper
  | .bitOr => bitOr deeper
  | .factor => factor deeper
  | .primary => primary deeper

/-- The grammar on a stack with so many levels left, of which some wait. -/
def solve : Nat → Deeper
  | 0, _ => fun _ => throw .overflow
  | n + 1, 0 => rule (solve n)
  | n + 1, waiting + 1 => solve n waiting

/-- The levels of the parser's stack. -/
def maxLevels : Nat := 5976

/-- The rules of expressions at the outermost nesting. -/
def outermost : Again := solve maxLevels 0

/-- How deeply a tree may nest. -/
def maxDepth : Nat := 3000

end EffectGraph.Grammar
