/-
The grammar of statements. `block` reads the statements under a header at a
deeper nesting; everything else is read in place.
-/
import EffectGraph.Syntax.Grammar.Pattern

namespace EffectGraph.Grammar

/-! ### Simple statements -/

def augmentedOperators : List String :=
  ["+=", "-=", "*=", "@=", "/=", "%=", "&=", "|=", "^=", "<<=", ">>=", "**=", "//="]

def targetsOf : List Node → Parser (List Node)
  | [] => return []
  | e :: es => do
    match e.asTarget? with
    | some t => return t :: (← targetsOf es)
    | none => fail

/-- An expression by itself, or the first part of an assignment. -/
def expressionStatement : Parser Node := do
  let start ← here
  let first ← starExpressions outermost
  let t ← peek
  if t.is ":" then
    let _ ← next
    match first.asSingleTarget? with
    | none => fail
    | some target =>
      let hint ← outermost .expression
      if ← accept "=" then
        let value ← yieldOrStarExpressions outermost
        node .annAssign start [target.as .target, hint.as .hint, value.as .value]
      else node .annAssign start [target.as .target, hint.as .hint]
  else if t.is "=" then
    let rest ← many do
      if ← accept "=" then return some (← yieldOrStarExpressions outermost) else return none
    match (first :: rest).reverse with
    | value :: targets =>
      let targets ← targetsOf targets.reverse
      node .assign start (targets.map (·.as .target) ++ [value.as .value])
    | [] => fail
  else if t.kind = .op && augmentedOperators.contains t.text then
    let _ ← next
    match first.asSingleTarget? with
    | none => fail
    | some target =>
      let value ← yieldOrStarExpressions outermost
      node .augAssign start [target.as .target, value.as .value]
  else node .exprStmt start [first.as .value]

def deleteStatement : Parser Node := do
  let start ← here
  expect "del"
  let item : Parser Node := do
    match (← outermost .primary).asDeleted? with
    | some t => return t
    | none => fail
  let first ← item
  let (rest, _) ← afterCommas startsExpression item
  unless (← sees ";") || (← peek).kind = .newline do fail
  node .deleteStmt start ((first :: rest).map (·.as .target))

def raiseStatement : Parser Node := do
  let start ← here
  expect "raise"
  if startsExpression (← peek) then
    let value ← outermost .expression
    if ← accept "from" then
      let cause ← outermost .expression
      node .raiseStmt start [value.as .exception, cause.as .cause]
    else node .raiseStmt start [value.as .exception]
  else node .raiseStmt start []

def assertStatement : Parser Node := do
  let start ← here
  expect "assert"
  let test ← outermost .expression
  if ← accept "," then
    let message ← outermost .expression
    node .assertStmt start [test.as .test, message.as .message]
  else node .assertStmt start [test.as .test]

/-- Names between commas. -/
def names : Parser (List String) := do
  let first ← nameText
  let rest ← many do
    if ← accept "," then return some (← nameText) else return none
  return first :: rest

/-- Names between dots, as one text. -/
def dotted : Parser String := do
  let first ← nameText
  let rest ← many do
    if ← accept "." then return some (← nameText) else return none
  return ".".intercalate (first :: rest)

def asName? : Parser (Option String) := do
  if ← accept "as" then return some (← nameText) else return none

def importStatement : Parser Node := do
  let start ← here
  expect "import"
  let item : Parser Node := do
    let start ← here
    let name ← dotted
    let asName ← asName?
    node (.importAlias name asName) start []
  let first ← item
  let rest ← many do
    if ← accept "," then return some (← item) else return none
  node .importStmt start ((first :: rest).map (·.as .importAlias))

def importedName : Parser Node := do
  let start ← here
  let name ← nameText
  let asName ← asName?
  node (.importAlias name asName) start []

/-- What is imported from a module: everything, names, or names in parentheses. -/
def importedNames : Parser (List Node) := do
  let start ← here
  if ← accept "*" then return [← node (.importAlias "*" none) start []]
  else if ← accept "(" then
    let first ← importedName
    let (rest, _) ← afterCommas (·.kind = .name) importedName
    expect ")"
    return first :: rest
  else
    let first ← importedName
    let rest ← many do
      if ← accept "," then return some (← importedName) else return none
    return first :: rest

def importFromStatement : Parser Node := do
  let start ← here
  expect "from"
  let dots ← many do
    if ← accept "." then return some 1
    else if ← accept "..." then return some 3
    else return none
  let level := dots.foldl (· + ·) 0
  let module ← if (← peek).kind = .name then dotted else if level = 0 then fail else pure ""
  expect "import"
  let aliases ← importedNames
  node (.importFrom module level) start (aliases.map (·.as .importAlias))

def wordStatement (kind : Kind) : Parser Node := do
  let start ← here
  let _ ← next
  node kind start []

def namesStatement (kind : List String → Kind) : Parser Node := do
  let start ← here
  let _ ← next
  let ns ← names
  node (kind ns) start []

def returnStatement : Parser Node := do
  let start ← here
  expect "return"
  if startsExpression (← peek) then
    let value ← starExpressions outermost
    node .returnStmt start [value.as .value]
  else node .returnStmt start []

def yieldStatement : Parser Node := do
  let start ← here
  let value ← yieldExpression outermost
  node .exprStmt start [value.as .value]

def simpleStatement : Parser Node := do
  let t ← peek
  if t.kind = .keyword then
    if t.text == "return" then returnStatement
    else if t.text == "import" then importStatement
    else if t.text == "from" then importFromStatement
    else if t.text == "raise" then raiseStatement
    else if t.text == "pass" then wordStatement .passStmt
    else if t.text == "del" then deleteStatement
    else if t.text == "yield" then yieldStatement
    else if t.text == "assert" then assertStatement
    else if t.text == "break" then wordStatement .breakStmt
    else if t.text == "continue" then wordStatement .continueStmt
    else if t.text == "global" then namesStatement .globalStmt
    else if t.text == "nonlocal" then namesStatement .nonlocalStmt
    else expressionStatement
  else expressionStatement

/-- The statements of one line. -/
def simpleStatements : Parser (List Node) := do
  let first ← simpleStatement
  let rest ← many do
    if (← sees ";") && (← peekSecond).kind ≠ .newline then
      expect ";"
      return some (← simpleStatement)
    else return none
  let _ ← accept ";"
  let _ ← expectKind .newline
  return first :: rest

/-! ### Compound statements

`block` is the parser of the statements under a header. -/

abbrev Block := Parser (List Node)

def headed (block : Block) : Block := do
  expect ":"
  block

def elsePart (block : Block) : Block := do
  if ← accept "else" then
    return (← headed block).map (·.as .orelse)
  else return []

/-- One header of a chain of conditions: where it starts, its test and its block. -/
structure Branch where
  start : Pos
  test : Node
  body : List Node

/-- A chain of conditions nests: each further condition is the other part of the one before. -/
def nestBranches (stop : Pos) : List Branch → List Node → List Node
  | [], orelse => orelse
  | b :: bs, orelse =>
    [.new .ifStmt ⟨b.start, stop⟩
      (b.test.as .test :: b.body.map (·.as .body) ++
        (nestBranches stop bs orelse).map (·.as .orelse))]

def branch (block : Block) (word : String) : Parser Branch := do
  let start ← here
  expect word
  let test ← namedExpression outermost
  let body ← headed block
  return ⟨start, test, body⟩

def furtherBranch (block : Block) : Parser (Option Branch) := do
  if ← sees "elif" then return some (← branch block "elif") else return none

/-- The branches of a chain of conditions, and what is left for the others. -/
def branches (block : Block) : Parser (List Branch × List Node) := do
  let first ← branch block "if"
  let rest ← many (furtherBranch block)
  let orelse ← elsePart block
  return (first :: rest, orelse)

def ifStatement (block : Block) : Parser Node := do
  let (bs, orelse) ← branches block
  match nestBranches (← get).last bs orelse with
  | n :: _ => return n
  | [] => fail

def whileStatement (block : Block) : Parser Node := do
  let start ← here
  expect "while"
  let test ← namedExpression outermost
  let body ← headed block
  let orelse ← elsePart block
  node .whileLoop start (test.as .test :: body.map (·.as .body) ++ orelse)

def forStatement (block : Block) (start : Pos) (isAsync : Bool) : Parser Node := do
  expect "for"
  let target ← starTargets outermost
  expect "in"
  let iter ← starExpressions outermost
  let body ← headed block
  let orelse ← elsePart block
  node (.forLoop isAsync) start
    (target.as .target :: iter.as .iter :: body.map (·.as .body) ++ orelse)

def withItem : Parser Node := do
  let start ← here
  let context ← outermost .expression
  if ← accept "as" then
    let target ← starTarget outermost
    unless (← sees ",") || (← sees ")") || (← sees ":") do fail
    node .withItem start [context.as .context, target.as .captured]
  else node .withItem start [context.as .context]

/-- Items between parentheses that a colon follows. -/
def enclosedItems : Parser (List Node) := do
  expect "("
  let first ← withItem
  let (rest, _) ← afterCommas startsExpression withItem
  expect ")"
  if ← sees ":" then return first :: rest else fail

def openItems : Parser (List Node) := do
  let first ← withItem
  let rest ← many do
    if ← accept "," then return some (← withItem) else return none
  return first :: rest

def withStatement (block : Block) (start : Pos) (isAsync : Bool) : Parser Node := do
  expect "with"
  let items ←
    match ← attempt enclosedItems with
    | some items => pure items
    | none => openItems
  let body ← headed block
  node (.withStmt isAsync) start (items.map (·.as .item) ++ body.map (·.as .body))

/-- A handler, and whether it handles exceptions of groups. -/
def exceptHandler (block : Block) : Parser (Bool × Node) := do
  let start ← here
  expect "except"
  let isGroup ← accept "*"
  if !isGroup && (← sees ":") then
    let body ← headed block
    return (false, ← node (.exceptHandler none) start (body.map (·.as .body)))
  else
    let type ← outermost .expression
    let name ← asName?
    let body ← headed block
    return (isGroup,
      ← node (.exceptHandler name) start (type.as .exception :: body.map (·.as .body)))

def finallyPart (block : Block) : Block := do
  if ← accept "finally" then
    return (← headed block).map (·.as .finalBody)
  else return []

def tryStatement (block : Block) : Parser Node := do
  let start ← here
  expect "try"
  let body ← headed block
  let handlers ← many do
    if ← sees "except" then return some (← exceptHandler block) else return none
  let isGroup := handlers.any (·.1)
  if isGroup && !handlers.all (·.1) then fail
  let orelse ← if handlers.isEmpty then pure [] else elsePart block
  let finalBody ← finallyPart block
  if handlers.isEmpty && finalBody.isEmpty then fail
  node (.tryStmt isGroup) start
    (body.map (·.as .body) ++ handlers.map (·.2.as .handler) ++ orelse ++ finalBody)

def functionStatement (block : Block) (start : Pos) (isAsync : Bool) (decorators : List Node) :
    Parser Node := do
  expect "def"
  let name ← identifier
  expect "("
  let args ← signature outermost ")" true
  expect ")"
  let returns ← if ← accept "->" then some <$> outermost .expression else pure none
  let body ← headed block
  node (.functionDef name isAsync) start
    (args.as .signature :: body.map (·.as .body) ++ decorators.map (·.as .decorator) ++
      (returns.map (·.as .returns)).toList)

def classStatement (block : Block) (decorators : List Node) : Parser Node := do
  let start ← here
  expect "class"
  let name ← identifier
  let (bases, keywords) ←
    if ← accept "(" then
      let args ← arguments outermost
      expect ")"
      pure args
    else pure ([], [])
  let body ← headed block
  node (.classDef name) start
    (bases.map (·.as .base) ++ keywords ++ body.map (·.as .body) ++
      decorators.map (·.as .decorator))

def decorator : Parser Node := do
  expect "@"
  let value ← namedExpression outermost
  let _ ← expectKind .newline
  return value

def decoratedStatement (block : Block) : Parser Node := do
  let decorators ← many do
    if ← sees "@" then return some (← decorator) else return none
  let start ← here
  if ← sees "class" then classStatement block decorators
  else if ← accept "async" then functionStatement block start true decorators
  else functionStatement block start false decorators

def asyncStatement (block : Block) : Parser Node := do
  let start ← here
  expect "async"
  if ← sees "def" then functionStatement block start true []
  else if ← sees "with" then withStatement block start true
  else forStatement block start true

def matchSubject : Parser Node := do
  let start ← here
  let isStarred ← sees "*"
  let first ← starNamedExpression outermost
  if ← sees "," then
    let (rest, _) ← afterCommas startsExpression (starNamedExpression outermost)
    node .tuple start ((first :: rest).map (·.as .element))
  else if isStarred then fail
  else return first

def matchCase (block : Block) : Parser Node := do
  let start ← here
  let _ ← next
  let p ← patterns
  let guard ← if ← accept "if" then some <$> namedExpression outermost else pure none
  let body ← headed block
  node .matchCase start
    (p.as .pattern :: (guard.map (·.as .guard)).toList ++ body.map (·.as .body))

def matchStatement (block : Block) : Parser Node := do
  let start ← here
  let _ ← next
  let subject ← matchSubject
  expect ":"
  let _ ← expectKind .newline
  let _ ← expectKind .indent
  let cases ← many do
    if ← seesWord "case" then return some (← matchCase block) else return none
  let _ ← expectKind .dedent
  if cases.isEmpty then fail
  node .matchStmt start (subject.as .subject :: cases.map (·.as .case))

/-- The statements that start here: one compound statement, or those of a line. A line that
starts with `match` is tried as a statement of that name first. -/
def statement (block : Block) : Parser (List Node) := do
  let t ← peek
  if t.is "if" then return [← ifStatement block]
  else if t.is "while" then return [← whileStatement block]
  else if t.is "for" then return [← forStatement block (← here) false]
  else if t.is "with" then return [← withStatement block (← here) false]
  else if t.is "try" then return [← tryStatement block]
  else if t.is "def" then return [← functionStatement block (← here) false []]
  else if t.is "class" then return [← classStatement block []]
  else if t.is "async" then return [← asyncStatement block]
  else if t.is "@" then return [← decoratedStatement block]
  else if ← seesWord "match" then
    match ← attempt (matchStatement block) with
    | some n => return [n]
    | none => simpleStatements
  else simpleStatements

def statementsUntil (closing : TokenKind) (block : Block) : Parser (List Node) := do
  let groups ← many do
    if (← peek).kind = closing then return none else return some (← statement block)
  return groups.flatten

/-- One level of blocks. -/
def blockRule (block : Block) : Block := do
  if (← peek).kind = .newline then
    let _ ← next
    let _ ← expectKind .indent
    let body ← statementsUntil .dedent block
    let _ ← expectKind .dedent
    if body.isEmpty then fail else return body
  else simpleStatements

/-- The statements under a header, with nesting bounded by a number. -/
def block : Nat → Block
  | 0 => throw .overflow
  | n + 1 => blockRule (block n)

/-- A whole file. -/
def file : Parser Node := do
  let body ← statementsUntil .stop (block maxDepth)
  node .module .start (body.map (·.as .body))

/-- An expression that stands alone. -/
def standalone : Parser Node := do
  let value ← starOrPlain
  let _ ← many do
    if (← peek).kind = .newline then return some (← next) else return none
  let _ ← expectKind .stop
  return value
where
  /-- Expressions with commas form a tuple; nothing is starred. -/
  starOrPlain : Parser Node := do
    let start ← here
    let first ← outermost .expression
    let (rest, trailing) ← afterCommas startsExpression (outermost .expression)
    if rest.isEmpty && !trailing then return first
    else node .tuple start ((first :: rest).map (·.as .element))

end EffectGraph.Grammar
