/-
Documents in TOML.

Statements are read one after another. Beside the table that is built, the
reader keeps what may not be touched again: tables that were opened by their
own header, and arrays and tables that were written inline, which are closed
with everything below them.
-/
import EffectGraph.Config.Setting
import EffectGraph.Text.CodeSet

namespace EffectGraph.Toml

/-- Why a document cannot be read. -/
inductive Fault where
  | malformed
  /-- A decimal integer with more digits than can be read. -/
  | integerTooLong
  deriving DecidableEq, Repr, Inhabited

abbrev Reader (α : Type) := StateT (List Char) (Except Fault) α

abbrev Key := List String

abbrev Entries := List (String × Setting)

def fail {α : Type} : Reader α := throw .malformed

/-- The next character. -/
def peek? : Reader (Option Char) := return (← get).head?

def skip (n : Nat) : Reader Unit := modify (List.drop n)

/-- Whether the rest starts with a text. -/
def sees (text : String) : Reader Bool := return text.toList.isPrefixOf (← get)

/-- Takes a text if the rest starts with it. -/
def accept (text : String) : Reader Bool := do
  if ← sees text then
    skip text.length
    return true
  else return false

def expect (text : String) : Reader Unit := do
  unless ← accept text do fail

/-- Takes characters as long as they satisfy a condition. -/
def takeWhile (p : Char → Bool) : Reader (List Char) := do
  let cs ← get
  set (cs.dropWhile p)
  return cs.takeWhile p

def skipWhile (p : Char → Bool) : Reader Unit := do
  let _ ← takeWhile p

def isBlank (c : Char) : Bool := c = ' ' || c = '\t'

def isBlankOrNewline (c : Char) : Bool := isBlank c || c = '\n'

def isControl (c : Char) : Bool := c.toNat < 32 || c.toNat = 127

/-- Characters that may not stand in texts on one line and in comments. -/
def isIllegal (c : Char) : Bool := isControl c && c ≠ '\t'

/-- Characters that may not stand in texts on several lines. -/
def isIllegalMultiline (c : Char) : Bool := isIllegal c && c ≠ '\n'

def isBareKeyChar (c : Char) : Bool := c.isAlphanum || c = '-' || c = '_'

def skipComment : Reader Unit := do
  if ← accept "#" then
    let text ← takeWhile (· ≠ '\n')
    if text.any isIllegal then fail

/-- Skips blanks, line ends and comments. Each comment ends a round, and takes a character. -/
def skipArraySpaceFor : Nat → Reader Unit
  | 0 => return
  | n + 1 => do
    skipWhile isBlankOrNewline
    if ← sees "#" then
      skipComment
      skipArraySpaceFor n

def skipArraySpace : Reader Unit := do
  skipArraySpaceFor ((← get).length + 1)

/-! ### Texts -/

/-- A character by its code in a number of digits. -/
def hexChar (width : Nat) : Reader (List Char) := do
  let digits := (← get).take width
  if digits.length ≠ width || digits.any (fun c => (Text.hexDigit? c).isNone) then fail
  skip width
  let code := Text.hexValue digits
  if h : code.isValidChar then return [Char.ofNatAux code h] else fail

/-- What follows a backslash. At the end of a line, in a text on several lines, the blanks and line
ends that follow are left out. -/
def escape (multiline : Bool) : Reader (List Char) := do
  match ← peek? with
  | none => fail
  | some c =>
    skip 1
    if multiline && isBlankOrNewline c then
      if c ≠ '\n' then
        skipWhile isBlank
        match ← peek? with
        | none => return []
        | some '\n' => skip 1
        | some _ => fail
      skipWhile isBlankOrNewline
      return []
    match c with
    | 'u' => hexChar 4
    | 'U' => hexChar 8
    | 'b' => return ['\x08']
    | 't' => return ['\t']
    | 'n' => return ['\n']
    | 'f' => return ['\x0c']
    | 'r' => return ['\r']
    | '"' => return ['"']
    | '\\' => return ['\\']
    | _ => fail

/-- The rest of a text in double quotes. Each round takes a character. -/
def basicTextFor (multiline : Bool) : Nat → List Char → Reader (List Char)
  | 0, _ => fail
  | n + 1, done => do
    match ← peek? with
    | none => fail
    | some '"' =>
      if !multiline then
        skip 1
        return done.reverse
      else if ← accept "\"\"\"" then return done.reverse
      else
        skip 1
        basicTextFor multiline n ('"' :: done)
    | some '\\' =>
      skip 1
      let cs ← escape multiline
      basicTextFor multiline n (cs.reverse ++ done)
    | some c =>
      if (if multiline then isIllegalMultiline c else isIllegal c) then fail
      skip 1
      basicTextFor multiline n (c :: done)

def basicText (multiline : Bool) : Reader (List Char) := do
  basicTextFor multiline ((← get).length + 1) []

/-- A text in single quotes, after the first one. -/
def literalText : Reader (List Char) := do
  let text ← takeWhile (· ≠ '\'')
  if text.any isIllegal then fail
  expect "'"
  return text

/-- The characters before three single quotes, which are taken. -/
def literalTextFor : Nat → List Char → Reader (List Char)
  | 0, _ => fail
  | n + 1, done => do
    if ← accept "'''" then return done.reverse
    match ← peek? with
    | none => fail
    | some c =>
      if isIllegalMultiline c then fail
      skip 1
      literalTextFor n (c :: done)

/-- Up to two quotes directly before the closing three belong to the text. -/
def extraQuotes (quote : Char) : Reader (List Char) := do
  let extra := ((← get).take 2).takeWhile (· = quote)
  skip extra.length
  return extra

def multilineText (quote : Char) : Reader (List Char) := do
  let _ ← accept "\n"
  let text ← if quote = '"' then basicText true else literalTextFor ((← get).length + 1) []
  return text ++ (← extraQuotes quote)

/-! ### Keys -/

def keyPart : Reader String := do
  match ← peek? with
  | some '"' =>
    skip 1
    return String.ofList (← basicText false)
  | some '\'' =>
    skip 1
    return String.ofList (← literalText)
  | some c =>
    if isBareKeyChar c then return String.ofList (← takeWhile isBareKeyChar) else fail
  | none => fail

def keyRestFor : Nat → Key → Reader Key
  | 0, _ => fail
  | n + 1, done => do
    skipWhile isBlank
    if ← accept "." then
      skipWhile isBlank
      keyRestFor n (done ++ [← keyPart])
    else return done

/-- A key: one or more parts with points between them. -/
def key : Reader Key := do
  keyRestFor ((← get).length + 1) [← keyPart]

/-! ### Numbers, days and times -/

/-- Digits at the front: one, and then more with single underscores between them. The value keeps
the digits only. -/
def digitGroupFor (isDigit : Char → Bool) : List Char → List Char × List Char
  | '_' :: c :: cs =>
    if isDigit c then
      let (ds, rest) := digitGroupFor isDigit cs
      (c :: ds, rest)
    else ([], '_' :: c :: cs)
  | c :: cs =>
    if isDigit c then
      let (ds, rest) := digitGroupFor isDigit cs
      (c :: ds, rest)
    else ([], c :: cs)
  | [] => ([], [])

/-- A group of digits, if there is one. -/
def digitGroup? (isDigit : Char → Bool) (cs : List Char) : Option (List Char × List Char) :=
  match cs with
  | c :: rest =>
    if isDigit c then
      let (ds, rest) := digitGroupFor isDigit rest
      some (c :: ds, rest)
    else none
  | [] => none

def digitValue (base : Nat) (ds : List Char) : Nat :=
  ds.foldl (fun n d => n * base + (Text.hexDigit? d).getD 0) 0

/-- A number of digits at the front. -/
def fixedDigits? (count : Nat) (cs : List Char) : Option (Nat × List Char) :=
  let ds := cs.take count
  if ds.length = count && ds.all Char.isDigit then some (digitValue 10 ds, cs.drop count) else none

/-- A character at the front. -/
def char? (c : Char) : List Char → Option (List Char)
  | d :: cs => if c = d then some cs else none
  | [] => none

/-- A fraction of a second in microseconds. Further digits are left out. -/
def microseconds (cs : List Char) : Nat × List Char :=
  match cs with
  | '.' :: rest =>
    let ds := rest.takeWhile Char.isDigit
    if ds.isEmpty then (0, cs)
    else
      let six := ds.take 6
      (digitValue 10 (six ++ List.replicate (6 - six.length) '0'), rest.drop ds.length)
  | _ => (0, cs)

def time? (cs : List Char) : Option (Time × List Char) := do
  let (hour, cs) ← fixedDigits? 2 cs
  let cs ← char? ':' cs
  let (minute, cs) ← fixedDigits? 2 cs
  let cs ← char? ':' cs
  let (second, cs) ← fixedDigits? 2 cs
  if hour < 24 && minute < 60 && second < 60 then
    let (microsecond, cs) := microseconds cs
    return (⟨hour, minute, second, microsecond⟩, cs)
  else none

def date? (cs : List Char) : Option (Date × List Char) := do
  let (year, cs) ← fixedDigits? 4 cs
  let cs ← char? '-' cs
  let (month, cs) ← fixedDigits? 2 cs
  let cs ← char? '-' cs
  let (day, cs) ← fixedDigits? 2 cs
  if 1 ≤ month && month ≤ 12 && 1 ≤ day && day ≤ 31 then return (⟨year, month, day⟩, cs) else none

/-- An offset from universal time in minutes. -/
def offset? (cs : List Char) : Option (Int × List Char) :=
  match cs with
  | c :: rest =>
    if c = 'Z' || c = 'z' then some (0, rest)
    else if c = '+' || c = '-' then do
      let (hour, cs) ← fixedDigits? 2 rest
      let cs ← char? ':' cs
      let (minute, cs) ← fixedDigits? 2 cs
      if hour < 24 && minute < 60 then
        let minutes : Int := hour * 60 + minute
        return (if c = '-' then -minutes else minutes, cs)
      else none
    else none
  | [] => none

/-- A day, and a time after it. -/
def dateTime? (cs : List Char) : Option (Date × Setting × List Char) := do
  let (day, cs) ← date? cs
  let timed : Option (Time × List Char) :=
    match cs with
    | c :: rest => if c = 'T' || c = 't' || c = ' ' then time? rest else none
    | [] => none
  match timed with
  | none => return (day, .date day, cs)
  | some (time, cs) =>
    match offset? cs with
    | some (o, cs) => return (day, .dateTime day time (some o), cs)
    | none => return (day, .dateTime day time none, cs)

/-- An integer in base 16, 8 or 2. -/
def prefixedInteger? (cs : List Char) : Option (Nat × List Char) :=
  match cs with
  | '0' :: mark :: rest =>
    let read (base : Nat) : Option (Nat × List Char) :=
      (digitGroup? (fun c => (Text.hexDigit? c).any (· < base)) rest).map
        fun (ds, rest) => (digitValue base ds, rest)
    match mark with
    | 'x' => read 16
    | 'o' => read 8
    | 'b' => read 2
    | _ => none
  | _ => none

/-- The digits after a point. -/
def fraction (cs : List Char) : List Char × List Char :=
  match cs with
  | '.' :: rest => (digitGroup? Char.isDigit rest).getD ([], cs)
  | _ => ([], cs)

/-- An exponent of 10. -/
def exponent? (cs : List Char) : Option (Int × List Char) :=
  match cs with
  | c :: rest =>
    if c = 'e' || c = 'E' then
      let (negative, rest) := match rest with
        | '-' :: more => (true, more)
        | '+' :: more => (false, more)
        | _ => (false, rest)
      (digitGroup? Char.isDigit rest).map fun (ds, rest) =>
        let n : Int := digitValue 10 ds
        (if negative then -n else n, rest)
    else none
  | [] => none

/-- The most digits that a decimal integer may have. -/
def maxDigits : Nat := 4300

/-- A number in base 10. -/
def decimal? (cs : List Char) : Option (Except Fault Setting × List Char) := do
  let (negative, cs) := match cs with
    | '-' :: rest => (true, rest)
    | '+' :: rest => (false, rest)
    | _ => (false, cs)
  let (whole, cs) ← match cs with
    | '0' :: rest => some (['0'], rest)
    | _ => digitGroup? Char.isDigit cs
  let (part, rest) := fraction cs
  let scaled := exponent? rest
  if part.isEmpty && scaled.isNone then
    if whole.length > maxDigits then return (.error .integerTooLong, rest)
    let n : Int := digitValue 10 whole
    return (.ok (.integer (if negative then -n else n)), rest)
  else
    let (e, rest) := scaled.getD (0, rest)
    let value : Text.Decimal := ⟨negative, digitValue 10 (whole ++ part), e - part.length⟩
    return (.ok (.real (.finite value)), rest)

/-- The special numbers. -/
def specialReals : List (String × Real) :=
  [("inf", .infinite false), ("nan", .nan), ("-inf", .infinite true), ("+inf", .infinite false),
   ("-nan", .nan), ("+nan", .nan)]

/-- A value that is neither a text nor a list nor a table nor true nor false. -/
def scalar : Reader Setting := do
  let cs ← get
  match dateTime? cs with
  | some (day, value, rest) =>
    if !day.isValid then fail
    set rest
    return value
  | none =>
    match time? cs with
    | some (time, rest) =>
      set rest
      return .time time
    | none =>
      match prefixedInteger? cs, decimal? cs with
      | some (n, rest), _ =>
        set rest
        return .integer n
      | none, some (number, rest) =>
        set rest
        liftM number
      | none, none =>
        match specialReals.find? fun (name, _) => name.toList.isPrefixOf cs with
        | some (name, value) =>
          skip name.length
          return .real value
        | none => fail

/-! ### Tables -/

/-- Changes the table at a key, going down through tables and, if `throughLists`, through the last
tables of lists. Tables that are missing are made; nothing else may stand in the way. -/
def updateAt (throughLists : Bool) (change : Entries → Option Entries) :
    Key → Entries → Option Entries
  | [], entries => change entries
  | k :: ks, entries =>
    match entries.lookup k with
    | none => do return entries ++ [(k, .table (← updateAt throughLists change ks []))]
    | some (.table inner) => do
      return replace entries k (.table (← updateAt throughLists change ks inner))
    | some (.list items) =>
      match items.getLast?, throughLists with
      | some (.table inner), true => do
        return replace entries k (.list (items.dropLast ++ [.table (← updateAt throughLists change ks inner)]))
      | _, _ => none
    | some _ => none
where
  replace (entries : Entries) (key : String) (value : Setting) : Entries :=
    entries.map fun e => if e.1 == key then (key, value) else e

/-- Adds an entry whose key is not there yet. -/
def addEntry (key : String) (value : Setting) (entries : Entries) : Option Entries :=
  if (entries.lookup key).isSome then none else some (entries ++ [(key, value)])

/-- Adds an empty table to the list at a key, which is made if it is missing. -/
def addToList (key : String) (entries : Entries) : Option Entries :=
  match entries.lookup key with
  | none => some (entries ++ [(key, .list [.table []])])
  | some (.list items) => some (updateAt.replace entries key (.list (items ++ [.table []])))
  | some _ => none

/-- What may not be touched: tables with a header of their own, and inline values, which are closed
with everything below them. -/
structure Guards where
  opened : List Key
  closed : List Key
  deriving Inhabited

namespace Guards

def isOpened (g : Guards) (k : Key) : Bool := g.opened.contains k

def isClosed (g : Guards) (k : Key) : Bool := g.closed.any (·.isPrefixOf k)

def «open» (g : Guards) (k : Key) : Guards := { g with opened := k :: g.opened }

def close (g : Guards) (k : Key) : Guards := { g with closed := k :: g.closed }

/-- Frees a key and everything below it. -/
def free (g : Guards) (k : Key) : Guards where
  opened := g.opened.filter (!k.isPrefixOf ·)
  closed := g.closed.filter (!k.isPrefixOf ·)

end Guards

def isContainer : Setting → Bool
  | .list _ | .table _ => true
  | _ => false

/-- A change of a table that may not be possible. -/
def attempt (entries : Option Entries) : Reader Entries :=
  match entries with
  | some e => return e
  | none => fail

/-! ### Values -/

mutual

/-- A value. The number bounds the values and entries that are still to come. -/
def value : Nat → Reader Setting
  | 0 => fail
  | n + 1 => do
    match ← peek? with
    | some '"' =>
      if ← accept "\"\"\"" then return .text (String.ofList (← multilineText '"'))
      skip 1
      return .text (String.ofList (← basicText false))
    | some '\'' =>
      if ← accept "'''" then return .text (String.ofList (← multilineText '\''))
      skip 1
      return .text (String.ofList (← literalText))
    | some '[' =>
      skip 1
      skipArraySpace
      if ← accept "]" then return .list []
      arrayItems n []
    | some '\x7b' =>
      skip 1
      skipWhile isBlank
      if ← accept "\x7d" then return .table []
      inlineEntries n [] ⟨[], []⟩
    | _ =>
      if ← accept "true" then return .bool true
      else if ← accept "false" then return .bool false
      else scalar

/-- The items of a list, after its bracket. -/
def arrayItems : Nat → List Setting → Reader Setting
  | 0, _ => fail
  | n + 1, done => do
    let item ← value n
    skipArraySpace
    if ← accept "]" then return .list (done ++ [item])
    expect ","
    skipArraySpace
    if ← accept "]" then return .list (done ++ [item])
    arrayItems n (done ++ [item])

/-- The entries of an inline table, after its brace. -/
def inlineEntries : Nat → Entries → Guards → Reader Setting
  | 0, _, _ => fail
  | n + 1, entries, guards => do
    let k ← key
    expect "="
    skipWhile isBlank
    let v ← value n
    if guards.isClosed k then fail
    let entries ← attempt (updateAt false (addEntry (k.getLastD "") v) k.dropLast entries)
    skipWhile isBlank
    if ← accept "\x7d" then return .table entries
    expect ","
    skipWhile isBlank
    inlineEntries n entries (if isContainer v then guards.close k else guards)

end

/-! ### Statements -/

/-- The document so far: its entries, what may not be touched, the tables that a point in a key
opened in this section, and the key of the section. -/
structure Document where
  entries : Entries
  guards : Guards
  pending : List Key
  header : Key
  deriving Inhabited

def Document.empty : Document := ⟨[], ⟨[], []⟩, [], []⟩

/-- At a header, the tables that points in keys opened are closed for headers. -/
def Document.settle (d : Document) : Document :=
  { d with guards := { d.guards with opened := d.pending ++ d.guards.opened }, pending := [] }

/-- `[key]` -/
def tableHeader (d : Document) : Reader Document := do
  expect "["
  skipWhile isBlank
  let k ← key
  if d.guards.isOpened k || d.guards.isClosed k then fail
  let entries ← attempt (updateAt true some k d.entries)
  expect "]"
  return { d with entries, guards := d.guards.open k, header := k }

/-- `[[key]]` -/
def listHeader (d : Document) : Reader Document := do
  expect "[["
  skipWhile isBlank
  let k ← key
  if d.guards.isClosed k then fail
  let entries ← attempt (updateAt true (addToList (k.getLastD "")) k.dropLast d.entries)
  expect "]]"
  return { d with entries, guards := (d.guards.free k).open k, header := k }

/-- `key = value` -/
def keyValue (d : Document) : Reader Document := do
  let k ← key
  expect "="
  skipWhile isBlank
  let v ← value ((← get).length + 1)
  let through := (List.range (k.length - 1)).map fun i => d.header ++ k.take (i + 1)
  if through.any d.guards.isOpened then fail
  let parent := d.header ++ k.dropLast
  if d.guards.isClosed parent then fail
  let entries ← attempt (updateAt true (addEntry (k.getLastD "") v) parent d.entries)
  return { d with
    entries
    guards := if isContainer v then d.guards.close (d.header ++ k) else d.guards
    pending := through ++ d.pending }

/-- One line: a statement, a comment or nothing. -/
def statement (d : Document) : Reader Document := do
  skipWhile isBlank
  let d ← match ← peek? with
    | some '[' => do
      let d := d.settle
      if ← sees "[[" then listHeader d else tableHeader d
    | some c =>
      if isBareKeyChar c || c = '"' || c = '\'' then keyValue d
      else if c = '#' || c = '\n' then pure d
      else fail
    | none => pure d
  skipWhile isBlank
  skipComment
  match ← peek? with
  | none => return d
  | some c =>
    if c = '\n' then
      skip 1
      return d
    else fail

def statements : Nat → Document → Reader Document
  | 0, _ => fail
  | n + 1, d => do
    if (← get).isEmpty then return d
    statements n (← statement d)

/-- The document with each carriage return before a line feed left out. -/
def joinLineEnds : List Char → List Char
  | '\r' :: '\n' :: cs => '\n' :: joinLineEnds cs
  | c :: cs => c :: joinLineEnds cs
  | [] => []

/-- The table that a document describes. -/
def parse (text : String) : Except Fault Entries := do
  let cs := joinLineEnds text.toList
  let (d, _) ← statements (cs.length + 1) .empty cs
  return d.entries

end EffectGraph.Toml
