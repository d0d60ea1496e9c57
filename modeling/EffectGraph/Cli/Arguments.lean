/-
The arguments of the command line.

Options may stand before and after the path. An option with a value takes the
next argument, whatever it looks like, or what follows an equals sign. Short
options can be joined. After `--` there are no options.
-/
import EffectGraph.Cli.Run

namespace EffectGraph.Cli

/-- The options that take a value. -/
inductive Key where
  | config
  | ignore
  | severity
  deriving DecidableEq, Repr

/-- The options that take none. -/
inductive Flag where
  | json
  | failOnImpure
  | failOnAsync
  | verbose
  | help
  | version
  deriving DecidableEq, Repr

/-- An option as it is spelled. -/
inductive Spelled where
  | key (key : Key)
  | flag (flag : Flag)
  deriving DecidableEq, Repr

/-- The spellings that a command knows: the long ones by name, the short ones by letter. -/
structure Vocabulary where
  long : List (String × Spelled)
  short : List (Char × Spelled)

/-- What stands before the command. -/
def Vocabulary.program : Vocabulary where
  long := [("--version", .flag .version), ("--help", .flag .help)]
  short := []

/-- What stands after the command. -/
def Vocabulary.analyze : Vocabulary where
  long := [("--config", .key .config), ("--ignore", .key .ignore), ("--severity", .key .severity),
    ("--json", .flag .json), ("--fail-on-impure", .flag .failOnImpure),
    ("--fail-on-async", .flag .failOnAsync), ("--verbose", .flag .verbose),
    ("--help", .flag .help)]
  short := [('i', .key .ignore), ('j', .flag .json), ('v', .flag .verbose)]

/-- Arguments, told apart. -/
structure Parsed where
  values : List (Key × String)
  flags : List Flag
  positional : List String
  deriving DecidableEq, Repr, Inhabited

namespace Parsed

def empty : Parsed := ⟨[], [], []⟩

def addValue (p : Parsed) (key : Key) (value : String) : Parsed :=
  { p with values := p.values ++ [(key, value)] }

def addFlag (p : Parsed) (flag : Flag) : Parsed := { p with flags := p.flags ++ [flag] }

def addPositional (p : Parsed) (args : List String) : Parsed :=
  { p with positional := p.positional ++ args }

def has (p : Parsed) (flag : Flag) : Bool := p.flags.contains flag

def valuesOf (p : Parsed) (key : Key) : List String :=
  p.values.filterMap fun (k, value) => if k = key then some value else none

end Parsed

/-- What joined short options say: flags, and at the end perhaps an option with what follows it as
its value. -/
def shortOptions (v : Vocabulary) : List Char → Option (List Flag × Option (Key × List Char))
  | [] => some ([], none)
  | c :: cs =>
    match v.short.lookup c with
    | none => none
    | some (.key key) => some ([], some (key, cs))
    | some (.flag flag) => (shortOptions v cs).map fun (flags, last) => (flag :: flags, last)

/-- A long option and what follows its first equals sign. -/
def longOption (arg : String) : String × Option String :=
  let name := arg.toList.takeWhile (· != '=')
  match arg.toList.drop name.length with
  | _ :: value => (String.ofList name, some (String.ofList value))
  | [] => (arg, none)

/-- Reads an option. An option that still needs a value gives its key. -/
def readOption (v : Vocabulary) (p : Parsed) (arg : String) : Option (Parsed × Option Key) :=
  let (name, value) := longOption arg
  match v.long.lookup name, value with
  | some (.key key), some value => some (p.addValue key value, none)
  | some (.key key), none => some (p, some key)
  | some (.flag flag), none => some (p.addFlag flag, none)
  | some (.flag _), some _ => none
  | none, _ =>
    if "--".toList.isPrefixOf arg.toList then none
    else
      match shortOptions v (arg.toList.drop 1) with
      | none => none
      | some (flags, last) =>
        let p := flags.foldl Parsed.addFlag p
        match last with
        | none => some (p, none)
        | some (key, []) => some (p, some key)
        | some (key, value) => some (p.addValue key (String.ofList value), none)

def isOption (arg : String) : Bool := arg.length > 1 && arg.toList.head? = some '-'

/-- Tells arguments apart. Where options may not stand after the first other argument
(`mixed = false`), that argument and all after it are taken as they are. -/
def readArguments (v : Vocabulary) (mixed : Bool) (p : Parsed) :
    List String → Option Key → Option Parsed
  | [], none => some p
  | [], some _ => none
  | arg :: args, some key => readArguments v mixed (p.addValue key arg) args none
  | arg :: args, none =>
    if arg = "--" then some (p.addPositional args)
    else if isOption arg then
      match readOption v p arg with
      | none => none
      | some (p, waiting) => readArguments v mixed p args waiting
    else if mixed then readArguments v mixed (p.addPositional [arg]) args none
    else some (p.addPositional (arg :: args))

/-- The arguments make no command. -/
def misused : Outcome := ⟨2, "", none⟩

def helped : Outcome := ⟨0, "Usage: callograph analyze [OPTIONS] [PATH]\n", none⟩

def analyzeCommand (args : List String) : Except Outcome Command :=
  match readArguments .analyze true .empty args none with
  | none => .error misused
  | some p =>
    if p.has .help then .error helped
    else if p.positional.length > 1 then .error misused
    else .ok <| .analyze
      { path := p.positional.head?.getD "."
        config := (p.valuesOf .config).getLast?
        ignore := p.valuesOf .ignore
        severity := (p.valuesOf .severity).getLast?
        json := p.has .json
        failOnImpure := p.has .failOnImpure
        failOnAsync := p.has .failOnAsync }

/-- The command that the arguments give, if they are well formed. -/
def commandOf (args : List String) : Except Outcome Command :=
  match readArguments .program false .empty args none with
  | none => .error misused
  | some p =>
    match p.flags.head? with
    | some .version => .ok .version
    | some _ => .error helped
    | none =>
      match p.positional with
      | "analyze" :: rest => analyzeCommand rest
      | _ => .error misused

end EffectGraph.Cli
