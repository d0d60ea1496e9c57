/-
Values of settings, and how messages show them. A value that nests too deeply or
holds an integer of too many digits cannot be shown.
-/
import EffectGraph.Text.Quoted
import EffectGraph.Text.Shortest

namespace EffectGraph

/-- A number that need not be whole. -/
inductive Real where
  | finite (value : Text.Decimal)
  | infinite (negative : Bool)
  | nan
  deriving DecidableEq, Repr, Inhabited

structure Date where
  year : Nat
  month : Nat
  day : Nat
  deriving DecidableEq, Repr, Inhabited

structure Time where
  hour : Nat
  minute : Nat
  second : Nat
  microsecond : Nat
  deriving DecidableEq, Repr, Inhabited

/-- A value. The entries of a table keep the order in which they were written. -/
inductive Setting where
  | null
  | bool (value : Bool)
  | integer (value : Int)
  | real (value : Real)
  | text (value : String)
  | date (value : Date)
  | time (value : Time)
  /-- A day and a time, with the offset in minutes from universal time if it is known. -/
  | dateTime (day : Date) (clock : Time) (offset : Option Int)
  | list (items : List Setting)
  | table (entries : List (String × Setting))
  deriving Inhabited

def Real.shown : Real → String
  | finite value => value.toText
  | infinite negative => if negative then "-inf" else "inf"
  | nan => "nan"

namespace Date

/-- How many days a month has. -/
def daysIn (year month : Nat) : Nat :=
  if month = 2 then
    if year % 4 = 0 && (year % 100 != 0 || year % 400 = 0) then 29 else 28
  else if [4, 6, 9, 11].contains month then 30 else 31

/-- Whether there is such a day. Years start at 1. -/
def isValid (d : Date) : Bool :=
  0 < d.year && 0 < d.month && d.month ≤ 12 && 0 < d.day && d.day ≤ daysIn d.year d.month

def parts (d : Date) : List Nat := [d.year, d.month, d.day]

end Date

namespace Time

/-- The hour and the minute, and the seconds only if they are not all zero. -/
def parts (t : Time) : List Nat :=
  if t.microsecond ≠ 0 then [t.hour, t.minute, t.second, t.microsecond]
  else if t.second ≠ 0 then [t.hour, t.minute, t.second]
  else [t.hour, t.minute]

end Time

namespace Setting

def commaSeparated (parts : List String) : String := ", ".intercalate parts

def numbers (ns : List Nat) : String := commaSeparated (ns.map fun n => s!"{n}")

/-- An offset from universal time: whole days, which may be negative, and seconds. -/
def shownOffset (minutes : Int) : String :=
  if minutes = 0 then "datetime.timezone.utc"
  else
    let days := Int.fdiv minutes 1440
    let seconds := Int.fmod minutes 1440 * 60
    let parts := (if days = 0 then [] else [s!"days={days}"]) ++
      (if seconds = 0 then [] else [s!"seconds={seconds}"])
    s!"datetime.timezone(datetime.timedelta({commaSeparated parts}))"

/-- Why a value cannot be shown. -/
inductive Unshowable where
  /-- An integer has more digits than are written. -/
  | tooLong
  | tooDeep
  deriving DecidableEq, Repr, Inhabited

/-- The digits that an integer may have where it is shown. -/
def maxDigits : Nat := 4300

/-- The values around each other that can be shown. -/
def maxDepth : Nat := 985

def shownInteger (value : Int) : Except Unshowable String :=
  if (Nat.toDigits 10 value.natAbs).length > maxDigits then .error .tooLong else .ok s!"{value}"

mutual

/-- How messages show a value at a depth, from the first part on. -/
def shownWithin : Setting → Nat → Except Unshowable String
  | _, 0 => .error .tooDeep
  | null, _ + 1 => .ok "None"
  | bool value, _ + 1 => .ok (if value then "True" else "False")
  | integer value, _ + 1 => shownInteger value
  | real value, _ + 1 => .ok value.shown
  | text value, _ + 1 => .ok (Text.quoted value)
  | date value, _ + 1 => .ok s!"datetime.date({numbers value.parts})"
  | time value, _ + 1 => .ok s!"datetime.time({numbers value.parts})"
  | dateTime day clock offset, _ + 1 =>
    let zone := (offset.map fun o => [s!"tzinfo={shownOffset o}"]).getD []
    let parts := numbers (day.parts ++ clock.parts) :: zone
    .ok s!"datetime.datetime({commaSeparated parts})"
  | list items, n + 1 => do
    return "[" ++ commaSeparated (← shownItems items n) ++ "]"
  | table entries, n + 1 => do
    return "\x7b" ++ commaSeparated (← shownEntries entries n) ++ "\x7d"

def shownItems : List Setting → Nat → Except Unshowable (List String)
  | [], _ => .ok []
  | item :: items, n => do
    let first ← shownWithin item n
    return first :: (← shownItems items n)

def shownEntries : List (String × Setting) → Nat → Except Unshowable (List String)
  | [], _ => .ok []
  | (key, value) :: entries, n => do
    let first ← shownWithin value n
    return (Text.quoted key ++ ": " ++ first) :: (← shownEntries entries n)

end

/-- How messages show a value. -/
def shown (value : Setting) : Except Unshowable String := value.shownWithin maxDepth

/-- The value of a key of a table. -/
def get? (entries : List (String × Setting)) (key : String) : Option Setting :=
  entries.lookup key

end Setting

end EffectGraph
