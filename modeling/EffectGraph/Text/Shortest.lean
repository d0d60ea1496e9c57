/-
Decimal numbers as texts of binary floating-point numbers.

A decimal is rounded to the nearest number with 53 binary digits, ties to even.
That number is written with the fewest decimal digits that are rounded back to
it, and among these with the nearest ones.
-/

namespace EffectGraph.Text

/-- The number `mantissa · 2 ^ exponent`. -/
structure Dyadic where
  mantissa : Nat
  exponent : Int
  deriving DecidableEq, Repr, Inhabited

/-- A non-negative fraction. -/
structure Fraction where
  num : Nat
  den : Nat
  deriving DecidableEq, Repr, Inhabited

namespace Fraction

/-- The fraction times a power of a base. -/
def scale (x : Fraction) (base : Nat) (exponent : Int) : Fraction :=
  if 0 ≤ exponent then ⟨x.num * base.pow exponent.toNat, x.den⟩
  else ⟨x.num, x.den * base.pow (-exponent).toNat⟩

def le (x y : Fraction) : Bool := x.num * y.den ≤ y.num * x.den

def lt (x y : Fraction) : Bool := x.num * y.den < y.num * x.den

def floor (x : Fraction) : Nat := x.num / x.den

/-- The nearest natural number, ties to even. -/
def round (x : Fraction) : Nat :=
  let q := x.num / x.den
  let twice := 2 * (x.num % x.den)
  if twice < x.den then q
  else if x.den < twice then q + 1
  else q + q % 2

/-- The distance of two fractions. -/
def distance (x y : Fraction) : Fraction :=
  ⟨max (x.num * y.den) (y.num * x.den) - min (x.num * y.den) (y.num * x.den), x.den * y.den⟩

/-- The nearest number with 53 binary digits, or with fewer if it is very small. None if it is too
large for an exponent of 11 binary digits. -/
def toDyadic? (x : Fraction) : Option Dyadic :=
  if x.num = 0 then some ⟨0, 0⟩
  else
    let guess : Int := (Nat.log2 x.num : Int) - Nat.log2 x.den - 52
    let exponent := if (x.scale 2 (-guess)).floor < Nat.pow 2 52 then guess - 1 else guess
    let exponent := max exponent (-1074)
    let mantissa := (x.scale 2 (-exponent)).round
    let d : Dyadic :=
      if mantissa = Nat.pow 2 53 then ⟨Nat.pow 2 52, exponent + 1⟩ else ⟨mantissa, exponent⟩
    if d.exponent > 971 then none else some d

end Fraction

namespace Dyadic

def toFraction (d : Dyadic) : Fraction := Fraction.scale ⟨d.mantissa, 1⟩ 2 d.exponent

/-- The fractions that are rounded to a number: from, to, and whether the ends count. -/
def interval (d : Dyadic) : Fraction × Fraction × Bool :=
  let below : Nat := if d.mantissa = Nat.pow 2 52 ∧ d.exponent > -1074 then 1 else 2
  (Fraction.scale ⟨4 * d.mantissa - below, 4⟩ 2 d.exponent,
    Fraction.scale ⟨4 * d.mantissa + 2, 4⟩ 2 d.exponent,
    d.mantissa % 2 = 0)

def holds (d : Dyadic) (x : Fraction) : Bool :=
  let (low, high, closed) := d.interval
  if closed then low.le x && x.le high else low.lt x && x.lt high

/-- The decimal exponent of a positive fraction: the number of digits before the point, or minus
the number of zeros after it. -/
def decimalPoint (x : Fraction) : Int :=
  let guess : Int := (Nat.toDigits 10 x.num).length - (Nat.toDigits 10 x.den).length
  if (x.scale 10 (-guess)).lt ⟨1, 1⟩ then guess else guess + 1

/-- With so many digits, the nearest decimal that is rounded to the number: its digits. -/
def digitsWith? (d : Dyadic) (point : Int) (count : Nat) : Option Nat :=
  let x := d.toFraction
  let unit := point - count
  let low := (x.scale 10 (-unit)).floor
  let value (n : Nat) : Fraction := Fraction.scale ⟨n, 1⟩ 10 unit
  let nearer := if ((value low).distance x).lt ((value (low + 1)).distance x) then [low, low + 1]
    else if ((value (low + 1)).distance x).lt ((value low).distance x) then [low + 1, low]
    else if low % 2 = 0 then [low, low + 1] else [low + 1, low]
  nearer.find? fun n => 0 < n && d.holds (value n)

/-- The fewest digits that are rounded to a number, and the place of the point before them. -/
def shortest (d : Dyadic) : List Char × Int :=
  if d.mantissa = 0 then (['0'], 1)
  else
    let point := decimalPoint d.toFraction
    let found := (List.range 17).findSome? fun i => (d.digitsWith? point (i + 1)).map (·, i + 1)
    match found with
    | some (n, count) =>
      let digits := Nat.toDigits 10 n
      let trimmed := (digits.reverse.dropWhile (· == '0')).reverse
      (trimmed, point + digits.length - count)
    | none => (['0'], 1)

/-- Written without an exponent if the point stands near the digits. -/
def toText (d : Dyadic) : List Char :=
  let (digits, point) := d.shortest
  let count : Int := digits.length
  if -4 < point && point ≤ 16 then
    if point ≤ 0 then ['0', '.'] ++ List.replicate (-point).toNat '0' ++ digits
    else if count ≤ point then digits ++ List.replicate (point - count).toNat '0' ++ ['.', '0']
    else digits.take point.toNat ++ '.' :: digits.drop point.toNat
  else
    let exponent := point - 1
    let shown := Nat.toDigits 10 exponent.natAbs
    let padded := List.replicate (2 - shown.length) '0' ++ shown
    digits.take 1 ++ (if digits.length > 1 then '.' :: digits.drop 1 else [])
      ++ ['e', if exponent < 0 then '-' else '+'] ++ padded

end Dyadic

/-- A decimal number as it is written: `digits · 10 ^ exponent` with a sign. -/
structure Decimal where
  negative : Bool
  digits : Nat
  exponent : Int
  deriving DecidableEq, Repr, Inhabited

namespace Decimal

/-- The nearest number with 53 binary digits. Exponents far out of range are not computed. -/
def toDyadic? (x : Decimal) : Option Dyadic :=
  let size : Int := (Nat.toDigits 10 x.digits).length + x.exponent
  if x.digits = 0 || size < -400 then some ⟨0, 0⟩
  else if size > 400 then none
  else (Fraction.scale ⟨x.digits, 1⟩ 10 x.exponent).toDyadic?

def toText (x : Decimal) : String :=
  let sign := if x.negative then ['-'] else []
  match x.toDyadic? with
  | some d => String.ofList (sign ++ d.toText)
  | none => String.ofList (sign ++ ['i', 'n', 'f'])

end Decimal

end EffectGraph.Text
