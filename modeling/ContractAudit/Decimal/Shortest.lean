import ContractAudit.Decimal.Binary64

/-!
# The shortest decimal text of a number

A double-precision number is written with the fewest digits that read back as the same number, and
with the nearest of those. Numbers are written positionally from 0.0001 up to, but not including,
ten to the sixteenth, and with an exponent of at least two digits otherwise.
-/

namespace ContractAudit.Decimal

/-- A fraction, compared by cross multiplication. -/
structure Fraction where
  numerator : Nat
  denominator : Nat

namespace Fraction

def lt (x y : Fraction) : Bool :=
  x.numerator * y.denominator < y.numerator * x.denominator

def timesTen (x : Fraction) (power : Int) : Fraction :=
  if 0 ≤ power then ⟨x.numerator * Nat.pow 10 power.toNat, x.denominator⟩
  else ⟨x.numerator, x.denominator * Nat.pow 10 (-power).toNat⟩

def ofBinary (mantissa : Nat) (exponent : Int) : Fraction :=
  if 0 ≤ exponent then ⟨mantissa * Nat.pow 2 exponent.toNat, 1⟩
  else ⟨mantissa, Nat.pow 2 (-exponent).toNat⟩

end Fraction

/-- The least power of ten, from zero up to a bound, that lifts a positive fraction to one or
more. -/
def liftToOne (x : Fraction) : Nat → Nat
  | 0 => 0
  | bound + 1 =>
      if x.denominator ≤ x.numerator then 0
      else liftToOne (x.timesTen 1) bound + 1

/-- The decimal exponent of a positive fraction: the power of ten of its first digit. -/
def leadingPower (x : Fraction) : Int :=
  if x.denominator ≤ x.numerator then
    (Nat.toDigits 10 (x.numerator / x.denominator)).length - 1
  else -(liftToOne x 400 : Int)

/-- The reals that a mantissa and an exponent stand for: the middle and the two ends of the interval
that rounds to it. -/
structure Rounding where
  middle : Fraction
  low : Fraction
  high : Fraction
  /-- Whether the ends belong to the interval. -/
  closed : Bool

/-- The interval of the reals that round to a positive number. Below a power of two the next number
is nearer. -/
def Rounding.of (mantissa : Nat) (exponent : Int) : Rounding where
  middle := .ofBinary mantissa exponent
  low :=
    if mantissa = Nat.pow 2 52 && Binary64.minExponent < exponent then
      .ofBinary (4 * mantissa - 1) (exponent - 2)
    else .ofBinary (2 * mantissa - 1) (exponent - 1)
  high := .ofBinary (2 * mantissa + 1) (exponent - 1)
  closed := mantissa % 2 = 0

def Rounding.holds (interval : Rounding) (x : Fraction) : Bool :=
  if interval.closed then !x.lt interval.low && !interval.high.lt x
  else interval.low.lt x && x.lt interval.high

/-- The nearer of the two neighbours, on the grid of a power of ten, that reads back. -/
def onGrid? (interval : Rounding) (power : Int) : Option Nat :=
  let scaled := interval.middle.timesTen (-power)
  let below := scaled.numerator / scaled.denominator
  let back := fun digits : Nat => (Fraction.mk digits 1).timesTen power
  let belowHolds := 0 < below && interval.holds (back below)
  let aboveHolds := interval.holds (back (below + 1))
  if belowHolds && aboveHolds then
    some (roundQuotient scaled.numerator scaled.denominator)
  else if belowHolds then some below
  else if aboveHolds then some (below + 1)
  else none

/-- The fewest digits that read back, with the power of ten of the last of them: grids are tried
from coarse to fine. -/
def shortestFrom (interval : Rounding) (power : Int) : Nat → Nat × Int
  | 0 => (0, power)
  | steps + 1 =>
      match onGrid? interval power with
      | some digits => (digits, power)
      | none => shortestFrom interval (power - 1) steps

/-- The fewest digits that read back as a positive number, with the power of ten of the last one. -/
def shortest (mantissa : Nat) (exponent : Int) : Nat × Int :=
  let interval := Rounding.of mantissa exponent
  shortestFrom interval (leadingPower interval.middle) 18

/-- Decimal digits without trailing zeros, or a single zero. -/
def trimZeros (digits : List Char) : List Char :=
  match (digits.reverse.dropWhile (· = '0')).reverse with
  | [] => ['0']
  | kept => kept

/-- Digits with a decimal point after the first `point` of them, with `.0` for an integer. -/
def positional (digits : List Char) (point : Int) : List Char :=
  if point ≤ 0 then '0' :: '.' :: (List.replicate (-point).toNat '0' ++ digits)
  else if digits.length ≤ point then
    digits ++ List.replicate (point.toNat - digits.length) '0' ++ ['.', '0']
  else digits.take point.toNat ++ '.' :: digits.drop point.toNat

def scientific (digits : List Char) (exponent : Int) : List Char :=
  let fraction := if digits.length ≤ 1 then [] else '.' :: digits.drop 1
  let size := Nat.toDigits 10 exponent.natAbs
  digits.take 1 ++ fraction ++ ['e', if exponent < 0 then '-' else '+'] ++
    (if size.length < 2 then '0' :: size else size)

def magnitude (mantissa : Nat) (exponent : Int) : List Char :=
  let (number, power) := shortest mantissa exponent
  let all := Nat.toDigits 10 number
  let point := power + all.length
  let digits := trimZeros all
  if -4 < point && point ≤ 16 then positional digits point else scientific digits (point - 1)

def Binary64.render : Binary64 → String
  | .notANumber => "nan"
  | .infinite negative => if negative then "-inf" else "inf"
  | .finite negative mantissa exponent =>
      (if negative then "-" else "") ++
        String.ofList (if mantissa = 0 then ['0', '.', '0'] else magnitude mantissa exponent)

end ContractAudit.Decimal
