import Lox.Number.Binary

/-!
# Shortest decimal digits

`shortest` finds the fewest significant digits that read back as the same double and, of those, the
nearest to it. The points that read back form an interval: half the gap to each neighbour, ends
included when the mantissa is even. On a decimal grid that has a point in the interval, one of the
two grid points around the number itself is in it, so only those are tested.
-/

namespace Lox.Number

/-- Which way a decimal goes that lies halfway between two candidates. -/
inductive Tie
  | up | toEven
  deriving DecidableEq, Repr

structure Decimal where
  digits : Nat
  exponent : Int
  deriving DecidableEq, Repr

namespace Decimal

/-- Drops trailing zeros of the digits, at most `fuel` of them. -/
def dropZeros : Nat → Nat → Int → Decimal
  | 0, digits, exponent => ⟨digits, exponent⟩
  | fuel + 1, digits, exponent =>
    if digits ≠ 0 ∧ digits % 10 = 0 then dropZeros fuel (digits / 10) (exponent + 1)
    else ⟨digits, exponent⟩

def normalize (d : Decimal) : Decimal :=
  dropZeros (Nat.toDigits 10 d.digits).length d.digits d.exponent

end Decimal

/-- A positive number and the interval that reads back as it, over one denominator. -/
structure Target where
  low : Nat
  value : Nat
  high : Nat
  den : Nat
  /-- The ends belong to the interval. -/
  closed : Bool

namespace Target

/-- The interval of `mantissa · 2 ^ exponent`. Below a power of two the neighbours are twice as
close, unless the exponent is the least. -/
def ofBinary (mantissa : Nat) (exponent : Int) : Target :=
  let up := Nat.pow 2 exponent.toNat
  let down := Nat.pow 2 (-exponent).toNat
  let below := if mantissa = hiddenBit ∧ leastExponent < exponent then 1 else 2
  { low := (4 * mantissa - below) * up
    value := 4 * mantissa * up
    high := (4 * mantissa + 2) * up
    den := 4 * down
    closed := mantissa % 2 == 0 }

def contains (t : Target) (n d : Nat) : Bool :=
  if t.closed then t.low * d ≤ n * t.den ∧ n * t.den ≤ t.high * d
  else t.low * d < n * t.den ∧ n * t.den < t.high * d

/-- The exponent of the leading digit of a fraction below 1, as long as it is above `-fuel`. -/
def leadingBelowOne (num den : Nat) : Nat → Int
  | 0 => 0
  | fuel + 1 => if den ≤ num then 0 else leadingBelowOne (10 * num) den fuel - 1

/-- No double but zero is below ten to the power of minus this. -/
def lift : Nat := 350

def magnitude (t : Target) : Int :=
  if t.den ≤ t.value then ((Nat.toDigits 10 (t.value / t.den)).length : Int) - 1
  else leadingBelowOne t.value t.den lift

/-- The multiple of `10 ^ exponent` that reads back, the nearer if both neighbours do. -/
def onGrid? (t : Target) (tie : Tie) (exponent : Int) : Option Decimal :=
  let up := Nat.pow 10 exponent.toNat
  let down := Nat.pow 10 (-exponent).toNat
  let num := t.value * down
  let den := t.den * up
  let floor := num / den
  let rest := num % den
  let low := t.contains (floor * up) down
  let high := t.contains ((floor + 1) * up) down
  let chooseHigh :=
    high && (!low || 2 * rest > den || (2 * rest == den && (tie == .up || floor % 2 == 1)))
  if chooseHigh then some ⟨floor + 1, exponent⟩
  else if low then some ⟨floor, exponent⟩
  else none

/-- Tries ever finer grids, at most `fuel` of them. -/
def search (t : Target) (tie : Tie) : Nat → Int → Option Decimal
  | 0, _ => none
  | fuel + 1, exponent =>
    (t.onGrid? tie exponent).orElse fun _ => search t tie fuel (exponent - 1)

end Target

/-- Seventeen digits tell any two doubles apart. -/
def mostDigits : Nat := 17

/-- The fewest digits that read back as `mantissa · 2 ^ exponent`, for a positive mantissa. -/
def shortest (tie : Tie) (mantissa : Nat) (exponent : Int) : Decimal :=
  let t := Target.ofBinary mantissa exponent
  ((t.search tie mostDigits t.magnitude).getD ⟨0, 0⟩).normalize

end Lox.Number
