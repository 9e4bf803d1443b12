import Lox.Number.Shortest

/-!
# Number texts

A number is written in positional notation, either with a given number of digits after the point
(`fixed`) or with the shortest digits that read back (`plain`). Values, trees and token dumps each
choose between the two on their own; token dumps take whole numbers within the 64 bits of an integer
for integers. Token dumps in JSON switch to an exponent outside `[1e-5, 1e16)`.
-/

namespace Lox.Number

def sign (negative : Bool) : String := if negative then "-" else ""

def zeros (count : Nat) : String := String.ofList (List.replicate count '0')

namespace Decimal

/-- The decimal without an exponent; digits after the point only if there are any. -/
def positional (d : Decimal) : String :=
  let digits := Nat.repr d.digits
  let places := (-d.exponent).toNat
  if 0 ≤ d.exponent then digits ++ zeros d.exponent.toNat
  else
    let padded := zeros (places + 1 - digits.length) ++ digits
    let whole := padded.length - places
    String.ofList (padded.toList.take whole) ++ "." ++ String.ofList (padded.toList.drop whole)

/-- One digit before the point, the exponent with its sign and no leading zero. -/
def scientific (d : Decimal) : String :=
  let digits := Nat.repr d.digits
  let exponent := d.exponent + (digits.length - 1 : Nat)
  let fraction := digits.toList.drop 1
  String.ofList (digits.toList.take 1)
    ++ (if fraction.isEmpty then "" else "." ++ String.ofList fraction)
    ++ (if exponent < 0 then "e-" else "e+") ++ Nat.repr exponent.natAbs

end Decimal

/-- A quotient rounded to the nearest integer, of two to the even one. -/
def nearest (num den : Nat) : Nat :=
  let floor := num / den
  let rest := num % den
  if den < 2 * rest ∨ (den = 2 * rest ∧ floor % 2 = 1) then floor + 1 else floor

/-- The text with this many digits after the point. -/
def fixed (places : Nat) (x : Float) : String :=
  match decode x with
  | .nan => "NaN"
  | .infinite negative => sign negative ++ "inf"
  | .finite negative mantissa exponent =>
    let num := mantissa * Nat.pow 2 exponent.toNat * Nat.pow 10 places
    let den := Nat.pow 2 (-exponent).toNat
    sign negative ++ (Decimal.mk (nearest num den) (-places)).positional

/-- The shortest text that reads back. -/
def plain (x : Float) : String :=
  match decode x with
  | .nan => "NaN"
  | .infinite negative => sign negative ++ "inf"
  | .finite negative mantissa exponent =>
    if mantissa = 0 then sign negative ++ "0"
    else sign negative ++ (shortest .up mantissa exponent).positional

/-- Whether nothing is left of a number without its integral part. -/
def isWhole (x : Float) : Bool := (toInt? x).isSome

/-- How a value is printed. -/
def printed (x : Float) : String := if isWhole x then fixed 0 x else plain x

/-- How a tree shows a literal. -/
def literal (x : Float) : String := if isWhole x then fixed 1 x else plain x

/-- The greatest integer of 64 bits, as a number. -/
def longBound : Float := Float.ofInt Int64.maxValue.toInt

/-- How a token dump shows a number: a whole one as an integer if it is within the bound. -/
def dumped (x : Float) : String :=
  if isWhole x ∧ x.abs < longBound then toString x.toModel.toInt64 ++ ".0"
  else if isWhole x then fixed 1 x
  else plain x

/-- The magnitude of a number in JSON: positional from `1e-5` to below `1e16`. -/
def Decimal.json (d : Decimal) : String :=
  let leading := d.exponent + (Nat.repr d.digits).length
  if leading ≤ -5 ∨ 16 < leading then d.scientific
  else if 0 ≤ d.exponent then d.positional ++ ".0"
  else d.positional

def json (x : Float) : String :=
  match decode x with
  | .nan => "null"
  | .infinite _ => "null"
  | .finite negative mantissa exponent =>
    if mantissa = 0 then sign negative ++ "0.0"
    else sign negative ++ (shortest .toEven mantissa exponent).json

end Lox.Number
