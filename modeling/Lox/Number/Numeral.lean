import Lox.Number.Shortest

/-!
# Numerals

Reading numbers. A numeral is digits with at most one point, at least one digit on either side of
it, and an optional exponent; the words `inf`, `infinity` and `nan` also stand for numbers, in any
case. The value is the double nearest to the exact decimal.
-/

namespace Lox.Number

def digitsValue (digits : List Char) : Nat :=
  digits.foldl (fun n c => 10 * n + (c.toNat - '0'.toNat)) 0

def infinity : Float := 1.0 / 0.0

def nan : Float := 0.0 / 0.0

/-- Beyond ten to this power every decimal is infinite, and below its inverse zero. -/
def reach : Nat := 400

namespace Decimal

/-- The digits before and after a point, times a power of ten. -/
def ofParts (whole fraction : List Char) (exponent : Int) : Decimal :=
  ⟨digitsValue (whole ++ fraction), exponent - fraction.length⟩

/-- The nearest double; of two, the one with an even mantissa. -/
def toFloat (d : Decimal) : Float :=
  let leading := d.exponent + (Nat.toDigits 10 d.digits).length
  if d.digits = 0 then 0.0
  else if reach < leading then infinity
  else if leading < -reach then 0.0
  else Float.ofScientific d.digits (d.exponent < 0) d.exponent.natAbs

end Decimal

/-- An optional sign: whether it was a minus, and what follows. -/
def splitSign : List Char → Bool × List Char
  | '-' :: rest => (true, rest)
  | '+' :: rest => (false, rest)
  | rest => (false, rest)

/-- Nothing, or `e` with an optionally signed string of digits. -/
def exponent? : List Char → Option Int
  | [] => some 0
  | c :: rest =>
    let (negative, digits) := splitSign rest
    if (c == 'e' || c == 'E') && !digits.isEmpty && digits.all Char.isDigit then
      some (if negative then -(digitsValue digits : Int) else digitsValue digits)
    else none

/-- The words for numbers that have no digits. -/
def word? (cs : List Char) : Option Float :=
  match String.ofList (cs.map Char.toLower) with
  | "inf" => some infinity
  | "infinity" => some infinity
  | "nan" => some nan
  | _ => none

def magnitude? (cs : List Char) : Option Float :=
  let whole := cs.takeWhile Char.isDigit
  let (fraction, rest) :=
    match cs.dropWhile Char.isDigit with
    | '.' :: rest => (rest.takeWhile Char.isDigit, rest.dropWhile Char.isDigit)
    | rest => ([], rest)
  if whole.isEmpty && fraction.isEmpty then word? cs
  else (exponent? rest).map fun e => (Decimal.ofParts whole fraction e).toFloat

/-- The number that a text denotes, if it is a numeral and nothing else. -/
def ofNumeral? (cs : List Char) : Option Float :=
  let (negative, rest) := splitSign cs
  (magnitude? rest).map fun x => if negative then -x else x

end Lox.Number
