/-!
# Numbers as exact binary fractions

A finite double is `± mantissa · 2 ^ exponent`. `decode` reads the three fields of the bit pattern;
`Binary.whole?` is the integer that such a number equals, if it equals one.
-/

namespace Lox.Number

/-- What a double stands for. Zero keeps its sign. -/
inductive Binary
  | nan
  | infinite (negative : Bool)
  | finite (negative : Bool) (mantissa : Nat) (exponent : Int)
  deriving DecidableEq, Repr

/-- The exponent of the subnormal numbers, the least there is. -/
def leastExponent : Int := -1074

/-- The mantissa of a normal number has this bit set, the one after the 52 bits of fraction. -/
def hiddenBit : Nat := 0x10000000000000

/-- The fields of a 64-bit pattern: sign, 11 bits of exponent, 52 bits of fraction. -/
def decodeBits (bits : Nat) : Binary :=
  let negative := bits >>> 63 % 2 == 1
  let exponent := bits >>> 52 % 2048
  let fraction := bits % hiddenBit
  if exponent = 2047 then
    if fraction = 0 then .infinite negative else .nan
  else if exponent = 0 then .finite negative fraction leastExponent
  else .finite negative (hiddenBit + fraction) (leastExponent + (exponent - 1 : Nat))

def decode (x : Float) : Binary := decodeBits x.toBits.toNat

namespace Binary

/-- The natural number `mantissa · 2 ^ exponent`, if it is one. -/
def natural? (mantissa : Nat) (exponent : Int) : Option Nat :=
  let scale := Nat.pow 2 (-exponent).toNat
  if 0 ≤ exponent then some (mantissa * Nat.pow 2 exponent.toNat)
  else if mantissa % scale = 0 then some (mantissa / scale)
  else none

/-- Sign and magnitude of a number that is an integer. -/
def whole? : Binary → Option (Bool × Nat)
  | finite negative mantissa exponent => (natural? mantissa exponent).map (negative, ·)
  | _ => none

end Binary

/-- The integer that a number equals; both zeros equal 0. -/
def toInt? (x : Float) : Option Int :=
  (decode x).whole?.map fun (negative, n) => if negative then -(n : Int) else n

/-- The natural number that a number equals; the negative zero equals 0. -/
def toNat? (x : Float) : Option Nat := (toInt? x).bind Int.toNat?

end Lox.Number
