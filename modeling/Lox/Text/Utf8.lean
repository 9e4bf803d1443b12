/-!
# UTF-8 with faults

Bytes from outside may not be UTF-8. `text?` accepts exactly well-formed text, `fault?` says where
the first fault lies, and `lossy` replaces each faulty stretch by U+FFFD. A stretch is the longest
start of a character that the bytes still allow.
-/

namespace Lox.Text.Utf8

/-- The text that the bytes encode, if they are well formed. -/
def text? (bytes : List UInt8) : Option String := String.fromUTF8? ⟨bytes.toArray⟩

def encode (s : String) : List UInt8 := s.toUTF8.toList

/-- What may follow a lead byte: the bounds of the second byte and the number of bytes after it. -/
structure Lead where
  /-- The bits of the code point that the lead byte holds. -/
  bits : Nat
  low : Nat
  high : Nat
  more : Nat

/-- The lead bytes of characters of two, three and four bytes. The bounds shut out overlong forms,
surrogates and code points above U+10FFFF. -/
def lead? (b : Nat) : Option Lead :=
  if 0xC2 ≤ b ∧ b ≤ 0xDF then some ⟨b % 32, 0x80, 0xBF, 0⟩
  else if b = 0xE0 then some ⟨0, 0xA0, 0xBF, 1⟩
  else if b = 0xED then some ⟨13, 0x80, 0x9F, 1⟩
  else if 0xE1 ≤ b ∧ b ≤ 0xEF then some ⟨b % 16, 0x80, 0xBF, 1⟩
  else if b = 0xF0 then some ⟨0, 0x90, 0xBF, 2⟩
  else if 0xF1 ≤ b ∧ b ≤ 0xF3 then some ⟨b % 8, 0x80, 0xBF, 2⟩
  else if b = 0xF4 then some ⟨4, 0x80, 0x8F, 2⟩
  else none

/-- What stands at a position; `extra` counts the bytes after the first. -/
inductive Piece
  | char (c : Char) (extra : Nat)
  /-- These bytes begin no character. -/
  | invalid (extra : Nat)
  /-- The bytes end inside a character. -/
  | incomplete
  deriving Repr

/-- Reads `more` continuation bytes, of which the first lies within the bounds. -/
def continuation (bits low high extra : Nat) : Nat → List UInt8 → Piece
  | 0, _ => .char (Char.ofNat bits) extra
  | _ + 1, [] => .incomplete
  | more + 1, b :: rest =>
    if low ≤ b.toNat ∧ b.toNat ≤ high then
      continuation (bits * 64 + b.toNat % 64) 0x80 0xBF (extra + 1) more rest
    else .invalid extra

def piece (first : UInt8) (rest : List UInt8) : Piece :=
  if first.toNat < 0x80 then .char (Char.ofNat first.toNat) 0
  else match lead? first.toNat with
    | some l => continuation l.bits l.low l.high 0 (l.more + 1) rest
    | none => .invalid 0

/-- Where the bytes stop being UTF-8, and how long the faulty stretch is; the length is missing if
the bytes end inside a character. -/
structure Fault where
  index : Nat
  length? : Option Nat
  deriving DecidableEq, Repr

/-- The first fault at or after `index`. -/
def faultFrom? (index : Nat) : List UInt8 → Option Fault
  | [] => none
  | b :: rest =>
    match piece b rest with
    | .char _ extra => faultFrom? (index + extra + 1) (rest.drop extra)
    | .invalid extra => some ⟨index, some (extra + 1)⟩
    | .incomplete => some ⟨index, none⟩
termination_by bytes => bytes.length
decreasing_by simp only [List.length_drop, List.length_cons]; omega

def fault? (bytes : List UInt8) : Option Fault := faultFrom? 0 bytes

/-- The text with U+FFFD for each faulty stretch. -/
def lossyChars : List UInt8 → List Char
  | [] => []
  | b :: rest =>
    match piece b rest with
    | .char c extra => c :: lossyChars (rest.drop extra)
    | .invalid extra => Char.ofNat 0xFFFD :: lossyChars (rest.drop extra)
    | .incomplete => [Char.ofNat 0xFFFD]
termination_by bytes => bytes.length
decreasing_by all_goals simp only [List.length_drop, List.length_cons]; omega

def lossy (bytes : List UInt8) : String := String.ofList (lossyChars bytes)

def Fault.message (f : Fault) : String :=
  match f.length? with
  | some length =>
    "invalid utf-8 sequence of " ++ toString length ++ " bytes from index " ++ toString f.index
  | none => "incomplete utf-8 byte sequence from index " ++ toString f.index

end Lox.Text.Utf8
