import Lox.Text.Hidden

/-!
# Quoted text

A text between double quotes, as messages show it: quotes and backslashes are escaped, and hidden
characters are spelled out, so that a reader sees every character.
-/

namespace Lox.Text

/-- A character spelled by its code point, in as few lower-case hexadecimal digits as it takes. -/
def spelled (c : Char) : List Char :=
  "\\u\x7b".toList ++ Nat.toDigits 16 c.toNat ++ "\x7d".toList

def shown (c : Char) : List Char :=
  match c with
  | '"' => ['\\', '"']
  | '\\' => ['\\', '\\']
  | '\n' => ['\\', 'n']
  | '\r' => ['\\', 'r']
  | '\t' => ['\\', 't']
  | c =>
    if c.toNat = 0 then ['\\', '0']
    else if isHidden c then spelled c
    else [c]

def quoted (s : String) : String := "\"" ++ String.ofList (s.toList.flatMap shown) ++ "\""

end Lox.Text
