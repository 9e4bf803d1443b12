import Lox.Json
import Lox.Number.Layout
import Lox.Token

/-!
# Token dumps

A token on a line of its own, and the tokens of a text as JSON.
-/

namespace Lox

namespace Kind

/-- The value a literal carries, and `null` for every other kind. -/
def payload : Kind → String
  | .string text => text
  | .number x => Number.dumped x
  | _ => "null"

/-- The name alone, or with the value of a literal. -/
def json : Kind → Json
  | .string text => .object [("STRING", .string text)]
  | .number x => .object [("NUMBER", .plain (Number.json x))]
  | kind => .string kind.name

end Kind

namespace Token

/-- Name, text and value. -/
def display (t : Token) : String := t.kind.name ++ " " ++ t.lexeme ++ " " ++ t.kind.payload

def json (t : Token) : Json :=
  .object
    [("token_type", t.kind.json), ("lexeme", .string t.lexeme), ("line", .plain (toString t.line))]

def dump (tokens : List Token) : String := (Json.array (tokens.map json)).pretty

end Token

end Lox
