/-!
# Tokens

A token has a kind, the text it was written as and the line it ends on. Literal kinds carry what
they denote.
-/

namespace Lox

inductive Symbol
  | leftParen | rightParen | leftBrace | rightBrace | comma | dot | minus | plus | semicolon
  | slash | star | bang | bangEqual | equal | equalEqual | greater | greaterEqual | less | lessEqual
  deriving DecidableEq, Repr

inductive Keyword
  | and | break
  | class : Keyword
  | else | false | fun | for | if | nil | or | print | return | super | this | true | var | while
  deriving DecidableEq, Repr

/-- What a token is; strings and numbers carry their value. -/
inductive Kind
  | symbol (s : Symbol)
  | keyword (k : Keyword)
  | identifier
  | string (text : String)
  | number (value : Float)
  | eof
  deriving DecidableEq

structure Token where
  kind : Kind
  lexeme : String
  /-- The line the token ends on, counted from 1. -/
  line : Nat
  deriving DecidableEq

namespace Keyword

/-- Every reserved word once. -/
def all : List Keyword :=
  [.and, .break, .class, .else, .false, .fun, .for, .if, .nil, .or, .print, .return, .super, .this,
    .true, .var, .while]

def spelling : Keyword → String
  | .and => "and" | .break => "break" | .class => "class" | .else => "else" | .false => "false"
  | .fun => "fun" | .for => "for" | .if => "if" | .nil => "nil" | .or => "or" | .print => "print"
  | .return => "return" | .super => "super" | .this => "this" | .true => "true" | .var => "var"
  | .while => "while"

/-- The reserved word spelled `word`. -/
def ofSpelling? (word : String) : Option Keyword := all.find? (·.spelling == word)

def name : Keyword → String
  | .and => "AND" | .break => "BREAK" | .class => "CLASS" | .else => "ELSE" | .false => "FALSE"
  | .fun => "FUN" | .for => "FOR" | .if => "IF" | .nil => "NIL" | .or => "OR" | .print => "PRINT"
  | .return => "RETURN" | .super => "SUPER" | .this => "THIS" | .true => "TRUE" | .var => "VAR"
  | .while => "WHILE"

theorem mem_all (k : Keyword) : k ∈ all := by cases k <;> decide

theorem ofSpelling?_spelling (k : Keyword) : ofSpelling? k.spelling = some k := by
  cases k <;> decide

end Keyword

namespace Symbol

def name : Symbol → String
  | .leftParen => "LEFT_PAREN" | .rightParen => "RIGHT_PAREN" | .leftBrace => "LEFT_BRACE"
  | .rightBrace => "RIGHT_BRACE" | .comma => "COMMA" | .dot => "DOT" | .minus => "MINUS"
  | .plus => "PLUS" | .semicolon => "SEMICOLON" | .slash => "SLASH" | .star => "STAR"
  | .bang => "BANG" | .bangEqual => "BANG_EQUAL" | .equal => "EQUAL"
  | .equalEqual => "EQUAL_EQUAL" | .greater => "GREATER" | .greaterEqual => "GREATER_EQUAL"
  | .less => "LESS" | .lessEqual => "LESS_EQUAL"

/-- Every mark once. -/
def all : List Symbol :=
  [.leftParen, .rightParen, .leftBrace, .rightBrace, .comma, .dot, .minus, .plus, .semicolon,
    .slash, .star, .bang, .bangEqual, .equal, .equalEqual, .greater, .greaterEqual, .less,
    .lessEqual]

end Symbol

namespace Kind

/-- The name in a token dump, without the value a literal carries. -/
def name : Kind → String
  | .symbol s => s.name
  | .keyword k => k.name
  | .identifier => "IDENTIFIER"
  | .string _ => "STRING"
  | .number _ => "NUMBER"
  | .eof => "EOF"

/-- Same sort of token, whatever value a literal carries. -/
def sameSort : Kind → Kind → Bool
  | .symbol s, .symbol t => s == t
  | .keyword k, .keyword l => k == l
  | .identifier, .identifier => true
  | .string _, .string _ => true
  | .number _, .number _ => true
  | .eof, .eof => true
  | _, _ => false

end Kind

namespace Token

/-- Same sort, text and line; two literals may differ in the value they carry. -/
def agrees (t u : Token) : Bool :=
  t.kind.sameSort u.kind && t.lexeme == u.lexeme && t.line == u.line

/-- An identifier that no source text holds, for a name the language supplies itself. -/
def synthetic (name : String) (line : Nat) : Token := ⟨.identifier, name, line⟩

end Token

end Lox
