import Lox.Fault
import Lox.Number.Numeral

/-!
# From text to tokens

`munch` takes the longest piece that can start where it stands: a token, something to skip or a
fault. What it takes and what it leaves make up the text again (`munch_text_append_rest`), and it
always takes something (`length_munch_rest_le`), so `scanFrom` ends. A piece stands on the line on
which it ends.
-/

namespace Lox

/-- What a stretch of text is. -/
inductive Piece
  | skip
  | token (kind : Kind)
  | fault (cause : LexicalFault)

/-- A piece with its text and what follows it. -/
structure Munch where
  piece : Piece
  text : List Char
  rest : List Char

/-- What scanning yields, in the order of the text. -/
inductive Scanned
  | token (t : Token)
  | fault (line : Nat) (cause : LexicalFault)

namespace Scan

/-- The marks that no other mark begins with. -/
def loneSymbol? : Char → Option Symbol
  | '(' => some .leftParen
  | ')' => some .rightParen
  | '{' => some .leftBrace
  | '}' => some .rightBrace
  | ',' => some .comma
  | '.' => some .dot
  | '-' => some .minus
  | '+' => some .plus
  | ';' => some .semicolon
  | '*' => some .star
  | _ => none

/-- The marks that an equals sign extends: alone, and with it. -/
def extensibleSymbol? : Char → Option (Symbol × Symbol)
  | '!' => some (.bang, .bangEqual)
  | '=' => some (.equal, .equalEqual)
  | '<' => some (.less, .lessEqual)
  | '>' => some (.greater, .greaterEqual)
  | _ => none

/-- Space, tab and the two line characters; no other blank is skipped. -/
def isBlank (c : Char) : Bool := c == ' ' || c == '\t' || c == '\r' || c == '\n'

/-- A letter of the English alphabet or an underscore. -/
def isWordStart (c : Char) : Bool := c.isAlpha || c == '_'

def isWordChar (c : Char) : Bool := c.isAlphanum || c == '_'

/-- Takes the characters up to the first that fails `p`, after those in `start`. -/
def take (start : List Char) (p : Char → Bool) (cs : List Char) (piece : List Char → Piece) :
    Munch :=
  let text := start ++ cs.takeWhile p
  ⟨piece text, text, cs.dropWhile p⟩

/-- A word is reserved or a name. -/
def wordKind (word : List Char) : Kind :=
  match Keyword.ofSpelling? (String.ofList word) with
  | some k => .keyword k
  | none => .identifier

/-- The number that digits with an optional fraction denote. -/
def numberValue (whole fraction : List Char) : Float :=
  (Number.Decimal.ofParts whole fraction 0).toFloat

/-- The digits of a number, and a fraction if a digit follows the point. -/
def munchNumber (cs : List Char) : Munch :=
  let whole := cs.takeWhile Char.isDigit
  match cs.dropWhile Char.isDigit with
  | '.' :: d :: rest =>
    if d.isDigit then
      let fraction := (d :: rest).takeWhile Char.isDigit
      ⟨.token (.number (numberValue whole fraction)), whole ++ '.' :: fraction,
        (d :: rest).dropWhile Char.isDigit⟩
    else ⟨.token (.number (numberValue whole [])), whole, '.' :: d :: rest⟩
  | rest => ⟨.token (.number (numberValue whole [])), whole, rest⟩

/-- A string after its opening quote: up to the closing one, or all there is. -/
def munchString (cs : List Char) : Munch :=
  let body := cs.takeWhile (· != '"')
  match cs.dropWhile (· != '"') with
  | [] => ⟨.fault .unterminatedString, '"' :: body, []⟩
  | quote :: rest => ⟨.token (.string (String.ofList body)), '"' :: (body ++ [quote]), rest⟩

def munch (c : Char) (cs : List Char) : Munch :=
  match loneSymbol? c, extensibleSymbol? c with
  | some s, _ => ⟨.token (.symbol s), [c], cs⟩
  | none, some (alone, extended) =>
    match cs with
    | '=' :: rest => ⟨.token (.symbol extended), [c, '='], rest⟩
    | _ => ⟨.token (.symbol alone), [c], cs⟩
  | none, none =>
    if c == '/' then
      match cs with
      | '/' :: rest => take ['/', '/'] (· != '\n') rest fun _ => .skip
      | _ => ⟨.token (.symbol .slash), ['/'], cs⟩
    else if c == '"' then munchString cs
    else if isBlank c then ⟨.skip, [c], cs⟩
    else if c.isDigit then munchNumber (c :: cs)
    else if isWordStart c then take [c] isWordChar cs fun word => .token (wordKind word)
    else ⟨.fault (.unexpectedCharacter c), [c], cs⟩

/-! ### Nothing is lost, and every step moves on -/

theorem take_text_append_rest (start : List Char) (p : Char → Bool) (cs : List Char)
    (piece : List Char → Piece) :
    (take start p cs piece).text ++ (take start p cs piece).rest = start ++ cs := by
  simp [take, List.takeWhile_append_dropWhile]

theorem munchNumber_text_append_rest (cs : List Char) :
    (munchNumber cs).text ++ (munchNumber cs).rest = cs := by
  have split := List.takeWhile_append_dropWhile (p := Char.isDigit) (l := cs)
  unfold munchNumber
  split
  · next d rest h =>
    split
    · have inner := List.takeWhile_append_dropWhile (p := Char.isDigit) (l := d :: rest)
      simp only [List.append_assoc, List.cons_append]
      rw [inner, ← h, split]
    · simp only
      rw [← h, split]
  · exact split

theorem munchString_text_append_rest (cs : List Char) :
    (munchString cs).text ++ (munchString cs).rest = '"' :: cs := by
  have split := List.takeWhile_append_dropWhile (p := (· != '"')) (l := cs)
  unfold munchString
  split
  · next h => rw [h] at split; simpa using split
  · next quote rest h => rw [h] at split; simpa using split

theorem munch_text_append_rest (c : Char) (cs : List Char) :
    (munch c cs).text ++ (munch c cs).rest = c :: cs := by
  unfold munch
  split
  · rfl
  · split <;> rfl
  · split
    · next h =>
      have hc : c = '/' := by simpa using h
      subst hc
      split
      · rw [take_text_append_rest]; rfl
      · rfl
    · split
      · next h =>
        have hc : c = '"' := by simpa using h
        subst hc
        exact munchString_text_append_rest cs
      · split
        · rfl
        · split
          · exact munchNumber_text_append_rest (c :: cs)
          · split
            · rw [take_text_append_rest]; rfl
            · rfl

theorem munchNumber_text_ne_nil (c : Char) (cs : List Char) (h : c.isDigit = true) :
    (munchNumber (c :: cs)).text ≠ [] := by
  have digits : (c :: cs).takeWhile Char.isDigit ≠ [] := by simp [h]
  unfold munchNumber
  split
  · split
    · exact fun none => digits (List.append_eq_nil_iff.1 none).1
    · exact digits
  · exact digits

theorem munch_text_ne_nil (c : Char) (cs : List Char) : (munch c cs).text ≠ [] := by
  unfold munch
  split
  · exact List.cons_ne_nil _ _
  · split <;> exact List.cons_ne_nil _ _
  · split
    · split <;> exact List.cons_ne_nil _ _
    · split
      · unfold munchString
        split <;> exact List.cons_ne_nil _ _
      · split
        · exact List.cons_ne_nil _ _
        · split
          · next h => exact munchNumber_text_ne_nil c cs h
          · split <;> exact List.cons_ne_nil _ _

theorem length_munch_rest_le (c : Char) (cs : List Char) :
    (munch c cs).rest.length ≤ cs.length := by
  have whole := congrArg List.length (munch_text_append_rest c cs)
  have some := List.length_pos_iff.2 (munch_text_ne_nil c cs)
  simp only [List.length_append, List.length_cons] at whole
  omega

/-- The pieces of a text that starts on `line`, without those to skip, and the end marker. -/
def scanFrom (line : Nat) : List Char → List Scanned
  | [] => [.token ⟨.eof, "", line⟩]
  | c :: cs =>
    let m := munch c cs
    let last := line + m.text.count '\n'
    match m.piece with
    | .skip => scanFrom last m.rest
    | .token kind => .token ⟨kind, String.ofList m.text, last⟩ :: scanFrom last m.rest
    | .fault cause => .fault last cause :: scanFrom last m.rest
termination_by cs => cs.length
decreasing_by all_goals exact Nat.lt_succ_of_le (length_munch_rest_le c cs)

end Scan

/-- Everything that a source text holds, in order, with the end marker last. -/
def scan (source : String) : List Scanned := Scan.scanFrom 1 source.toList

namespace Scanned

def token? : Scanned → Option Token
  | token t => some t
  | fault _ _ => none

def diagnostic? : Scanned → Option Diagnostic
  | token _ => none
  | fault line cause => some (.lexical line cause)

end Scanned

/-- The tokens of a source text and what is wrong with the rest. -/
def tokenize (source : String) : List Token × List Diagnostic :=
  ((scan source).filterMap Scanned.token?, (scan source).filterMap Scanned.diagnostic?)

end Lox
