import Lox.Fault
import Lox.Text.Utf8

/-!
# Input and output

Input is a string of bytes that is consumed line by line. Output goes to a sink that may be full
at some point and may refuse to flush.
-/

namespace Lox

namespace Input

/-- What asking for a line yields. -/
inductive Line
  | text (s : String)
  | fault (cause : StreamFault)
  | ended
  deriving DecidableEq

/-- The first line with its newline, and what follows it. -/
def splitLine : List UInt8 → List UInt8 × List UInt8
  | [] => ([], [])
  | b :: rest =>
    if b = 10 then ([b], rest)
    else
      let (line, rest) := splitLine rest
      (b :: line, rest)

theorem splitLine_append (bytes : List UInt8) :
    (splitLine bytes).1 ++ (splitLine bytes).2 = bytes := by
  induction bytes with
  | nil => rfl
  | cons b rest ih =>
    unfold splitLine
    split
    · rfl
    · simp [ih]

/-- The text without the newlines and carriage returns at its end. -/
def stripEnd (s : String) : String :=
  String.ofList (s.toList.reverse.dropWhile fun c => c == '\n' || c == '\r').reverse

/-- The text of a line that is not empty. -/
def decodeLine (line : List UInt8) : Line :=
  match Text.Utf8.text? line with
  | some s => .text (stripEnd s)
  | none => .fault .invalidUtf8

/-- The next line and the input after it. A line that is not UTF-8 is consumed all the same. -/
def readLine (input : List UInt8) : Line × List UInt8 :=
  match input with
  | [] => (.ended, [])
  | input => (decodeLine (splitLine input).1, (splitLine input).2)

end Input

/-- Takes bytes up to a limit, if there is one. -/
structure Sink where
  written : Array UInt8
  limit? : Option Nat
  failsFlush : Bool

namespace Sink

def unlimited : Sink := ⟨#[], none, false⟩

/-- Takes as many of the bytes as fit, and whether that is all of them. -/
def write (sink : Sink) (bytes : Array UInt8) : Bool × Sink :=
  match sink.limit? with
  | none => (true, { sink with written := sink.written ++ bytes })
  | some limit =>
    let room := limit - sink.written.size
    (bytes.size ≤ room, { sink with written := sink.written ++ bytes.take room })

end Sink

end Lox
