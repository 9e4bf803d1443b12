import Lox.CommandLine

/-!
# The program

Hands the arguments, the files and the standard streams to `Lox.CommandLine` and shows its answers.
-/

namespace Lox.CommandLine

/-- Readings of the clock for one run, which move on by a microsecond each. -/
def clockFrom (start : Nat) (reading : Nat) : Float :=
  start.toFloat / 1000.0 + reading.toFloat / 1000000.0

def display (answer : Answer) : IO UInt32 := do
  let out ← IO.getStdout
  out.write ⟨answer.out⟩
  out.flush
  (← IO.getStderr).putStr answer.err
  return answer.code.toUInt32

def pathFault : IO.Error → PathFault
  | .noFileOrDirectory _ _ _ => .missing
  | .permissionDenied _ _ _ => .denied
  | .inappropriateType none _ _ => .folder
  | .inappropriateType (some _) _ _ => .notFolder
  | .invalidArgument _ _ "name too long" => .nameTooLong
  | e => .other (toString e)

def readFile (name : String) : IO (Except PathFault (List UInt8)) := do
  try return .ok (← IO.FS.readBinFile name).toList
  catch e => return .error (pathFault e)

/-- Runs line after line, and shows what each has to show. -/
partial def converse (p : Prompt) : IO UInt32 := do
  let (shown, p) := p.ask.flush
  let _ ← display shown
  let line? ← try some <$> (← IO.getStdin).getLine catch _ => pure none
  match line? with
  | none => display p.abort
  | some "" => display p.finish
  | some line => converse (p.feed (String.ofList (withoutNewline line.toList)))

/-- The file that a request reads, and whether its program is given the input. -/
def Request.source? : Request → Option (String × Bool)
  | .tokenize file _ => file.map (·, false)
  | .parse file => file.map (·, false)
  | .evaluate file => file.map (·, true)
  | .run file => file.map (·, true)
  | _ => none

def perform (request : Request) : IO UInt32 := do
  let clock := clockFrom (← IO.monoMsNow)
  match request, request.source? with
  | .repl, _ => converse ⟨Machine.start [] .unlimited clock, ""⟩
  | _, none => display (respond ⟨fun _ => .error .missing, [], clock⟩ request)
  | _, some (name, runs) =>
    let contents ← readFile name
    let text := (contents.toOption.bind Text.Utf8.text?).getD ""
    let input ←
      if runs && mentionsInput text then pure (← (← IO.getStdin).readBinToEnd).toList
      else pure []
    display (respond ⟨fun _ => contents, input, clock⟩ request)

end Lox.CommandLine

def main (args : List String) : IO UInt32 :=
  Lox.CommandLine.perform (.ofArguments args)
