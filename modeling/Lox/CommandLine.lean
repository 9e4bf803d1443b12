import Lox.Path
import Lox.Session
import Lox.Text.Quoted
import Lox.Token.Dump
import Lox.Tree.Prefixed

/-!
# The command line

What each command answers, as a function of its arguments, of the files there are and of the input.
An answer is the text for both output streams and the exit code.
-/

namespace Lox.CommandLine

/-- What the arguments ask for. A command that reads a file may be missing its name. -/
inductive Request
  | tokenize (file : Option String) (json : Bool)
  | parse (file : Option String)
  | evaluate (file : Option String)
  | run (file : Option String)
  | repl
  | version
  | unusable
  deriving DecidableEq

/-- The number of calls and laps that no run gets through in a lifetime. -/
def ampleFuel : Nat := 1000000000000000

def versionText : String := "treelox 0.1.0"

/-! ### Arguments -/

structure Arguments where
  flags : List String
  names : List String

/-- Sorts arguments; after two dashes everything is a name. -/
def Arguments.ofList : List String → Arguments
  | [] => ⟨[], []⟩
  | "--" :: rest => ⟨[], rest⟩
  | a :: rest =>
    let more := Arguments.ofList rest
    if a.startsWith "-" && a != "-" then ⟨a :: more.flags, more.names⟩
    else ⟨more.flags, a :: more.names⟩

/-- The flag that every command takes. It changes nothing that a command answers. -/
def logFlag : String := "--log"

/-- Whether a command can work with its arguments: each flag is known and given once, and there is
at most one name, which is not empty. -/
def Arguments.acceptable (arguments : Arguments) (known : List String) : Bool :=
  arguments.flags.all known.contains && decide arguments.flags.Nodup
    && arguments.names.length ≤ 1 && !arguments.names.contains ""

def Request.ofCommand (command : String) (rest : List String) : Request :=
  let arguments := Arguments.ofList rest
  let known := if command == "tokenize" then ["--json", logFlag] else [logFlag]
  if !arguments.acceptable known then .unusable
  else
    let file := arguments.names.head?
    match command with
    | "tokenize" => .tokenize file (arguments.flags.contains "--json")
    | "parse" => .parse file
    | "evaluate" => .evaluate file
    | "run" => .run file
    | "repl" => if file.isNone then .repl else .unusable
    | _ => .unusable

/-- Whether an argument asks for the version. The first letter of a cluster decides. -/
def asksVersion (argument : String) : Bool := argument == "--version" || argument.startsWith "-V"

def Request.ofArguments : List String → Request
  | [] => .unusable
  | a :: rest =>
    if a == logFlag then if rest.head? == some logFlag then .unusable else Request.ofArguments rest
    else if asksVersion a then .version
    else Request.ofCommand a rest

/-! ### Answers -/

structure Answer where
  out : Array UInt8
  err : String
  code : Nat

def lines (texts : List String) : String := String.join (texts.map (· ++ "\n"))

def Answer.ofText (out err : String) (code : Nat) : Answer := ⟨out.toUTF8.data, err, code⟩

/-- The answer of a command that cannot go on, with the reason behind it. -/
def Answer.aborted (what cause : String) : Answer :=
  .ofText "" ("Error: " ++ what ++ "\n\nCaused by:\n    " ++ cause ++ "\n") 1

/-- What a command is given to work with: the bytes of a file or why there are none, the input,
and the readings of the clock. -/
structure Surroundings where
  contents : String → Except PathFault (List UInt8)
  input : List UInt8
  clock : Nat → Float

def Surroundings.machine (s : Surroundings) : Machine := Machine.start s.input .unlimited s.clock

/-- One token a line, the faults apart. -/
def tokenizeText (source : String) : Answer :=
  let (tokens, faults) := Lox.tokenize source
  .ofText (lines (tokens.map Token.display)) (lines (faults.map Diagnostic.text))
    (if faults.isEmpty then 0 else 65)

def tokenizeJson (source : String) : Answer :=
  let (tokens, faults) := Lox.tokenize source
  .ofText (lines [Token.dump tokens]) (lines (faults.map Diagnostic.text))
    (if faults.isEmpty then 0 else 65)

def parseText (source : String) : Answer :=
  match (compile source 0).result with
  | .ok program => .ofText (lines (program.map Stmt.prefixed)) "" 0
  | .error faults => .ofText "" (lines (faults.map Diagnostic.text)) 65

def evaluateText (s : Surroundings) (source : String) : Answer :=
  let (outcome, m) := s.machine.evaluate ampleFuel source
  let value :=
    match outcome with
    | .finished v => lines [v.text]
    | _ => ""
  ⟨m.sink.written ++ value.toUTF8.data, lines outcome.reports, outcome.code⟩

def runText (s : Surroundings) (source : String) : Answer :=
  let (outcome, m) := s.machine.run ampleFuel source
  ⟨m.sink.written, lines outcome.reports, outcome.code⟩

def withFile (s : Surroundings) (file : Option String) (command : String → Answer) : Answer :=
  match file with
  | none => .ofText (lines ["No input filepath was provided. Exiting..."]) "" 0
  | some name =>
    match s.contents name with
    | .error fault =>
      .aborted ("Failed to " ++ fault.action ++ " file " ++ Text.quoted name) fault.message
    | .ok bytes =>
      match Text.Utf8.text? bytes with
      | some source => command source
      | none =>
        .aborted ("File " ++ Text.quoted name ++ " is not valid UTF-8")
          (((Text.Utf8.fault? bytes).map Text.Utf8.Fault.message).getD "")

/-! ### The prompt -/

/-- What the prompt leaves behind: the machine of all lines so far, and their faults. -/
structure Prompt where
  machine : Machine
  err : String

def Prompt.write (p : Prompt) (text : String) : Prompt :=
  { p with machine := { p.machine with sink := (p.machine.sink.write text.toUTF8.data).2 } }

def Prompt.ask (p : Prompt) : Prompt := p.write "> "

/-- Runs a line; a fault does not end the session. -/
def Prompt.feed (p : Prompt) (line : String) : Prompt :=
  let (outcome, machine) := p.machine.run ampleFuel line
  ⟨machine, p.err ++ lines outcome.reports⟩

/-- A line without the newline at its end, or the carriage return and newline. -/
def withoutNewline (line : List Char) : List Char :=
  match line.reverse with
  | '\n' :: '\r' :: rest => rest.reverse
  | '\n' :: rest => rest.reverse
  | _ => line

def Prompt.finish (p : Prompt) : Answer := ⟨(p.write "\n").machine.sink.written, p.err, 0⟩

def Prompt.abort (p : Prompt) : Answer :=
  let last := Answer.aborted "Failed to read from stdin" StreamFault.invalidUtf8.message
  ⟨p.machine.sink.written, p.err ++ last.err, last.code⟩

/-- Feeds the input line by line; there are at most `fuel` lines. -/
def Prompt.converse : Nat → List UInt8 → Prompt → Answer
  | 0, _, p => p.finish
  | _ + 1, [], p => p.ask.finish
  | fuel + 1, input, p =>
    let (line, rest) := Input.splitLine input
    match Text.Utf8.text? line with
    | some text => converse fuel rest (p.ask.feed (String.ofList (withoutNewline text.toList)))
    | none => p.ask.abort

/-- The answer of the prompt to the whole input. Programs find no input of their own. -/
def replText (s : Surroundings) : Answer :=
  Prompt.converse (s.input.length + 1) s.input ⟨{ s with input := [] }.machine, ""⟩

/-- What there is to show so far, and the prompt once it has been shown. -/
def Prompt.flush (p : Prompt) : Answer × Prompt :=
  let sink := p.machine.sink
  (⟨sink.written, p.err, 0⟩, ⟨{ p.machine with sink := { sink with written := #[] } }, ""⟩)

/-! ### All commands -/

/-- Whether a program can ask for input: it has to name it. -/
def mentionsInput (source : String) : Bool :=
  (Lox.tokenize source).1.any fun t => t.kind == .identifier && t.lexeme == "input"

def usage : String :=
  lines
    ["error: the arguments make no command",
      "",
      "Usage: treelox [--log] <COMMAND>",
      "",
      "Commands: tokenize [FILE] [--json], parse [FILE], evaluate [FILE], run [FILE], repl"]

def respond (s : Surroundings) : Request → Answer
  | .tokenize file json => withFile s file (if json then tokenizeJson else tokenizeText)
  | .parse file => withFile s file parseText
  | .evaluate file => withFile s file (evaluateText s)
  | .run file => withFile s file (runText s)
  | .repl => replText s
  | .version => .ofText (lines [versionText]) "" 0
  | .unusable => .ofText "" usage 2

end Lox.CommandLine
