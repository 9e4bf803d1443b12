import Lox.Proofs.Run.Capped
import Lox.Proofs.Run.History
import Lox.Proofs.Stream.Segments

/-!
# Lines that are drawn

A program draws lines from the input by calls of two routines, and a host by asking for them itself.
Each draw takes one segment, whatever it comes to, and nothing else takes any (`runAll_draws`,
`evaluate_draws`).
-/

namespace Lox

open EStateM (Result)
open Input (segments)
open Trace (silent)

/-- Who asks for a line: the host, or a program for a text or for a number. -/
inductive Reader
  | host | text | number
  deriving DecidableEq

/-- What comes of asking for a line. -/
inductive Reply
  | line (line : Input.Line)
  | value (v : Value)
  | fault (cause : NativeFault)

/-- What each of those who ask is told of a line. -/
inductive Reader.Told : Reader → Input.Line → Reply → Prop
  | host (line : Input.Line) : Told .host line (.line line)
  | text (s : String) : Told .text (.text s) (.value (.string s))
  | noText : Told .text .ended (.value .nil)
  | textFault (cause : StreamFault) : Told .text (.fault cause) (.fault (.readFailed cause))
  | number {s : String} {t : List Char} {x : Float} (trimmed : Text.Trimmed s.toList t)
      (numeral : Number.ofNumeral? t = some x) : Told .number (.text s) (.value (.number x))
  | notNumeral {s : String} {t : List Char} (trimmed : Text.Trimmed s.toList t)
      (other : Number.ofNumeral? t = none) : Told .number (.text s) (.fault .notANumeral)
  | noNumber : Told .number .ended (.fault .notANumeral)
  | numberFault (cause : StreamFault) : Told .number (.fault cause) (.fault (.readFailed cause))

/-- A line that is drawn: who asks for it, the reply, and the input before and after. -/
structure Draw where
  reader : Reader
  before : List UInt8
  reply : Reply
  after : List UInt8

namespace Draw

def ofHost (m : Machine) : Draw := ⟨.host, m.input, .line m.readLine.1, m.readLine.2.input⟩

def ofRoutine (reader : Reader) (m : Machine) : Result NativeFault Machine Value → Draw
  | .ok v n => ⟨reader, m.input, .value v, n.input⟩
  | .error cause n => ⟨reader, m.input, .fault cause, n.input⟩

/-- The first segment is taken, and the reply is what there is to tell of it. -/
structure Fair (d : Draw) : Prop where
  takes : segments d.after = (segments d.before).tail
  told : ∃ line, Input.Holds (segments d.before).head? line ∧ d.reader.Told line d.reply

theorem ofHost_fair (m : Machine) : (ofHost m).Fair where
  takes := Input.segments_readLine m.input
  told := ⟨m.readLine.1, Input.readLine_holds m.input, .host _⟩

end Draw

/-- The routines that ask for a line, and what for. -/
def Native.reader? : Native → Option Reader
  | .read => some .text
  | .readNum => some .number
  | _ => none

/-- The line that is drawn at a moment, if it is a call of a routine that asks for one. -/
def Moment.draw? (k : Moment) : Option Draw :=
  match k.event with
  | .native op receiver arguments => op.reader?.map fun reader =>
    .ofRoutine reader k.machine (op.run receiver arguments k.machine)
  | _ => none

/-- The lines that are drawn at some moments. -/
def drawsOf (l : List Moment) : List Draw := l.filterMap Moment.draw?

/-! ### Draws in a row -/

/-- One draw after the other, from one input to what they leave of it. -/
inductive Draws : List UInt8 → List Draw → List UInt8 → Prop
  | nil (input : List UInt8) : Draws input [] input
  | cons {d : Draw} {ds : List Draw} {rest : List UInt8} (fair : d.Fair)
      (more : Draws d.after ds rest) : Draws d.before (d :: ds) rest

namespace Draws

variable {input rest last : List UInt8} {ds es : List Draw} {d : Draw}

theorem single (fair : d.Fair) : Draws d.before [d] d.after := .cons fair (.nil _)

theorem append (h : Draws input ds rest) (h' : Draws rest es last) : Draws input (ds ++ es) last := by
  induction h with
  | nil input => exact h'
  | cons fair more ih => exact .cons fair (ih h')

/-- As many segments are gone as lines were drawn. -/
theorem segments_rest (h : Draws input ds rest) : segments rest = (segments input).drop ds.length := by
  induction h with
  | nil input => rfl
  | cons fair more ih => rw [ih, fair.takes, List.drop_tail, List.length_cons]

theorem fair_getElem? (h : Draws input ds rest) {k : Nat} (kth : ds[k]? = some d) :
    d.Fair ∧ segments d.before = (segments input).drop k := by
  induction h generalizing k with
  | nil input => cases kth
  | cons fair more ih =>
    cases k with
    | zero =>
      cases kth
      exact ⟨fair, rfl⟩
    | succ k =>
      obtain ⟨fair', same⟩ := ih kth
      exact ⟨fair', by rw [same, fair.takes, List.drop_tail]⟩

end Draws

/-! ### Supplied routines -/

section Native

open Native Grammar

variable (receiver : Option ObjectId) (arguments : List Value) (m : Machine)

theorem readText_fair : (Draw.ofRoutine .text m (readText m)).Fair := by
  have holds := Input.readLine_holds m.input
  have takes := Input.segments_readLine m.input
  rw [readText, bind_of_ok (nextLine_run m)]
  generalize (Input.readLine m.input).1 = line at holds
  cases line with
  | text s => exact ⟨takes, _, holds, .text s⟩
  | ended => exact ⟨takes, _, holds, .noText⟩
  | fault cause => exact ⟨takes, _, holds, .textFault cause⟩

theorem readNumber_fair : (Draw.ofRoutine .number m (readNumber m)).Fair := by
  have holds := Input.readLine_holds m.input
  have takes := Input.segments_readLine m.input
  rw [readNumber, bind_of_ok (nextLine_run m)]
  generalize (Input.readLine m.input).1 = line at holds
  cases line with
  | text s =>
    have trimmed := Text.trimmed_trim s.toList
    dsimp only
    cases read : Number.ofNumeral? (Text.trim s.toList) with
    | some x => exact ⟨takes, _, holds, .number trimmed read⟩
    | none => exact ⟨takes, _, holds, .notNumeral trimmed read⟩
  | ended => exact ⟨takes, _, holds, .noNumber⟩
  | fault cause => exact ⟨takes, _, holds, .numberFault cause⟩

theorem run_fair {op : Native} {reader : Reader} (asks : op.reader? = some reader) :
    (Draw.ofRoutine reader m (op.run receiver arguments m)).Fair := by
  cases op with
  | read =>
    cases asks
    exact readText_fair m
  | readNum =>
    cases asks
    exact readNumber_fair m
  | clock | listInit | listGet | listSet | listAppend | listRemove | listPop => cases asks

/-- All other routines leave the input alone. -/
theorem run_input {op : Native} (other : op.reader? = none) :
    (final (op.run receiver arguments m)).input = m.input := by
  cases lists : op.ofLists with
  | false =>
    cases op with
    | clock => rfl
    | read | readNum => cases other
    | listInit | listGet | listSet | listAppend | listRemove | listPop => cases lists
  | true =>
    cases receiver with
    | none => rw [run_unbound lists arguments m]
    | some o =>
      obtain ⟨call, same⟩ := run_call lists arguments
      rw [same o m, (run_confined o call m).store]

theorem final_callNative (op : Native) (paren : Token) :
    final (callNative op receiver arguments paren m) = final (op.run receiver arguments m) := by
  unfold callNative
  cases op.run receiver arguments m <;> rfl

theorem callNative_draws (op : Native) (paren : Token) :
    Draws m.input (drawsOf (Trace.callNative op receiver arguments m))
      (final (callNative op receiver arguments paren m)).input := by
  rw [final_callNative]
  cases asks : op.reader? with
  | none =>
    have none : drawsOf (Trace.callNative op receiver arguments m) = [] := by
      simp [drawsOf, Trace.callNative, Trace.mark, silent, Moment.draw?, asks]
    rw [none, run_input receiver arguments m asks]
    exact .nil _
  | some reader =>
    have fair := run_fair receiver arguments m asks
    have one : drawsOf (Trace.callNative op receiver arguments m) =
        [Draw.ofRoutine reader m (op.run receiver arguments m)] := by
      simp [drawsOf, Trace.callNative, Trace.mark, silent, Moment.draw?, asks]
    rw [one]
    cases ran : op.run receiver arguments m with
    | ok v n | error cause n =>
      rw [ran] at fair
      exact .single fair

end Native

/-! ### Whatever runs -/

/-- The input is the same before and after. -/
def Unread (m n : Machine) : Prop := n.input = m.input

instance : Gradual Unread where
  refl _ := rfl
  trans h h' := h'.trans h
  within inner := inner
  identity _ := rfl
  print _ _ := rfl
  child _ _ := rfl
  put _ _ _ _ := rfl
  allocate _ := rfl
  setField _ _ _ _ := rfl

/-- The moments of a computation tell of all lines that it draws. -/
def drawing : Judgment where
  Strict := False
  World := Unit
  Later _ _ := True
  GoodEnv _ _ := True
  GoodFunction _ _ := True
  GoodNative _ _ _ := True
  GoodMethod _ _ := True
  GoodClass _ _ := True
  GoodInstance _ _ _ := True
  Does w x t Q := ∀ m, Draws m.input (drawsOf (t m)) (final (x m)).input ∧ Ends (x m) (Q w)

namespace Drawing

variable {α β : Type} {w : Unit} {x : Eval α} {t : Trace} {Q : Unit → α → Prop}

theorem good (v : Value) : drawing.Good w v := by
  cases v with
  | callable c => cases c <;> trivial
  | nil | bool | number | string | «instance» => trivial

theorem quiet (unread : Follows Unread x) (ends : ∀ m, Ends (x m) (Q w)) :
    drawing.Does w x silent Q := by
  refine fun m => ⟨?_, ends m⟩
  have same : (final (x m)).input = m.input := unread m
  rw [same]
  exact .nil _

theorem step (unread : Follows Unread x) (any : ∀ a, Q w a) : drawing.Does w x silent Q :=
  quiet unread fun _ a _ _ => any a

theorem value {x : Eval Value} (unread : Follows Unread x) : drawing.Does w x silent drawing.Good :=
  step unread good

theorem bind {f : α → Eval β} {next : α → Trace} {R : Unit → β → Prop} (first : drawing.Does w x t Q)
    (second : ∀ v a, True → Q v a → drawing.Does v (f a) (next a) R) :
    drawing.Does w (x >>= f) (t.bind x next) R := by
  intro m
  obtain ⟨draws, ends⟩ := first m
  cases ended : x m with
  | ok a n =>
    rw [ended] at draws
    obtain ⟨more, ends⟩ := second w a trivial (ends a n ended) n
    rw [Grammar.bind_of_ok ended, Trace.bind_of_ok ended, drawsOf, List.filterMap_append]
    exact ⟨draws.append more, ends⟩
  | error e n =>
    rw [ended] at draws
    rw [Grammar.bind_of_error ended, Trace.bind_of_error ended]
    exact ⟨draws, ends_error⟩

theorem mark {event : Act} (other : ∀ m, Moment.draw? ⟨event, m⟩ = none) (h : drawing.Does w x t Q) :
    drawing.Does w x (Trace.mark event t) Q := by
  intro m
  have same : drawsOf (Trace.mark event t m) = drawsOf (t m) := List.filterMap_cons_none (other m)
  rw [same]
  exact h m

theorem within (env : Env) (h : drawing.Does w x t Q) :
    drawing.Does w (Lox.within env x) (t.within env) Q := by
  intro m
  obtain ⟨draws, ends⟩ := h { m with env }
  rw [within_run]
  cases ended : x { m with env } with
  | ok a n =>
    rw [ended] at draws
    refine ⟨draws, fun b k same => ?_⟩
    cases same
    exact ends a n ended
  | error e n =>
    rw [ended] at draws
    exact ⟨draws, ends_error⟩

instance : Discipline drawing where
  refl _ := trivial
  trans _ _ := trivial
  proper := nofun
  laterFunction _ _ := trivial
  laterNative _ _ := trivial
  laterEnv _ _ := trivial
  laterClass _ _ := trivial
  laterInstance _ _ := trivial
  found _ _ := trivial
  pure {_ _ a _} good := quiet (.pure a) fun _ _ _ same => by
    cases same
    exact good _ trivial
  throw := quiet (.throw _) fun _ => ends_error
  bind := bind
  mark {_ _ _ _ _ event} good h := by
    refine mark (fun _ => ?_) h
    cases event with
    | output | native => exact good.elim
    | statement | expression | function | construct => rfl
  within _ h := within _ h
  lookUp _ id name := value (lookUp_follows id name)
  assignName id name _ _ := step (assignName_follows id name _) fun _ => trivial
  getProperty name _ := value (getProperty_follows _ _ name)
  setField o name _ := step (.modify fun _ => rfl) fun _ => trivial
  superMethod _ id keyword method := value (superMethod_follows id keyword method)
  define name _ _ := step (define_follows name.lexeme _) fun _ => trivial
  declareFunction _ d _ := step (declareFunction_follows d) fun _ => trivial
  blockEnv _ := step (.get fun _ => childEnv_follows _) fun _ => trivial
  methodEnv _ := step (methodEnv_follows _) fun _ => trivial
  makeClass name _ _ _ _ :=
    step (freshIdentity_follows.bind fun _ => assignClass_follows name _) fun _ => trivial
  callEnv _ := step (childEnv_follows _) fun _ => trivial
  defineIn name _ _ _ := step (defineIn_follows _ name.lexeme _) fun _ => trivial
  result _ _ := value (result_follows _ _)
  bindMethod _ _ := step (bindMethod_follows _ _ _) fun c => by cases c <;> trivial
  allocate _ := step (fun _ => rfl) fun _ => trivial
  callNative {_ op receiver arguments} paren _ _ m :=
    ⟨callNative_draws receiver arguments m op paren, fun v _ _ => good v⟩
  printLine _ text := mark (fun _ => rfl) (step (printLine_follows text) fun _ => trivial)

end Drawing

section Runs

variable (fuel : Nat) (m : Machine)

theorem runAll_draws (program : List Stmt) :
    Draws m.input (drawsOf (Trace.runAll fuel program m)) (final (runAll fuel program m)).input :=
  (Discipline.runAll_does (J := drawing) fuel (w := ()) program nofun m).1

theorem evaluate_draws (e : Expr) :
    Draws m.input (drawsOf (Trace.evaluate (invoke fuel) (Trace.invoke fuel) e m))
      (final (evaluate (invoke fuel) e m)).input :=
  (Discipline.evaluate_does (J := drawing) (Discipline.invoke_does fuel) (w := ()) e nofun m).1

end Runs

end Lox
