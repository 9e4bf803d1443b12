import Lox.Proofs.Grammar.Reading
import Lox.Proofs.Run.Deaf
import Lox.Proofs.Run.Discipline

/-!
# A sink with a limit

Against a run with a sink that takes everything, the same run with a limit on its sink either goes on
to the same end, or ends at the first print that does not fit, having come there in the same way
(`Cut`, `runAll_cut`).
-/

namespace Lox

open EStateM (Result)

/-! ### Printing -/

/-- A sink that takes everything. -/
structure Sink.Boundless (s : Sink) : Prop where
  limit : s.limit? = none
  flushes : s.failsFlush = false

/-- What a print hands to the sink. -/
def lineBytes (text : String) : Array UInt8 := (text ++ "\n").toUTF8.data

namespace Machine

/-- The same machine, whose sink takes no more than so many bytes in all. -/
def limited (limit : Nat) (m : Machine) : Machine :=
  m.withSink { m.sink with limit? := some limit }

def printed (m : Machine) (text : String) : Machine :=
  m.withSink { m.sink with written := m.sink.written ++ lineBytes text }

end Machine

def Moment.limited (limit : Nat) (k : Moment) : Moment := ⟨k.event, k.machine.limited limit⟩

theorem printLine_run (text : String) (m : Machine) : printLine text m =
    (if !(m.sink.write (lineBytes text)).1 then throw (.error (.stream .sinkFull)) else pure () :
      Eval Unit) (m.withSink (m.sink.write (lineBytes text)).2) := rfl

theorem printLine_boundless {m : Machine} (h : m.sink.limit? = none) (text : String) :
    printLine text m = .ok () (m.printed text) := by
  have taken : m.sink.write (lineBytes text) = (true, (m.printed text).sink) := by
    unfold Sink.write
    split
    · rfl
    · next limit is => cases h.symm.trans is
  rw [printLine_run, taken]
  rfl

section Limited

variable {limit : Nat} {m : Machine} {text : String}

theorem write_limited : (m.limited limit).sink.write (lineBytes text) =
    (decide ((lineBytes text).size ≤ limit - m.sink.written.size),
      { (m.limited limit).sink with
        written := m.sink.written ++ (lineBytes text).take (limit - m.sink.written.size) }) := rfl

theorem printLine_fits (fits : (m.printed text).sink.written.size ≤ limit) :
    printLine text (m.limited limit) = .ok () ((m.printed text).limited limit) := by
  have fits : m.sink.written.size + (lineBytes text).size ≤ limit := by
    rw [← Array.size_append]
    exact fits
  have room : (lineBytes text).size ≤ limit - m.sink.written.size := by omega
  have whole : (lineBytes text).take (limit - m.sink.written.size) = lineBytes text := by
    simp [Array.take, Array.extract_eq_self_of_le room]
  rw [printLine_run, write_limited, whole, decide_eq_true room]
  rfl

/-- The print at a machine is the first one that does not fit. -/
structure Overflows (limit : Nat) (k : Machine) (text : String) : Prop where
  boundless : k.sink.Boundless
  room : k.sink.written.size ≤ limit
  exceeds : limit < (k.printed text).sink.written.size

theorem printLine_overflows (h : Overflows limit m text) : printLine text (m.limited limit) =
    .error (.error (.stream .sinkFull)) (final (printLine text (m.limited limit))) := by
  have exceeds : limit < m.sink.written.size + (lineBytes text).size := by
    rw [← Array.size_append]
    exact h.exceeds
  have full : ¬ (lineBytes text).size ≤ limit - m.sink.written.size := by
    have := h.room
    omega
  rw [printLine_run, write_limited, decide_eq_false full]
  rfl

/-- The sink takes what fits, though. -/
theorem Overflows.written (h : Overflows limit m text) :
    (final (printLine text (m.limited limit))).sink.written.toList =
      (m.printed text).sink.written.toList.take limit := by
  have taken : (final (printLine text (m.limited limit))).sink.written =
      m.sink.written ++ (lineBytes text).take (limit - m.sink.written.size) := by
    rw [printLine_run, write_limited]
    split <;> rfl
  have room : m.sink.written.toList.length ≤ limit := h.room
  have printed : (m.printed text).sink.written.toList =
      m.sink.written.toList ++ (lineBytes text).toList := Array.toList_append
  rw [taken, printed, Array.toList_append, List.take_append, List.take_of_length_le room]
  simp

end Limited

/-! ### Two runs -/

def Moment.output (k : Moment) : List UInt8 :=
  match k.event with
  | .output text => (lineBytes text).toList
  | _ => []

/-- What is printed at some moments. -/
def outputOf (l : List Moment) : List UInt8 := l.flatMap Moment.output

/-- The sink has got what was printed, and still takes everything. -/
structure Outputs (m : Machine) (l : List Moment) (n : Machine) : Prop where
  boundless : n.sink.Boundless
  written : n.sink.written.toList = m.sink.written.toList ++ outputOf l

namespace Outputs

variable {m n o : Machine} {l k : List Moment}

theorem append (h : Outputs m l n) (h' : Outputs n k o) : Outputs m (l ++ k) o := by
  refine ⟨h'.boundless, ?_⟩
  rw [h'.written, h.written, List.append_assoc]
  exact congrArg _ List.flatMap_append.symm

theorem more (h : Outputs m l n) : m.sink.written.toList <+: n.sink.written.toList :=
  ⟨_, h.written.symm⟩

end Outputs

/-- What becomes with a limit of a computation with its moments. -/
inductive Cut (limit : Nat) {α : Type} (r : Result Halt Machine α) (l : List Moment) :
    Result Halt Machine α → List Moment → Prop
  /-- Everything fits. -/
  | through (fits : (final r).sink.written.size ≤ limit) :
      Cut limit r l (mapState (·.limited limit) r) (l.map (Moment.limited limit))
  /-- A print does not fit, and nothing happens after it. -/
  | stopped (before after : List Moment) {k : Machine} {text : String} {env : Env}
      (moments : l = before ++ ⟨.output text, k⟩ :: after) (overflows : Overflows limit k text)
      (kept : (k.printed text).sink.written.toList <+: (final r).sink.written.toList) :
      Cut limit r l
        (.error (.error (.stream .sinkFull))
          { final (printLine text (k.limited limit)) with env })
        ((before ++ [(⟨.output text, k⟩ : Moment)]).map (Moment.limited limit))

namespace Cut

variable {limit : Nat} {α β : Type} {r r' : Result Halt Machine α} {l l' : List Moment}

theorem mark (h : Cut limit r l r' l') (event : Act) (m : Machine) :
    Cut limit r (⟨event, m⟩ :: l) r' (⟨event, m.limited limit⟩ :: l') := by
  cases h with
  | through fits => exact .through fits
  | @stopped before after k text env moments overflows kept =>
    subst moments
    exact .stopped (⟨event, m⟩ :: before) after rfl overflows kept

theorem restore (h : Cut limit r l r' l') (env : Env) :
    Cut limit (mapState ({ · with env }) r) l (mapState ({ · with env }) r') l' := by
  cases h with
  | through fits =>
    cases r with
    | ok a n => exact .through fits
    | error e n => exact .through fits
  | stopped before after moments overflows kept =>
    cases r with
    | ok a n => exact .stopped before after moments overflows kept
    | error e n => exact .stopped before after moments overflows kept

/-- A computation after one that ended with a value. -/
theorem append {a : α} {n : Machine} {s : Result Halt Machine β} {k : List Moment}
    {x : Eval α} {f : α → Eval β} {next : α → Trace} {m : Machine} {t : Trace}
    (first : Cut limit (.ok a n) l (x m) (t m)) (more : Outputs n k (final s))
    (second : n.sink.written.size ≤ limit →
      Cut limit s k (f a (n.limited limit)) (next a (n.limited limit))) :
    Cut limit s (l ++ k) ((x >>= f) m) (t.bind x next m) := by
  generalize ended : x m = r' at first
  generalize traced : t m = l' at first
  cases first with
  | through fits =>
    rw [Grammar.bind_of_ok ended, Trace.bind_of_ok ended, traced]
    generalize f a (n.limited limit) = s' at second ⊢
    generalize next a (n.limited limit) = k' at second ⊢
    cases second fits with
    | through fits =>
      rw [← List.map_append]
      exact .through fits
    | @stopped before after o text env moments overflows kept =>
      rw [← List.map_append, ← List.append_assoc]
      refine .stopped _ after ?_ overflows kept
      rw [moments, List.append_assoc]
  | @stopped before after o text env moments overflows kept =>
    rw [Grammar.bind_of_error ended, Trace.bind_of_error ended, traced]
    refine .stopped before (after ++ k) ?_ overflows (kept.trans more.more)
    rw [moments, List.append_assoc, List.cons_append]

theorem broken {e : Halt} {n : Machine} {x : Eval α} {f : α → Eval β} {next : α → Trace}
    {m : Machine} {t : Trace} (h : Cut limit (.error e n : Result Halt Machine α) l (x m) (t m)) :
    Cut limit (.error e n : Result Halt Machine β) l ((x >>= f) m) (t.bind x next m) := by
  generalize ended : x m = r' at h
  generalize traced : t m = l' at h
  cases h with
  | through fits =>
    rw [Grammar.bind_of_error ended, Trace.bind_of_error ended, traced]
    exact .through fits
  | stopped before after moments overflows kept =>
    rw [Grammar.bind_of_error ended, Trace.bind_of_error ended, traced]
    exact .stopped before after moments overflows kept

theorem flushes (h : Cut limit r l r' l') (flushes : (final r).sink.failsFlush = false) :
    (final r').sink.failsFlush = false := by
  cases h with
  | through fits => cases r <;> exact flushes
  | @stopped before after k text env moments overflows kept =>
    show (final (printLine text (k.limited limit))).sink.failsFlush = false
    rw [printLine_run]
    split <;> exact overflows.boundless.flushes

end Cut

theorem within_run {α : Type} (env : Env) (x : Eval α) (m : Machine) :
    within env x m = mapState ({ · with env := m.env }) (x { m with env }) := by
  unfold within
  cases x { m with env } <;> rfl

theorem sink_restore {α : Type} (env : Env) (r : Result Halt Machine α) :
    (final (mapState ({ · with env }) r)).sink = (final r).sink := by
  cases r <;> rfl

/-- The value of a computation is as stated, if there is one. -/
def Ends {ε α : Type} (r : Result ε Machine α) (Q : α → Prop) : Prop := ∀ a n, r = .ok a n → Q a

theorem ends_error {ε α : Type} {e : ε} {m : Machine} {Q : α → Prop} : Ends (.error e m) Q := nofun

/-- With a limit on the sink, the computation does the same as far as there is room. -/
def capped (limit : Nat) : Judgment where
  Strict := False
  World := Unit
  Later _ _ := True
  GoodEnv _ _ := True
  GoodFunction _ _ := True
  GoodNative _ _ _ := True
  GoodMethod _ _ := True
  GoodClass _ _ := True
  GoodInstance _ _ _ := True
  Does w x t Q := ∀ m, m.sink.Boundless → Outputs m (t m) (final (x m)) ∧ Ends (x m) (Q w) ∧
    (m.sink.written.size ≤ limit →
      Cut limit (x m) (t m) (x (m.limited limit)) (t (m.limited limit)))

section Capped

variable {limit : Nat} {α β : Type} {w : Unit} {Q : Unit → α → Prop}

theorem Deaf.cut {x : Eval α} (deaf : Deaf x) (ends : ∀ m, Ends (x m) (Q w)) :
    (capped limit).Does w x Trace.silent Q := by
  intro m boundless
  have sink := deaf.sink_final m
  refine ⟨⟨sink ▸ boundless, sink ▸ (List.append_nil _).symm⟩, ends m, fun fits => ?_⟩
  have same : x (m.limited limit) = mapState (·.limited limit) (x m) := by
    rw [Machine.limited, deaf m]
    cases ended : x m with
    | ok a n | error e n =>
      rw [ended] at sink
      have sink : n.sink = m.sink := sink
      rw [mapState, mapState, Machine.limited, sink]
  rw [same]
  exact .through (sink ▸ fits)

theorem capped_good (v : Value) : (capped limit).Good w v := by
  cases v with
  | callable c => cases c <;> trivial
  | nil | bool | number | string | «instance» => trivial

theorem Deaf.capped {x : Eval α} (deaf : Deaf x) (any : ∀ a, Q w a) :
    (capped limit).Does w x Trace.silent Q :=
  deaf.cut fun _ a _ _ => any a

theorem Deaf.cappedValue {x : Eval Value} (deaf : Deaf x) :
    (Lox.capped limit).Does w x Trace.silent (Lox.capped limit).Good :=
  deaf.capped capped_good

theorem capped_bind {x : Eval α} {f : α → Eval β} {t : Trace} {next : α → Trace}
    {R : Unit → β → Prop} (first : (capped limit).Does w x t Q)
    (second : ∀ v a, True → Q v a → (capped limit).Does v (f a) (next a) R) :
    (capped limit).Does w (x >>= f) (t.bind x next) R := by
  intro m boundless
  obtain ⟨more, ends, cut⟩ := first m boundless
  cases ended : x m with
  | ok a n =>
    rw [ended] at more cut
    obtain ⟨further, ends, last⟩ := second w a trivial (ends a n ended) n more.boundless
    rw [Grammar.bind_of_ok ended, Trace.bind_of_ok ended]
    exact ⟨more.append further, ends, fun fits => (cut fits).append further last⟩
  | error e n =>
    rw [ended] at more cut
    rw [Grammar.bind_of_error ended, Trace.bind_of_error ended]
    exact ⟨more, ends_error, fun fits => (cut fits).broken⟩

theorem capped_within {x : Eval α} {t : Trace} (env : Env) (h : (capped limit).Does w x t Q) :
    (capped limit).Does w (within env x) (t.within env) Q := by
  intro m boundless
  obtain ⟨more, ends, cut⟩ := h { m with env } boundless
  rw [within_run]
  refine ⟨⟨?_, ?_⟩, ?_, fun fits => ?_⟩
  · rw [sink_restore]
    exact more.boundless
  · rw [sink_restore]
    exact more.written
  · intro a n ended
    cases inner : x { m with env } with
    | ok a k =>
      rw [inner] at ended
      cases ended
      exact ends a k inner
    | error e k =>
      rw [inner] at ended
      cases ended
  · rw [within_run]
    exact (cut fits).restore m.env

theorem capped_printLine (text : String) :
    (capped limit).Does w (printLine text) (Trace.mark (.output text) Trace.silent)
      (capped limit).AnyValue := by
  intro m boundless
  rw [printLine_boundless boundless.limit]
  have written : (m.printed text).sink.written.toList =
      m.sink.written.toList ++ outputOf [⟨.output text, m⟩] := by
    rw [outputOf, List.flatMap_singleton]
    exact Array.toList_append
  refine ⟨⟨⟨boundless.limit, boundless.flushes⟩, written⟩, fun _ _ _ => trivial, fun room => ?_⟩
  by_cases fits : (m.printed text).sink.written.size ≤ limit
  · rw [printLine_fits fits]
    exact .through fits
  · have overflows : Overflows limit m text := ⟨boundless, room, Nat.lt_of_not_le fits⟩
    rw [printLine_overflows overflows]
    have kept : (m.printed text).sink.written.toList <+:
        (final (.ok () (m.printed text) : Result Halt Machine Unit)).sink.written.toList :=
      List.prefix_refl _
    have restored : { final (printLine text (m.limited limit)) with env := m.env } =
        final (printLine text (m.limited limit)) := by
      rw [printLine_run]
      split <;> rfl
    rw [← restored]
    exact .stopped [] [] rfl overflows kept

theorem capped_mark {x : Eval α} {t : Trace} {event : Act}
    (silent : ∀ m, Moment.output ⟨event, m⟩ = []) (h : (capped limit).Does w x t Q) :
    (capped limit).Does w x (Trace.mark event t) Q := by
  intro m boundless
  obtain ⟨more, ends, cut⟩ := h m boundless
  have output : outputOf (Trace.mark event t m) = outputOf (t m) := by
    rw [Trace.mark, outputOf, List.flatMap_cons, silent]
    rfl
  exact ⟨⟨more.boundless, output ▸ more.written⟩, ends, fun fits => (cut fits).mark event m⟩

instance : Discipline (capped limit) where
  refl _ := trivial
  trans _ _ := trivial
  proper := nofun
  laterFunction _ _ := trivial
  laterNative _ _ := trivial
  laterEnv _ _ := trivial
  laterClass _ _ := trivial
  laterInstance _ _ := trivial
  found _ _ := trivial
  pure good := (Deaf.pure _).cut fun _ _ _ same => by
    cases same
    exact good _ trivial
  throw := (Deaf.throw _).cut fun _ => ends_error
  bind := capped_bind
  mark {_ _ _ _ _ event} good h := by
    refine capped_mark (fun _ => ?_) h
    cases event with
    | output | native => exact good.elim
    | statement | expression | function | construct => rfl
  within _ h := capped_within _ h
  lookUp _ id name := (Deaf.lookUp id name).cappedValue
  assignName id name _ _ := (Deaf.assignName id name _).capped fun _ => trivial
  getProperty name _ := (Deaf.getProperty _ _ name).cappedValue
  setField o name _ := Deaf.capped (Deaf.modify fun _ _ => rfl) fun _ => trivial
  superMethod _ id keyword method := (Deaf.superMethod id keyword method).cappedValue
  define name _ _ := (Deaf.define name.lexeme _).capped fun _ => trivial
  declareFunction _ d _ := (Deaf.declareFunction d).capped fun _ => trivial
  blockEnv _ := Deaf.capped (Deaf.get (fun _ _ => rfl) fun _ => Deaf.childEnv _) fun _ => trivial
  methodEnv _ := (Deaf.methodEnv _).capped fun _ => trivial
  makeClass name methods _ _ _ :=
    (Deaf.freshIdentity.bind fun _ => Deaf.assignClass name _).capped fun _ => trivial
  callEnv _ := (Deaf.childEnv _).capped fun _ => trivial
  defineIn name _ _ _ := (Deaf.defineIn _ name.lexeme _).capped fun _ => trivial
  result _ _ := (Deaf.result _ _).cappedValue
  bindMethod _ _ := (Deaf.bindMethod _ _ _).capped fun c => by cases c <;> trivial
  allocate _ := Deaf.capped (fun _ _ => rfl) fun _ => trivial
  callNative paren _ _ := capped_mark (fun _ => rfl) (Deaf.callNative _ _ _ paren).cappedValue
  printLine _ text := capped_printLine text

/-- What a program does with a limit on the sink, against what it does without. -/
theorem runAll_cut (limit fuel : Nat) (program : List Stmt) {m : Machine}
    (boundless : m.sink.Boundless) :
    Outputs m (Trace.runAll fuel program m) (final (runAll fuel program m)) ∧
      (m.sink.written.size ≤ limit → Cut limit (runAll fuel program m) (Trace.runAll fuel program m)
        (runAll fuel program (m.limited limit)) (Trace.runAll fuel program (m.limited limit))) := by
  obtain ⟨more, -, cut⟩ :=
    Discipline.runAll_does (J := capped limit) fuel (w := ()) program nofun m boundless
  exact ⟨more, cut⟩

end Capped

end Lox
