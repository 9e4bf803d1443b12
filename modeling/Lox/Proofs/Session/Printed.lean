import Lox.Proofs.Grammar.Terminated
import Lox.Proofs.Session.Truncated

/-!
# Expressions that are printed

An expression without `this` and `super` comes to the same whether it is evaluated by itself, with no
walk for its names, or as the operand of a `print` (`evaluate_printed`).
-/

namespace Lox

open EStateM (Result)

/-! ### The two texts -/

/-- The program that prints the value of an expression. -/
def printing (source : String) : String := "print " ++ source ++ "\n;"

theorem munch_print (cs : List Char) :
    Scan.munch 'p' ('r' :: 'i' :: 'n' :: 't' :: ' ' :: cs) =
      ⟨.token (.keyword .print), ['p', 'r', 'i', 'n', 't'], ' ' :: cs⟩ := by
  rfl

theorem munch_blank (cs : List Char) : Scan.munch ' ' cs = ⟨.skip, [' '], cs⟩ := by
  rfl

theorem scan_print (source : String) :
    scan ("print " ++ source) = .token ⟨.keyword .print, "print", 1⟩ :: scan source := by
  have spelled : ("print " ++ source).toList =
      'p' :: 'r' :: 'i' :: 'n' :: 't' :: ' ' :: source.toList := by
    rw [String.toList_append]
    rfl
  rw [scan, spelled, Scan.scanFrom_cons, munch_print]
  show Scan.scanned _ _ _ ++ Scan.scanFrom 1 (' ' :: source.toList) = _
  rw [Scan.scanFrom_cons, munch_blank]
  rfl

theorem scan_semicolon :
    scan ";" = [.token ⟨.symbol .semicolon, ";", 1⟩, .token ⟨.eof, "", 1⟩] := by
  show Scan.scanFrom 1 [';'] = _
  rw [Scan.scanFrom_cons]
  show _ ++ Scan.scanFrom 1 [] = _
  rw [Scan.scanFrom]
  rfl

/-- The tokens of the program are those of the expression between two others. -/
theorem tokenize_printing {source : String} (clean : (tokenize source).2 = []) :
    ∃ ts line, (tokenize source).1 = ts ++ [⟨.eof, "", line⟩] ∧ (∀ t ∈ ts, t.kind ≠ .eof) ∧
      tokenize (printing source) =
        (⟨.keyword .print, "print", 1⟩ :: ts ++ [⟨.symbol .semicolon, ";", 1 + line⟩] ++
          [⟨.eof, "", 1 + line⟩], []) := by
  obtain ⟨ts, alone, proper, -⟩ := tokenize_seam source
  obtain ⟨us, first, -, both⟩ := tokenize_seam ("print " ++ source)
  have tokens : (tokenize ("print " ++ source)).1 =
      ⟨.keyword .print, "print", 1⟩ :: (tokenize source).1 := by
    rw [tokenize, scan_print]
    rfl
  have faults : (tokenize ("print " ++ source)).2 = [] := by
    rw [← clean, tokenize, scan_print]
    rfl
  have lines : newlines ("print " ++ source) = newlines source := by
    rw [newlines, String.toList_append, List.count_append]
    exact Nat.zero_add _
  have same : us = ⟨.keyword .print, "print", 1⟩ :: ts := by
    rw [tokens, alone, ← List.cons_append] at first
    exact (List.append_inj' first rfl).1.symm
  have joined : printing source = "print " ++ source ++ "\n" ++ ";" := by
    have apart : "\n;" = "\n" ++ ";" := rfl
    rw [printing, apart, ← String.append_assoc]
  obtain ⟨whole, none⟩ := both ";" (by simp [faults])
  rw [← joined] at whole none
  refine ⟨ts, 1 + newlines source, alone, proper, Prod.ext ?_ ?_⟩
  · rw [whole, same, lines, tokenize, scan_semicolon, List.append_assoc]
    rfl
  · rw [none, faults, tokenize, scan_semicolon]
    rfl

/-! ### The two parses -/

/-- The expression is read in the same way in both texts, down to the numbers of its nodes. -/
theorem compile_printing {source : String} {nextId : NodeId} {e : Expr}
    (read : (compileExpression source nextId).result = .ok e)
    (classless : ∀ t ∈ (tokenize source).1, t.kind ∉ classWords) :
    e.Classless ∧ compile (printing source) nextId =
      ⟨.ok [.print e], (compileExpression source nextId).nextId⟩ := by
  unfold compileExpression at read ⊢
  dsimp only at read ⊢
  cases clean : (tokenize source).2.isEmpty with
  | false =>
    rw [clean] at read
    cases read
  | true =>
    rw [clean] at read
    have clean := List.isEmpty_iff.1 clean
    obtain ⟨ts, line, alone, proper, whole⟩ := tokenize_printing clean
    rw [if_pos rfl, alone] at read
    have parsed := Grammar.parse_print ⟨.keyword .print, "print", 1⟩
      ⟨.symbol .semicolon, ";", 1 + line⟩ ⟨.eof, "", 1 + line⟩ proper rfl rfl rfl rfl
      (fun t mem => classless t (alone ▸ List.mem_append_left _ mem)) read
    refine ⟨parsed.1, ?_⟩
    rw [compile_clean (congrArg Prod.snd whole), congrArg Prod.fst whole, if_pos rfl, alone]
    exact parsed.2

/-! ### The walk -/

namespace Binding

section TopLevel

variable {w : Walk} (top : w.scopes = [])

include top

theorem refer_topLevel (id : NodeId) (name : String) : w.refer id name = w := by
  have absent : w.distance? name = none := by
    rw [Walk.distance?, top]
    rfl
  rw [Walk.refer, absent]

theorem isPending_topLevel (name : String) : w.isPending name = false := by
  rw [Walk.isPending, top]

end TopLevel

mutual

/-- Names at top level are in no scope, so that the walk has nothing to note. -/
theorem expr_topLevel (c : Context) {w : Walk} (top : w.scopes = []) : (e : Expr) → e.Classless →
    expr c w e = w
  | .literal _, _ => rfl
  | .unary _ right, h => expr_topLevel c top right h
  | .binary left _ right, h => by
    rw [expr, expr_topLevel c top left h.1, expr_topLevel c top right h.2]
  | .logical left _ right, h => by
    rw [expr, expr_topLevel c top left h.1, expr_topLevel c top right h.2]
  | .group inner, h => expr_topLevel c top inner h
  | .variable id name, _ => by
    rw [expr, isPending_topLevel top]
    exact refer_topLevel top id name.lexeme
  | .assign id name value, h => by
    rw [expr, expr_topLevel c top value h]
    exact refer_topLevel top id name.lexeme
  | .call callee _ arguments, h => by
    rw [expr, expr_topLevel c top callee h.1, exprs_topLevel c top arguments h.2]
  | .get object _, h => expr_topLevel c top object h
  | .set object _ value, h => by
    rw [expr, expr_topLevel c top value h.2, expr_topLevel c top object h.1]
  | .this _ _, h => h.elim
  | .super _ _ _, h => h.elim

theorem exprs_topLevel (c : Context) {w : Walk} (top : w.scopes = []) : (es : List Expr) →
    Expr.ClasslessAll es → exprs c w es = w
  | [], _ => rfl
  | e :: es, h => by
    rw [exprs, expr_topLevel c top e h.1, exprs_topLevel c top es h.2]

end

theorem program_print {e : Expr} (classless : e.Classless) : program [.print e] = .start := by
  rw [program_eq]
  exact expr_topLevel .program rfl e classless

end Binding

/-! ### The two runs -/

/-- What evaluating an expression comes to goes with what printing it comes to: a value with its text
as one more line of output, an error with itself. The machines are otherwise the same. -/
inductive PrintedAs : Outcome Value × Machine → Outcome Unit × Machine → Prop
  | finished (v : Value) (n : Machine) : PrintedAs (.finished v, n) (.finished (), n.printed v.text)
  | failed (e : RunError) (n : Machine) : PrintedAs (.failed e, n) (.failed e, n)
  | outOfFuel (n : Machine) : PrintedAs (.outOfFuel, n) (.outOfFuel, n)

theorem runAll_print (fuel : Nat) (e : Expr) (m : Machine) :
    runAll fuel [.print e] m =
      match evaluate (invoke fuel) e m with
      | .ok v n => printLine v.text n
      | .error e n => .error e n := by
  have executed : execute (invoke fuel) fuel (.print e) = evaluate (invoke fuel) e >>= fun v =>
    printLine v.text >>= fun _ => pure .normal := rfl
  rw [runAll, executed, bind_assoc]
  cases ended : evaluate (invoke fuel) e m with
  | error e n => exact Grammar.bind_of_error ended
  | ok v n =>
    rw [Grammar.bind_of_ok ended, bind_assoc]
    dsimp only
    cases printed : printLine v.text n with
    | error e k => exact Grammar.bind_of_error printed
    | ok _ k =>
      rw [Grammar.bind_of_ok printed]
      rfl

/-- The sink of a machine that evaluates goes on to take everything. -/
theorem evaluate_boundless {m : Machine} (boundless : m.sink.Boundless) (fuel : Nat) (e : Expr) :
    (final (evaluate (invoke fuel) e m)).sink.Boundless := by
  have done :=
    Discipline.evaluate_does (J := capped 0) (Discipline.invoke_does fuel) (w := ()) e nofun
  exact (done m boundless).1.boundless

/-- Evaluating an expression and printing it come to the same, on any machine. -/
theorem evaluate_printed {m : Machine} (boundless : m.sink.Boundless) {source : String}
    (read : ∃ e, (compileExpression source m.nextNode).result = .ok e)
    (classless : ∀ t ∈ (tokenize source).1, t.kind ∉ classWords) (fuel : Nat) :
    PrintedAs (m.evaluate fuel source) (m.run fuel (printing source)) := by
  obtain ⟨e, read⟩ := read
  obtain ⟨own, parsed⟩ := compile_printing read classless
  have walk := Binding.program_print own
  have loaded : m.loaded (printing source) [.print e] =
      { m with nextNode := (compileExpression source m.nextNode).nextId } := by
    rw [Machine.loaded, Machine.bind, walk, parsed]
    rfl
  have runs := (run_loaded (congrArg Grammar.Parsed.result parsed)
    (congrArg Binding.Walk.faults walk) fuel).1
  have evaluates : m.evaluate fuel source = Outcome.ofResult (evaluate (invoke fuel) e
      { m with nextNode := (compileExpression source m.nextNode).nextId }) := by
    unfold Machine.evaluate
    dsimp only
    rw [read]
  rw [loaded] at runs
  rw [evaluates, runs]
  generalize start : { m with nextNode := (compileExpression source m.nextNode).nextId } = k
  have endless : k.sink.Boundless := start ▸ boundless
  have after := evaluate_boundless endless fuel e
  have printed := runAll_print fuel e k
  cases ended : evaluate (invoke fuel) e k with
  | ok v n =>
    rw [ended] at after printed
    have printed : runAll fuel [.print e] k = .ok () (n.printed v.text) :=
      printed.trans (printLine_boundless after.limit v.text)
    rw [thenFlush_flushes (printed ▸ after.flushes), printed]
    exact .finished v n
  | error halt n =>
    rw [ended] at after printed
    rw [thenFlush_flushes (printed ▸ after.flushes), printed]
    cases halt with
    | error e => exact .failed e n
    | outOfFuel => exact .outOfFuel n

/-- The expression reads a line and adds it to a string. -/
theorem evaluate_printed_read :
    let m := Machine.start [121, 10] .unlimited fun _ => 0
    let source := "\"x\" + input.read()"
    m.sink.Boundless ∧ (∃ e, (compileExpression source m.nextNode).result = .ok e) ∧
      (∀ t ∈ (tokenize source).1, t.kind ∉ classWords) ∧
      PrintedAs (m.evaluate 9 source) (m.run 9 (printing source)) ∧
      (m.run 9 (printing source)).2.sink.written.toList = "xy\n".toUTF8.data.toList := by
  intro m source
  have boundless : m.sink.Boundless := ⟨rfl, rfl⟩
  have reads : (compileExpression source m.nextNode).result.toOption.isSome = true := by
    decide +kernel
  have read : ∃ e, (compileExpression source m.nextNode).result = .ok e := by
    generalize (compileExpression source m.nextNode).result = r at reads
    cases r with
    | ok e => exact ⟨e, rfl⟩
    | error faults => cases reads
  have classless : ∀ t ∈ (tokenize source).1, t.kind ∉ classWords := by decide +kernel
  exact ⟨boundless, read, classless, evaluate_printed boundless read classless 9, by decide +kernel⟩

end Lox
