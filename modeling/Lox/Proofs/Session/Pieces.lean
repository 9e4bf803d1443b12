import Lox.Proofs.Session.Reachable
import Lox.Proofs.Session.Sequel
import Lox.Proofs.Token.Seam

/-!
# Texts in pieces

Running one text and then another comes to the same as running both at once with a newline between
them, except that lines in the second text are counted from its own start (`run_in_pieces`).
-/

namespace Lox

open EStateM (Result)

/-- A text without faults. -/
def Accepted (source : String) : Prop :=
  ∃ program, (compile source 0).result = .ok program ∧ (Binding.program program).faults = []

theorem compile_accepts_iff (source : String) (nextId : NodeId) :
    (∃ program, (compile source nextId).result = .ok program ∧
      (Binding.program program).faults = []) ↔
    ((compile source nextId).result.toOption.any fun program =>
      (Binding.program program).faults.isEmpty) = true := by
  cases (compile source nextId).result with
  | ok program => simp [Except.toOption]
  | error faults => simp [Except.toOption]

theorem accepted_iff (source : String) :
    Accepted source ↔ ((compile source 0).result.toOption.any fun program =>
      (Binding.program program).faults.isEmpty) = true :=
  compile_accepts_iff source 0

instance (source : String) : Decidable (Accepted source) :=
  decidable_of_iff _ (accepted_iff source).symm

/-- Runs a text as if its tokens were on other lines. -/
def Machine.runMoved (m : Machine) (fuel : Nat) (f : Nat → Nat) (source : String) :
    Outcome Unit × Machine :=
  m.runParsed fuel (Grammar.parse ((tokenize source).1.map (Token.moved f)) m.nextNode)

/-! ### Texts that are read -/

theorem compile_clean {source : String} (clean : (tokenize source).2 = []) (nextId : NodeId) :
    compile source nextId = Grammar.parse (tokenize source).1 nextId := by
  unfold compile
  dsimp only
  rw [clean]
  generalize Grammar.parse (tokenize source).1 nextId = parsed
  obtain ⟨_ | _, next⟩ := parsed <;> rfl

theorem clean_of_compile {source : String} {nextId : NodeId} {program : List Stmt}
    (read : (compile source nextId).result = .ok program) : (tokenize source).2 = [] := by
  unfold compile at read
  dsimp only at read
  split at read
  · split at read
    · next clean => exact List.isEmpty_iff.1 clean
    · cases read
  · cases read

theorem compile_self {lines : Nat → Nat → Prop} (refl : ∀ l, lines l l) {source : String}
    {nextId : NodeId} {program : List Stmt} (read : (compile source nextId).result = .ok program) :
    PairedBody (.ofLines lines) program program := by
  have paired := compile_paired source nextId nextId
  rw [read] at paired
  cases paired with
  | ok same => exact PairedBody.mono same ⟨fun _ _ go => go, fun l _ go => go ▸ refl l⟩

section Moved

variable {source : String}

theorem runMoved_id (clean : (tokenize source).2 = []) (m : Machine) (fuel : Nat) :
    m.runMoved fuel id source = m.run fuel source := by
  have still : (tokenize source).1.map (Token.moved id) = (tokenize source).1 := List.map_id _
  rw [Machine.runMoved, Machine.run_eq, compile_clean clean, still]

theorem moved_numbered (source : String) (f : Nat → Nat) (nextId : NodeId) :
    Numbered Stmt.idsAll nextId
      (Grammar.parse ((tokenize source).1.map (Token.moved f)) nextId) :=
  ⟨Grammar.parse_nextId_le _ nextId, fun _ read => (Grammar.parse_good read).1⟩

variable {lines : Nat → Nat → Prop} (refl : ∀ l, lines l l) {f g : Nat → Nat}
  (moves : ∀ l, lines (f l) (g l))

include refl moves

theorem moved_paired (source : String) (nextId nextId' : NodeId) :
    PairedReading lines (PairedBody (.ofLines lines))
      (Grammar.parse ((tokenize source).1.map (Token.moved f)) nextId).result
      (Grammar.parse ((tokenize source).1.map (Token.moved g)) nextId').result := by
  refine Grammar.parse_paired ?_ (refl _) nextId nextId'
  rw [List.forall₂_map_left_iff, List.forall₂_map_right_iff, List.forall₂_same]
  exact fun t _ => ⟨rfl, rfl, moves t.line⟩

theorem runMoved_concur {m : Machine} (orderly : m.Orderly) (fuel : Nat) :
    Concur lines (m.runMoved fuel f source) (m.runMoved fuel g source) := by
  obtain ⟨ids, twin⟩ := orderly.twin refl
  exact twin.runParsed fuel (moved_numbered source f _) (moved_numbered source g _)
    (moved_paired refl moves source _ _)

end Moved

/-! ### Runs that reach the end -/

theorem finished_ok {x : Eval Unit} {m : Machine}
    (finished : (Outcome.ofResult (thenFlush x m)).1 = .finished ()) :
    x m = .ok () (Outcome.ofResult (thenFlush x m)).2 := by
  unfold thenFlush at finished ⊢
  cases ended : x m with
  | ok a n =>
    rw [ended] at finished
    dsimp only at finished ⊢
    split <;> rfl
  | error e n =>
    rw [ended] at finished
    cases e with
    | outOfFuel => cases finished
    | error e =>
      dsimp only at finished
      split at finished <;> cases finished

theorem ofResult_runs {α : Type} (r : Result Halt Machine α) (faults : List Diagnostic) :
    (Outcome.ofResult r).1 ≠ .rejected faults := by
  cases r with
  | ok a n => nofun
  | error e n => cases e <;> nofun

theorem run_finished {m : Machine} {fuel : Nat} {source : String}
    (finished : (m.run fuel source).1 = .finished ()) :
    ∃ program, (compile source m.nextNode).result = .ok program ∧
      (Binding.program program).faults = [] ∧
      runAll fuel program (({ m with nextNode := (compile source m.nextNode).nextId } :
        Machine).bind program).2 = .ok () (m.run fuel source).2 := by
  unfold Machine.run at finished ⊢
  dsimp only at finished ⊢
  cases read : (compile source m.nextNode).result with
  | error faults =>
    rw [read] at finished
    cases finished
  | ok program =>
    rw [read] at finished
    dsimp only at finished ⊢
    unfold Machine.runProgram at finished ⊢
    dsimp only at finished ⊢
    split at finished
    · next clean =>
      rw [if_pos clean]
      exact ⟨program, rfl, List.isEmpty_iff.1 clean, finished_ok finished⟩
    · cases finished

theorem runParsed_accepted {m : Machine} {fuel : Nat} {parsed : Grammar.Parsed (List Stmt)}
    {program : List Stmt} (read : parsed.result = .ok program)
    (clean : (Binding.program program).faults = []) :
    m.runParsed fuel parsed = Outcome.ofResult (thenFlush (runAll fuel program)
      (({ m with nextNode := parsed.nextId } : Machine).bind program).2) := by
  unfold Machine.runParsed
  dsimp only
  rw [read]
  exact if_pos (List.isEmpty_iff.2 clean)

/-! ### Both at once -/

section Seam

variable {a b : String}

theorem Accepted.moved (accepted : Accepted b) (f : Nat → Nat) (nextId : NodeId) :
    ∃ program, (Grammar.parse ((tokenize b).1.map (Token.moved f)) nextId).result = .ok program ∧
      (Binding.program program).faults = [] := by
  obtain ⟨program, read, clean⟩ := accepted
  have still : (tokenize b).1.map (Token.moved id) = (tokenize b).1 := List.map_id _
  have read : (Grammar.parse ((tokenize b).1.map (Token.moved id)) 0).result = .ok program := by
    rw [still, ← compile_clean (clean_of_compile read)]
    exact read
  have paired : PairedReading (fun _ _ => True) _ _ _ :=
    moved_paired (fun _ => trivial) (f := id) (g := f) (fun _ => trivial) b 0 nextId
  rw [read] at paired
  generalize (Grammar.parse ((tokenize b).1.map (Token.moved f)) nextId).result = r at paired ⊢
  cases paired with
  | ok same => exact ⟨_, rfl, walk_clean same clean⟩

/-- The second text is read on later lines. -/
theorem read_whole {nextId : NodeId} {ss rs : List Stmt} (read : (compile a nextId).result = .ok ss)
    (clean : (tokenize b).2 = [])
    (moved : (Grammar.parse ((tokenize b).1.map (Token.moved (· + (1 + newlines a)))) 0).result =
      .ok rs) :
    ∃ ss' rs', (compile (a ++ "\n" ++ b) nextId).result = .ok (ss' ++ rs') ∧
      Stmt.unnumberedAll ss' = Stmt.unnumberedAll ss ∧
      Stmt.unnumberedAll rs' = Stmt.unnumberedAll rs := by
  have tidy := clean_of_compile read
  obtain ⟨ts, first, proper, both⟩ := tokenize_seam a
  obtain ⟨us, second, proper', -⟩ := tokenize_seam b
  obtain ⟨tokens, faults⟩ := both b (by simp [tidy])
  rw [tidy, clean] at faults
  rw [compile_clean tidy, first] at read
  rw [second, List.map_append] at moved tokens
  rw [compile_clean faults, tokens]
  refine Grammar.parse_append proper (fun t mem => ?_) rfl rfl read moved nextId
  obtain ⟨t', known, rfl⟩ := List.mem_map.1 mem
  exact proper' t' known

theorem whole_concur {m : Machine} (orderly : m.Orderly) {fuel : Nat}
    (finished : (m.run fuel a).1 = .finished ()) (accepted : Accepted b)
    {lines : Nat → Nat → Prop} (refl : ∀ l, lines l l) {f : Nat → Nat}
    (moves : ∀ l, lines (f l) (l + (1 + newlines a))) :
    Concur lines ((m.run fuel a).2.runMoved fuel f b) (m.run fuel (a ++ "\n" ++ b)) := by
  obtain ⟨ids, twin⟩ := orderly.twin refl
  obtain ⟨ss, read, clean, ran⟩ := run_finished finished
  obtain ⟨rs, moved, clean'⟩ := accepted.moved f (m.run fuel a).2.nextNode
  obtain ⟨rs₁, later, -⟩ := accepted.moved (· + (1 + newlines a)) 0
  obtain ⟨ss', rs', whole, same, same'⟩ :=
    read_whole read (clean_of_compile accepted.choose_spec.1) later
  have first := PairedBody.renumber (compile_self refl read) same.symm
  have second : PairedBody (.ofLines lines) rs rs' := by
    have paired := moved_paired refl moves b (m.run fuel a).2.nextNode 0
    rw [moved, later] at paired
    cases paired with
    | ok paired => exact PairedBody.renumber paired same'.symm
  have numbered := compile_numbered a m.nextNode
  have numbered' := compile_numbered (a ++ "\n" ++ b) m.nextNode
  have numbered'' := moved_numbered b f (m.run fuel a).2.nextNode
  rw [Machine.run_eq m fuel (a ++ "\n" ++ b), runParsed_accepted whole
    (sequel_clean second (walk_clean first clean) clean'), Machine.runMoved,
    runParsed_accepted moved clean']
  exact twin.sequel numbered.le numbered'.le (numbered.fresh ss read) (numbered'.fresh _ whole)
    first second ran numbered''.le (numbered''.fresh rs moved)

end Seam

/-! ### Whose line it is -/

/-- Lines of tokens that stay, and of tokens that were put on other lines in two ways. -/
def Moves (f g : Nat → Nat) (l l' : Nat) : Prop := l = l' ∨ ∃ x, l = f x ∧ l' = g x

/-- A line that goes along with tokens never does so or is always that of the same token. -/
theorem moves_line {line : (Nat → Nat) → Nat} (h : ∀ f g, Moves f g (line f) (line g)) :
    (∀ f, line f = line id) ∨ ∀ f, line f = f (line id) := by
  -- Moved in this way, no token stays on the line.
  let away : Nat → Nat := (· + (line id + 1))
  rcases h id away with stays | ⟨x, here, there⟩
  · refine .inl fun f => ?_
    rcases h away f with same | ⟨x, gone, -⟩
    · exact (stays.trans same).symm
    · change line away = x + (line id + 1) at gone
      omega
  · refine .inr fun f => ?_
    change line away = x + (line id + 1) at there
    change line id = x at here
    rcases h away f with same | ⟨y, moved, moved'⟩
    · rcases h id f with stays | ⟨y, here', moved⟩
      · omega
      · exact here' ▸ moved
    · change line away = y + (line id + 1) at moved
      obtain rfl : y = line id := by omega
      exact moved'

/-- Unless a text is rejected, outcomes differ in the line of an error of the program at most. -/
theorem PairedOutcome.differ {lines : Nat → Nat → Prop} {o o' : Outcome Unit}
    (h : PairedOutcome lines o o') (runs : ∀ faults, o ≠ .rejected faults) :
    o' = o ∨ ∃ line line' cause, lines line line' ∧ o = .failed (.program line cause) ∧
      o' = .failed (.program line' cause) := by
  cases h with
  | finished | outOfFuel => exact .inl rfl
  | rejected same => exact absurd rfl (runs _)
  | failed halt =>
    cases halt with
    | stream cause => exact .inl rfl
    | program place cause => exact .inr ⟨_, _, cause, place, rfl, rfl⟩

/-- If moving tokens moves at most the line of an error, then it either never does so, or the line
is always that of the same token. -/
theorem moves_outcome {o : (Nat → Nat) → Outcome Unit}
    (paired : ∀ f g, PairedOutcome (Moves f g) (o f) (o g))
    (runs : ∀ f faults, o f ≠ .rejected faults) :
    (∀ f, o f = o id) ∨ ∃ line cause, ∀ f, o f = .failed (.program (f line) cause) := by
  by_cases program : ∃ line cause, o id = .failed (.program line cause)
  · obtain ⟨line, cause, still⟩ := program
    have failed : ∀ f, ∃ l, o f = .failed (.program l cause) := fun f => by
      rcases (paired id f).differ (runs id) with same | ⟨_, l, _, -, known, moved⟩
      · exact ⟨line, same.trans still⟩
      · cases still.symm.trans known
        exact ⟨l, moved⟩
    choose l ended using failed
    have pairwise : ∀ f g, Moves f g (l f) (l g) := fun f g => by
      rcases (paired f g).differ (runs f) with same | ⟨_, _, _, place, known, moved⟩
      · rw [ended, ended] at same
        exact .inl (by simpa using same.symm)
      · cases (ended f).symm.trans known
        cases (ended g).symm.trans moved
        exact place
    rcases moves_line pairwise with stays | moves
    · exact .inl fun f => by rw [ended, ended, stays]
    · exact .inr ⟨l id, cause, fun f => by rw [ended, moves]⟩
  · refine .inl fun f => ?_
    rcases (paired id f).differ (runs id) with same | ⟨line, _, cause, -, still, -⟩
    · exact same
    · exact absurd ⟨line, cause, still⟩ program

/-! ### Pieces -/

/-- What comes of a text on the machine `n` comes of a longer text that ends in it, where the text
stands `shift` lines further down. -/
structure Continues (n : Machine) (fuel : Nat) (source : String) (shift : Nat)
    (whole : Outcome Unit × Machine) : Prop where
  sink : whole.2.sink = (n.run fuel source).2.sink
  input : whole.2.input = (n.run fuel source).2.input
  /-- Globals and all they lead to are the same, up to the numbers of nodes and the lines of
  tokens. -/
  state : ∃ P : Pairing, (∀ l l', P.lines l l' → l' = l ∨ l' = l + shift) ∧
    Twin P (n.run fuel source).2 whole.2
  /-- An error has the same line, unless that is the line of a token of the text. -/
  outcome :
    (whole.1 = (n.run fuel source).1 ∧
      ∀ f, (n.runMoved fuel f source).1 = (n.run fuel source).1) ∨
    ∃ line cause, (n.run fuel source).1 = .failed (.program line cause) ∧
      (∀ f, (n.runMoved fuel f source).1 = .failed (.program (f line) cause)) ∧
      whole.1 = .failed (.program (line + shift) cause)

/-- If the first text runs to its end and the second has no faults, the second does on the machine
that the first one left what it does behind the first one. No text without faults begins with
`else`. -/
theorem run_in_pieces {m : Machine} (reachable : m.Reachable) {fuel : Nat} {a b : String}
    (finished : (m.run fuel a).1 = .finished ()) (accepted : Accepted b) :
    Continues (m.run fuel a).2 fuel b (1 + newlines a) (m.run fuel (a ++ "\n" ++ b)) := by
  have clean := clean_of_compile accepted.choose_spec.1
  have still := runMoved_id clean (m.run fuel a).2 fuel
  have orderly := (reachable.run fuel a).orderly
  have moved : (m.run fuel (a ++ "\n" ++ b)).1 =
      ((m.run fuel a).2.runMoved fuel (· + (1 + newlines a)) b).1 :=
    (whole_concur reachable.orderly finished accepted (fun _ => rfl) fun _ => rfl).1.eq.symm
  have uniform := moves_outcome (o := fun f => ((m.run fuel a).2.runMoved fuel f b).1)
    (fun f g => (runMoved_concur (fun _ => .inl rfl) (fun l => .inr ⟨l, rfl, rfl⟩) orderly fuel).1)
    fun f faults => by
      obtain ⟨program, read, clean⟩ := accepted.moved f (m.run fuel a).2.nextNode
      rw [Machine.runMoved, runParsed_accepted read clean]
      exact ofResult_runs _ faults
  have whole : Concur (fun l l' => l' = l ∨ l' = l + (1 + newlines a)) _ _ :=
    whole_concur reachable.orderly finished accepted (fun _ => .inl rfl) (f := id)
      fun _ => .inr rfl
  obtain ⟨-, P, lines, twin⟩ := whole
  rw [still] at twin
  refine ⟨twin.sink.symm, twin.input.symm, ⟨P, fun l l' go => ?_, twin⟩, ?_⟩
  · rwa [lines] at go
  · rw [← still, moved]
    rcases uniform with stays | ⟨line, cause, moves⟩
    · exact .inl ⟨stays _, stays⟩
    · exact .inr ⟨line, cause, moves id, moves, moves _⟩

/-- The call fails on line 2 of the second text, which is line 4 of both. -/
theorem run_in_pieces_of_call :
    let m := Machine.start [] .unlimited fun _ => 0
    let a := "var x = true;\nprint x;"
    let b := "print x;\nx();"
    (m.run 9 a).1 = .finished () ∧ Accepted b ∧
      Continues (m.run 9 a).2 9 b (1 + newlines a) (m.run 9 (a ++ "\n" ++ b)) := by
  intro m a b
  have ends : (m.run 9 a).1.code = 0 := by decide +kernel
  have finished : (m.run 9 a).1 = .finished () := by
    generalize (m.run 9 a).1 = o at ends ⊢
    cases o with
    | finished _ => rfl
    | rejected | failed | outOfFuel => cases ends
  have accepted : Accepted b := by decide +kernel
  exact ⟨finished, accepted, run_in_pieces (.start [] .unlimited fun _ => 0) finished accepted⟩

end Lox
