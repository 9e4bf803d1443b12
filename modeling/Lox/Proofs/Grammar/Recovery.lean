import Lox.Proofs.Grammar.Cursor
import Lox.Proofs.Grammar.Parallel
import Lox.Proofs.Grammar.Soundness.Statement

/-!
# Where reading resumes

A declaration that gives up does so at the token it stands at, and reading resumes at the first
statement boundary from that token on, unless the token is itself a word that starts a statement:
such a word is skipped, and the first boundary behind it counts (`declaration_resumes`).
-/

namespace Lox.Grammar

open EStateM (Result)

/-! ### Every fault is where the rule stands -/

theorem PairedState.refl (s : State) : PairedState Eq s s :=
  have lines : ∀ l, (Pairing.ofLines Eq).lines l l := fun _ => rfl
  ⟨List.forall₂_same.2 fun t _ => .refl lines t, .refl lines _,
    List.forall₂_same.2 fun d _ => .refl lines d⟩

theorem ParallelResult.fault_here {α β : Type} {lines : Nat → Nat → Prop} {R : α → β → Prop}
    {t : State} {d : Diagnostic} {r : Result Failure State β}
    (h : ParallelResult lines R (.error (.fault d) t) r) :
    ∃ cause, d = .grammatical t.peek cause := by
  cases h with
  | fault _ cause => exact ⟨cause, rfl⟩

theorem Parallel.fault_here {α : Type} {x : Rule α} {R : α → α → Prop} (h : Parallel Eq x x R)
    {s t : State} {d : Diagnostic} (failed : x s = .error (.fault d) t) :
    ∃ cause, d = .grammatical t.peek cause := by
  have done := h s s (PairedState.refl s)
  rw [failed] at done
  exact done.fault_here

/-! ### Statement boundaries -/

/-- Whether the first of these tokens is a word that starts a statement. -/
def startsStatement (ts : List Token) : Bool := ts.head?.any fun t => resumesAt t.kind

/-- The kind of the last of these tokens, if there are any behind `previous`. -/
def lastKind (previous : Option Kind) (ts : List Token) : Option Kind :=
  (ts.getLast?.map Token.kind).or previous

/-- Behind a semicolon, at a word that starts a statement, or at the end. -/
def Boundary (previous : Option Kind) (before after : List Token) : Prop :=
  after = [] ∨ lastKind previous before = some (.symbol .semicolon) ∨ startsStatement after = true

/-- What is left of the tokens from their first statement boundary on. -/
def FirstBoundary (previous : Option Kind) (ts after : List Token) : Prop :=
  ∃ before, ts = before ++ after ∧ Boundary previous before after ∧
    ∀ before' after', ts = before' ++ after' → Boundary previous before' after' →
      before.length ≤ before'.length

theorem lastKind_cons (previous : Option Kind) (t : Token) (ts : List Token) :
    lastKind previous (t :: ts) = lastKind (some t.kind) ts := by
  unfold lastKind
  rw [List.getLast?_cons]
  cases ts.getLast? <;> rfl

theorem boundary_cons (previous : Option Kind) (t : Token) (before after : List Token) :
    Boundary previous (t :: before) after ↔ Boundary (some t.kind) before after := by
  unfold Boundary
  rw [lastKind_cons]

theorem boundary_other {k : Kind} (other : k ≠ .symbol .semicolon) (before after : List Token) :
    Boundary (some k) before after ↔ Boundary none before after := by
  unfold Boundary lastKind
  cases before.getLast? <;> simp [other]

theorem firstBoundary_here {previous : Option Kind} {ts : List Token}
    (h : Boundary previous [] ts) : FirstBoundary previous ts ts :=
  ⟨[], rfl, h, fun _ _ _ _ => Nat.zero_le _⟩

theorem FirstBoundary.cons {previous : Option Kind} {t : Token} {ts after : List Token}
    (plain : ¬ Boundary previous [] (t :: ts)) (h : FirstBoundary (some t.kind) ts after) :
    FirstBoundary previous (t :: ts) after := by
  obtain ⟨before, split, boundary, least⟩ := h
  refine ⟨t :: before, congrArg (t :: ·) split, (boundary_cons ..).2 boundary, ?_⟩
  intro before' after' split' boundary'
  cases before' with
  | nil =>
    rw [List.nil_append] at split'
    exact absurd (split' ▸ boundary') plain
  | cons u us =>
    obtain ⟨rfl, rest⟩ := List.cons.inj split'
    exact Nat.succ_le_succ (least us after' rest ((boundary_cons ..).1 boundary'))

/-- Skipping ends at the first boundary. -/
theorem skipFrom_first (previous : Kind) (ts : List Token) :
    FirstBoundary (some previous) ts (skipFrom previous ts) := by
  induction ts generalizing previous with
  | nil => exact firstBoundary_here (.inl rfl)
  | cons t ts ih =>
    have here : Boundary (some previous) [] (t :: ts) ↔
        previous = .symbol .semicolon ∨ resumesAt t.kind = true := by
      simp [Boundary, lastKind, startsStatement]
    unfold skipFrom
    split
    · next stops => exact firstBoundary_here (here.2 stops)
    · next goes => exact (ih t.kind).cons fun boundary => goes (here.1 boundary)

theorem resumesAt_semicolon : resumesAt (.symbol .semicolon) = false := by decide

/-- The token at which a rule gave up counts as a boundary only in so far as it is no word that
starts a statement. -/
theorem resume_first (ts : List Token) :
    (FirstBoundary none ts (resume ts) ↔ startsStatement ts = false) ∧
      (startsStatement ts = true → FirstBoundary none ts.tail (resume ts)) := by
  cases ts with
  | nil => exact ⟨⟨fun _ => rfl, fun _ => firstBoundary_here (.inl rfl)⟩, fun word => nomatch word⟩
  | cons t ts =>
    have found := skipFrom_first t.kind ts
    have here : Boundary none [] (t :: ts) ↔ startsStatement (t :: ts) = true := by
      simp [Boundary, lastKind]
    refine ⟨⟨fun first => ?_, fun plain => ?_⟩, fun word => ?_⟩
    · rw [Bool.eq_false_iff]
      intro word
      obtain ⟨before, split, -, least⟩ := first
      have none : before.length = 0 := Nat.le_zero.1 (least [] (t :: ts) rfl (here.2 word))
      have skipped := (skipFrom_suffix t.kind ts).length_le
      have all := congrArg List.length split
      rw [List.length_append, none, List.length_cons] at all
      have resumed : (resume (t :: ts)).length ≤ ts.length := skipped
      omega
    · exact found.cons fun boundary => by simp [here.1 boundary] at plain
    · have other : t.kind ≠ .symbol .semicolon := by
        intro same
        have word : resumesAt t.kind = true := word
        rw [same, resumesAt_semicolon] at word
        nomatch word
      obtain ⟨before, split, boundary, least⟩ := found
      refine ⟨before, split, (boundary_other other ..).1 boundary, ?_⟩
      intro before' after' split' boundary'
      exact least before' after' split' ((boundary_other other ..).2 boundary')

/-! ### Declarations that give up -/

/-- Resuming moves the cursor to where the tokens that are left go on. -/
theorem Cursor.synchronize_noted (c : Cursor) (d : Diagnostic) :
    ∃ after, Reader.synchronize (Reader.note d c) =
        { c with noted := c.noted ++ [d], current := after } ∧
      { c with current := after }.left = resume c.left := by
  let noted : Cursor := Reader.note d c
  obtain ⟨tokens, -, silent, nextId⟩ := noted.synchronize_towards
  have left : noted.advance.skip.left = resume c.left := noted.synchronize_left
  refine ⟨noted.advance.skip.current, ?_, ?_⟩
  · show noted.advance.skip = _
    generalize noted.advance.skip = moved at tokens silent nextId
    obtain ⟨_, _, _, _⟩ := moved
    cases tokens
    cases silent
    cases nextId
    rfl
  · rw [← left, Cursor.left, Cursor.left, tokens]
    rfl

/-- A declaration gives up at the token that it stands at, and notes it. Reading resumes at the
first statement boundary from there on if and only if that token is no word that starts a statement.
If it is one, it is skipped, and reading resumes at the first boundary behind it. -/
theorem declaration_resumes (depth fuel : Nat) (inLoop : Bool) {c stuck : Cursor} {d : Diagnostic}
    (failed : declarationOrFail (nested depth) fuel inLoop c = .error (.fault d) stuck) :
    (∃ cause, d = .grammatical stuck.peek cause) ∧ stuck.left <:+ c.left ∧
      ∃ after, declaration (nested depth) fuel inLoop c =
          .ok none { stuck with noted := stuck.noted ++ [d], current := after } ∧
        (FirstBoundary none stuck.left { stuck with current := after }.left ↔
          startsStatement stuck.left = false) ∧
        (startsStatement stuck.left = true →
          FirstBoundary none stuck.left.tail { stuck with current := after }.left) := by
  have parallel : Parallel Eq _ _ _ :=
    parallel_declarationOrFail (nested_parallel depth) fuel inLoop
  have later := (reads_declarationOrFail (nested_sound depth) fuel inLoop).later c.state
  have shown := (Production.declarationOrFail depth fuel inLoop).shown c
  rw [failed] at shown
  generalize failed' : declarationOrFail (nested depth) fuel inLoop c.state = r at shown later
  cases shown with
  | @error _ _ t together =>
    obtain ⟨cause, here⟩ := parallel.fault_here failed'
    obtain rfl := together.state
    obtain ⟨after, moved, left⟩ := stuck.synchronize_noted d
    refine ⟨⟨cause, stuck.peek_state ▸ here⟩, later.rest, after, ?_, ?_⟩
    · rw [declaration_of_fault failed, moved]
    · rw [left]
      exact resume_first stuck.left

/-- `print nil print;` -/
def missingSemicolon : Cursor := .start
  [⟨.keyword .print, "print", 1⟩, ⟨.keyword .nil, "nil", 1⟩, ⟨.keyword .print, "print", 1⟩,
    ⟨.symbol .semicolon, ";", 1⟩, ⟨.eof, "", 1⟩] 0

/-- A statement is swallowed that starts where the one before it gave up. -/
theorem declaration_resumes_late :
    let stuck := { missingSemicolon with current := 2 }
    declarationOrFail (nested 4) 4 false missingSemicolon =
        .error (.fault (.grammatical ⟨.keyword .print, "print", 1⟩ .expectPrintEnd)) stuck ∧
      ∃ after, declaration (nested 4) 4 false missingSemicolon = .ok none { stuck with
          noted := [.grammatical ⟨.keyword .print, "print", 1⟩ .expectPrintEnd],
          current := after } ∧
        ¬ FirstBoundary none stuck.left { stuck with current := after }.left ∧
        FirstBoundary none stuck.left.tail { stuck with current := after }.left := by
  intro stuck
  have failed : declarationOrFail (nested 4) 4 false missingSemicolon =
      .error (.fault (.grammatical ⟨.keyword .print, "print", 1⟩ .expectPrintEnd)) stuck := rfl
  obtain ⟨-, -, after, resumed, first, behind⟩ := declaration_resumes 4 4 false failed
  exact ⟨failed, after, resumed, fun boundary => Bool.noConfusion (first.1 boundary), behind rfl⟩

end Lox.Grammar
