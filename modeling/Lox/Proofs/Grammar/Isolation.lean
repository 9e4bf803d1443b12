import Lox.Proofs.Grammar.Sentence

/-!
# Declarations inside a sentence

A declaration that starts in a sentence ends with it, or gives up inside it and has reading resume
inside it or right behind it. What it does depends on nothing behind the sentence, as long as no
`else` comes there (`declaration_isolated`).
-/

namespace Lox.Grammar

open EStateM (Result)

variable {A A' : Setting}

/-! ### Parts of statements -/

section Parts

variable {size fuel fuel' : Nat} (room : size ≤ fuel) (room' : size ≤ fuel')

include room room'

theorem isolated_someExpression :
    Isolated A A' size (some <$> expression fuel) (some <$> expression fuel') (Inside Any) :=
  (isolated_expression room room').map fun _ _ _ holds => ⟨holds.1, trivial⟩

theorem isolated_optionalExpression (follower : Kind) :
    Isolated A A' size (optionalExpression fuel follower) (optionalExpression fuel' follower)
      (Inside Any) :=
  Isolated.sees _ fun _ =>
    Isolated.ite (Isolated.pure trivial) (isolated_someExpression room room')

theorem isolated_expressionStatement :
    Isolated A A' size (expressionStatement fuel) (expressionStatement fuel') Past :=
  (isolated_expression room room').bind fun _ _ _ => Isolated.finishing

theorem isolated_varDeclaration :
    Isolated A A' size (varDeclaration fuel) (varDeclaration fuel') Past := by
  refine Isolated.expecting (by decide) fun _ _ _ =>
    Isolated.accepting (by decide) (fun _ _ _ => ?_) ?_
  · exact (isolated_someExpression (by omega) (by omega)).bind fun _ _ _ => Isolated.finishing
  · exact (Isolated.pure (R := Any) trivial).bind fun _ _ _ => Isolated.finishing

theorem isolated_returnStatement (keyword : Token) :
    Isolated A A' size (returnStatement keyword fuel) (returnStatement keyword fuel') Past :=
  (isolated_optionalExpression room room' _).bind fun _ _ _ => Isolated.finishing

theorem isolated_printStatement :
    Isolated A A' size (printStatement fuel) (printStatement fuel') Past :=
  (isolated_expression room room').bind fun _ _ _ => Isolated.finishing

end Parts

theorem isolated_breakStatement {size : Nat} (keyword : Token) (inLoop : Bool) :
    Isolated A A' size (breakStatement keyword inLoop) (breakStatement keyword inLoop) Past := by
  have ending : Isolated A A' size
      (expect (.symbol .semicolon) .expectBreakEnd >>= fun _ => pure (Stmt.break keyword))
      (expect (.symbol .semicolon) .expectBreakEnd >>= fun _ => pure (Stmt.break keyword)) Past :=
    Isolated.finishing
  exact Isolated.ite (Isolated.noting ending) ending

/-! ### Statements -/

/-- No `else` comes right behind the sentence. -/
def Setting.Closed (A : Setting) : Prop := Stops [.keyword .else] A.behind

section Statements

variable {n n' : Nested State} {size fuel fuel' : Nat}
  (h : ∀ inLoop, Isolated A A' size (n.statement inLoop) (n'.statement inLoop) Past)
  (room : size + 1 ≤ fuel) (room' : size + 1 ≤ fuel')

include h room room'

theorem isolated_whileStatement :
    Isolated A A' size (whileStatement n fuel) (whileStatement n' fuel') Past :=
  Isolated.expecting (by decide) fun _ _ _ =>
    (isolated_expression (by omega) (by omega)).bind fun _ _ _ =>
    Isolated.expecting (by decide) fun _ _ _ =>
    ((h true).mono (by omega)).after fun holds _ state => .ok state (Nat.le_refl _) holds

/-- The branch ends the sentence, and there is no `else` to go on with. -/
theorem isolated_ifStatement (closed : A.Closed) (closed' : A'.Closed) (inLoop : Bool) :
    Isolated A A' size (ifStatement n fuel inLoop) (ifStatement n' fuel' inLoop) Past := by
  refine Isolated.expecting (by decide) fun _ _ _ =>
    (isolated_expression (by omega) (by omega)).bind fun _ _ _ =>
    Isolated.expecting (by decide) fun _ _ _ =>
    ((h inLoop).mono (by omega)).after fun {ts _ _ s s'} past _ state => ?_
  obtain rfl : ts = [] := past
  have unread : Stops [.keyword .else] s.rest := state.rest ▸ closed
  have unread' : Stops [.keyword .else] s'.rest := state.rest' ▸ closed'
  dsimp only [accept?]
  rw [bind_of_ok (acceptAny?_of_stops unread), bind_of_ok (acceptAny?_of_stops unread')]
  exact .ok state (Nat.le_refl _) rfl

theorem isolated_statement (closed : A.Closed) (closed' : A'.Closed) (inLoop : Bool) :
    Isolated A A' (size + 1) (statement n fuel inLoop) (statement n' fuel' inLoop) Past := by
  refine Isolated.accepting (by decide) (fun t plain opens => ?_)
    (isolated_expressionStatement room room')
  simp only [statementOpeners, List.mem_cons, List.not_mem_nil, or_false] at opens
  rcases opens with first | first | first | first | first | first | first <;> simp only [first]
  · exact absurd (first ▸ by decide) plain
  · exact isolated_ifStatement h room room' closed closed' inLoop
  · exact isolated_whileStatement h room room'
  · exact isolated_breakStatement t inLoop
  · exact isolated_returnStatement (by omega) (by omega) t
  · exact absurd (first ▸ by decide) plain
  · exact isolated_printStatement (by omega) (by omega)

/-! ### Declarations -/

omit h room room' in
/-- A function needs a brace, so the rule gives up inside the sentence. -/
theorem isolated_routine (r : Routine) (room : size ≤ fuel) (room' : size ≤ fuel') :
    Isolated A A' size (routine r n fuel) (routine r n' fuel') Past := by
  have parameter : Isolated A A' (size - 1 - 1) (expect .identifier .expectParameterName)
      (expect .identifier .expectParameterName) (Inside Any) := by
    rw [← bind_pure (expect .identifier .expectParameterName)]
    exact Isolated.expecting (by decide) fun _ _ _ => Isolated.pure trivial
  exact Isolated.expecting (by decide) fun _ _ _ => Isolated.expecting (by decide) fun _ _ _ =>
    (isolated_listed _ parameter (by omega) (by omega)).bind fun _ _ _ =>
    Isolated.expecting (by decide) fun _ _ _ =>
    Isolated.expecting (by decide) fun _ plain isBrace => absurd (isBrace ▸ by decide) plain

omit h room room' in
theorem isolated_superclass? :
    Isolated A A' size superclass? superclass? (Inside Any) :=
  Isolated.accepting (by decide) (fun _ _ _ => Isolated.expecting (by decide) fun _ _ _ =>
    Isolated.numbering fun _ _ => Isolated.pure trivial) (Isolated.pure trivial)

omit h room room' in
/-- A class needs a brace, so the rule gives up inside the sentence. -/
theorem isolated_classDeclaration :
    Isolated A A' size (classDeclaration n fuel) (classDeclaration n' fuel') Past :=
  Isolated.expecting (by decide) fun _ _ _ => isolated_superclass?.bind fun _ _ _ =>
    Isolated.expecting (by decide) fun _ plain isBrace => absurd (isBrace ▸ by decide) plain

theorem isolated_declarationOrFail (closed : A.Closed) (closed' : A'.Closed) (inLoop : Bool) :
    Isolated A A' (size + 1) (declarationOrFail n fuel inLoop) (declarationOrFail n' fuel' inLoop)
      Past := by
  refine Isolated.accepting (by decide) (fun t _ _ => ?_)
    (isolated_statement h room room' closed closed' inLoop)
  dsimp only
  split
  · exact isolated_classDeclaration
  · exact (isolated_routine .function (by omega) (by omega)).map fun _ _ _ past => past
  · exact isolated_varDeclaration (by omega) (by omega)

end Statements

theorem nested_isolated (closed : A.Closed) (closed' : A'.Closed) {size depth depth' : Nat}
    (room : size ≤ depth) (room' : size ≤ depth') (inLoop : Bool) :
    Isolated A A' size ((nested depth).statement inLoop) ((nested depth').statement inLoop)
      Past := by
  induction size generalizing depth depth' inLoop with
  | zero => exact Isolated.zero
  | succ size ih =>
    obtain ⟨depth, rfl⟩ := Nat.exists_eq_add_one_of_ne_zero (Nat.ne_zero_of_lt room)
    obtain ⟨depth', rfl⟩ := Nat.exists_eq_add_one_of_ne_zero (Nat.ne_zero_of_lt room')
    exact isolated_statement (ih (by omega) (by omega)) room room' closed closed' inLoop

/-! ### Resuming -/

/-- The end of the sentence, or a place inside it. -/
def Within (ts : List Token) : Prop := ts = [] ∨ Sentence ts

theorem skipFrom_semicolon (ts : List Token) : skipFrom (.symbol .semicolon) ts = ts := by
  cases ts with
  | nil => rfl
  | cons t ts => exact if_pos (.inl rfl)

/-- Skipping stops at the end of the sentence at the latest. -/
theorem skipFrom_within {ts : List Token} (inside : Sentence ts) {previous : Kind}
    (other : previous ≠ .symbol .semicolon) :
    ∃ us, (∀ more, skipFrom previous (ts ++ more) = us ++ more) ∧ us.length ≤ ts.length ∧
      Within us := by
  induction inside generalizing previous with
  | @stop t isStop =>
    have goes : ¬ (previous = .symbol .semicolon ∨ resumesAt t.kind = true) := by
      simp [other, isStop, resumesAt_semicolon]
    refine ⟨[], fun more => ?_, Nat.zero_le _, .inl rfl⟩
    rw [List.cons_append, skipFrom, if_neg goes, isStop]
    exact skipFrom_semicolon more
  | @cons t ts plain rest ih =>
    by_cases stops : previous = .symbol .semicolon ∨ resumesAt t.kind = true
    · exact ⟨t :: ts, fun more => if_pos stops, Nat.le_refl _, .inr (.cons plain rest)⟩
    · obtain ⟨us, skipped, short, within⟩ := ih (goesOn_of_plain plain)
      exact ⟨us, fun more => (if_neg stops).trans (skipped more), Nat.le_succ_of_le short, within⟩

/-- A rule that gives up in a sentence has reading resume in it or right behind it. -/
theorem resume_within {ts : List Token} (inside : Sentence ts) :
    ∃ us, (∀ more, resume (ts ++ more) = us ++ more) ∧ us.length < ts.length ∧ Within us := by
  cases inside with
  | @stop t isStop =>
    refine ⟨[], fun more => ?_, Nat.zero_lt_one, .inl rfl⟩
    show skipFrom t.kind more = more
    rw [isStop, skipFrom_semicolon]
  | @cons t ts plain rest =>
    obtain ⟨us, skipped, short, within⟩ := skipFrom_within rest (goesOn_of_plain plain)
    exact ⟨us, skipped, Nat.lt_succ_of_le short, within⟩

/-- Two parses that read a declaration inside the same sentence go on at the same place in it, or
right behind it, and have noted the same faults. -/
theorem declaration_isolated (closed : A.Closed) (closed' : A'.Closed) {depth depth' : Nat}
    {ts : List Token} {s s' : State} (inside : Sentence ts) (room : ts.length ≤ depth)
    (room' : ts.length ≤ depth') (inLoop : Bool) (state : Beside A A' ts s s') :
    ∃ us o o' t t', declaration (nested depth) depth inLoop s = .ok o t ∧
      declaration (nested depth') depth' inLoop s' = .ok o' t' ∧ Beside A A' us t t' ∧
      us.length < ts.length ∧ Within us := by
  obtain ⟨size, long⟩ := Nat.exists_eq_add_one_of_ne_zero (n := ts.length) (by
    obtain ⟨t, us, rfl⟩ := inside.starts
    exact Nat.succ_ne_zero _)
  have statements : ∀ inLoop, Isolated A A' size ((nested depth).statement inLoop)
      ((nested depth').statement inLoop) Past :=
    nested_isolated closed closed' (by omega) (by omega)
  have done := isolated_declarationOrFail statements (long ▸ room) (long ▸ room') closed closed'
    inLoop ts s s' inside (Nat.le_of_eq long) state
  generalize run : declarationOrFail (nested depth) depth inLoop s = r at done
  generalize run' : declarationOrFail (nested depth') depth' inLoop s' = r' at done
  cases done with
  | @ok us _ _ _ _ state short past =>
    obtain rfl : us = [] := past
    exact ⟨[], _, _, _, _, declaration_of_ok run, declaration_of_ok run', state, by simp; omega,
      .inl rfl⟩
  | @fault vs d t t' state short stopped =>
    obtain ⟨us, resumed, shorter, within⟩ := resume_within stopped
    have moved := (state.noting d).moved us
    rw [← resumed, ← resumed, ← state.rest, ← state.rest'] at moved
    exact ⟨us, none, none, _, _, declaration_of_fault run, declaration_of_fault run', moved,
      Nat.lt_of_lt_of_le shorter short, within⟩

end Lox.Grammar
