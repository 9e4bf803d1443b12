import Lox.Proofs.Grammar.Progress.Expression
import Lox.Proofs.Grammar.Soundness.Statement

/-!
# Programs that are read to an end

A declaration that is given up has taken a token all the same, since resuming skips the token at
which it gave up. So every declaration takes a token (`settles_declaration`), and with a depth of
one more than the number of tokens a list of declarations is read to its end.
-/

namespace Lox.Grammar

open EStateM (Result)

/-! ### Parts of statements -/

section Parts

variable {bound fuel fuel' : Nat} (enough : bound ≤ fuel) (enough' : bound ≤ fuel')

include enough enough'

theorem settles_expressionStatement :
    Settles bound 1 (expressionStatement fuel) (expressionStatement fuel') :=
  (settles_expression enough enough').bind (n := 0)
    (fun _ => .expecting fun _ _ => .pure _) (Nat.le_refl _)

theorem settles_optionalExpression (follower : Kind) :
    Settles bound 0 (optionalExpression fuel follower) (optionalExpression fuel' follower) :=
  .seeing _ fun _ => .ite (.pure _)
    ((settles_expression enough enough').map.mono (Nat.le_refl _) (Nat.zero_le _))

theorem settles_varDeclaration :
    Settles bound 1 (varDeclaration fuel) (varDeclaration fuel') := by
  refine Settles.expecting fun name _ => ?_
  have finish : ∀ {less} (initializer : Option Expr), Settles less 0
      (do
        let _ ← expect (.symbol .semicolon) .expectVariableEnd
        return Stmt.var name initializer)
      (do
        let _ ← expect (.symbol .semicolon) .expectVariableEnd
        return Stmt.var name initializer) :=
    fun _ => .expecting fun _ _ => .pure _
  have initialized := (settles_expression enough enough').map (h := some)
  refine Settles.accepting (fun _ _ => ?_) ?_
  · exact (initialized.mono (Nat.le_trans (Nat.sub_le _ _) (Nat.sub_le _ _)) (Nat.zero_le 1)).bind
      finish (Nat.zero_le _)
  · exact (Settles.pure none).bind finish (Nat.zero_le _)

theorem settles_forInitializer :
    Settles bound 1 (forInitializer fuel) (forInitializer fuel') := by
  refine Settles.accepting (fun _ _ => .pure _) (Settles.accepting (fun _ _ => ?_) ?_)
  · exact (settles_varDeclaration enough enough').map.mono (Nat.sub_le _ _) (Nat.zero_le _)
  · exact (settles_expressionStatement enough enough').map

end Parts

theorem settles_superclass? {bound : Nat} : Settles bound 0 superclass? superclass? :=
  .accepting (fun _ _ => .expecting fun _ _ => .numbering fun _ => .pure _) (.pure _)

/-! ### Statements -/

/-- The rules that statements nest through settle. -/
structure Nested.Settles (bound : Nat) (n n' : Nested State) : Prop where
  statement : ∀ inLoop, Grammar.Settles bound 1 (n.statement inLoop) (n'.statement inLoop)
  block : ∀ inLoop, Grammar.Settles bound 1 (n.block inLoop) (n'.block inLoop)

theorem Nested.Settles.mono {bound less : Nat} {n n' : Nested State} (h : n.Settles bound n')
    (lower : less ≤ bound) : n.Settles less n' :=
  ⟨fun inLoop => (h.statement inLoop).mono lower (Nat.le_refl _),
    fun inLoop => (h.block inLoop).mono lower (Nat.le_refl _)⟩

section Statements

variable {bound fuel fuel' : Nat} {n n' : Nested State} (h : n.Settles bound n') (enough : bound ≤ fuel)
  (enough' : bound ≤ fuel')

include h enough enough'

theorem settles_forStatement : Settles bound 1 (forStatement n fuel) (forStatement n' fuel') := by
  refine Settles.expecting fun _ _ => ?_
  have initializer : Settles (bound - 1) 1 (forInitializer fuel) (forInitializer fuel') :=
    settles_forInitializer (by omega) (by omega)
  refine initializer.bind (n := 0) (fun _ => ?_) (Nat.zero_le _)
  have condition : ∀ follower, Settles (bound - 1 - 1) 0 (optionalExpression fuel follower)
      (optionalExpression fuel' follower) :=
    settles_optionalExpression (by omega) (by omega)
  refine (condition _).bind (n := 0) (fun _ => .expecting fun _ _ => ?_) (Nat.zero_le _)
  refine ((condition _).mono (by omega) (Nat.le_refl 0)).bind (n := 0)
    (fun _ => .expecting fun _ _ => ?_) (Nat.zero_le _)
  exact ((h.statement true).mono (by omega) (Nat.zero_le 1)).bind (fun _ => .pure _) (Nat.zero_le _)

theorem settles_whileStatement :
    Settles bound 1 (whileStatement n fuel) (whileStatement n' fuel') := by
  refine Settles.expecting fun _ _ => ?_
  have condition := (settles_expression enough enough').mono (Nat.sub_le bound 1) (Nat.zero_le 1)
  refine condition.bind (n := 0) (fun _ => .expecting fun _ _ => ?_) (Nat.zero_le _)
  exact ((h.statement true).mono (by omega) (Nat.zero_le 1)).bind (fun _ => .pure _) (Nat.zero_le _)

theorem settles_ifStatement (inLoop : Bool) :
    Settles bound 1 (ifStatement n fuel inLoop) (ifStatement n' fuel' inLoop) := by
  refine Settles.expecting fun _ _ => ?_
  have condition := (settles_expression enough enough').mono (Nat.sub_le bound 1) (Nat.zero_le 1)
  refine condition.bind (n := 0) (fun _ => .expecting fun _ _ => ?_) (Nat.zero_le _)
  have branch : ∀ {less}, less ≤ bound →
      Settles less 0 (n.statement inLoop) (n'.statement inLoop) :=
    fun lower => (h.statement inLoop).mono lower (Nat.zero_le 1)
  refine (branch (by omega)).bind (n := 0) (fun _ => ?_) (Nat.zero_le _)
  refine Settles.accepting (fun _ _ => ?_) ?_
  · exact (branch (by omega)).map.bind (fun _ => .pure _) (Nat.zero_le _)
  · exact (Settles.pure none).bind (fun _ => .pure _) (Nat.zero_le _)

omit h enough enough' in
theorem settles_breakStatement (keyword : Token) (inLoop : Bool) :
    Settles bound 1 (breakStatement keyword inLoop) (breakStatement keyword inLoop) :=
  have finish := Settles.expecting fun _ _ => .pure _
  .ite (.noting keyword _ finish) finish

omit h in
theorem settles_returnStatement (keyword : Token) :
    Settles bound 1 (returnStatement keyword fuel) (returnStatement keyword fuel') :=
  (settles_optionalExpression enough enough' _).bind (n := 1)
    (fun _ => .expecting fun _ _ => .pure _) (Nat.le_refl _)

omit h in
theorem settles_printStatement : Settles bound 1 (printStatement fuel) (printStatement fuel') :=
  (settles_expression enough enough').bind (n := 0)
    (fun _ => .expecting fun _ _ => .pure _) (Nat.le_refl _)

/-- Statements nest behind the word that tells which one it is. -/
theorem settles_statement (inLoop : Bool) :
    Settles (bound + 1) 1 (statement n (fuel + 1) inLoop) (statement n' (fuel' + 1) inLoop) := by
  have more : bound ≤ fuel + 1 := Nat.le_succ_of_le enough
  have more' : bound ≤ fuel' + 1 := Nat.le_succ_of_le enough'
  refine Settles.accepting (fun t _ => ?_)
    (settles_expressionStatement (Nat.succ_le_succ enough) (Nat.succ_le_succ enough'))
  suffices inner : Settles bound 1 _ _ from inner.mono (Nat.le_refl _) (Nat.zero_le _)
  dsimp only
  split
  · exact settles_forStatement h more more'
  · exact settles_ifStatement h more more' inLoop
  · exact settles_whileStatement h more more'
  · exact settles_breakStatement t inLoop
  · exact settles_returnStatement more more' t
  · exact settles_printStatement more more'
  · exact (h.block inLoop).map

/-! ### Declarations -/

theorem settles_routine (r : Routine) :
    Settles bound 1 (routine r n fuel) (routine r n' fuel') := by
  refine Settles.expecting fun _ _ => .expecting fun _ _ => ?_
  have parameters : Settles bound 0
      (listed (expect .identifier .expectParameterName) .tooManyParameters fuel)
      (listed (expect .identifier .expectParameterName) .tooManyParameters fuel') :=
    settles_listed (.expect _ _) _ enough enough'
  refine (parameters.mono (by omega) (Nat.le_refl 0)).bind (n := 0)
    (fun _ => .expecting fun _ _ => .expecting fun _ _ => ?_) (Nat.zero_le _)
  exact ((h.block false).mono (by omega) (Nat.zero_le 1)).bind (fun _ => .pure _) (Nat.zero_le _)

theorem settles_methods : Settles bound 0 (methods n fuel) (methods n' fuel') := by
  induction bound generalizing fuel fuel' with
  | zero => exact .none
  | succ bound ih =>
    obtain ⟨fuel, rfl⟩ := Nat.exists_eq_add_one_of_ne_zero (n := fuel) (by omega)
    obtain ⟨fuel', rfl⟩ := Nat.exists_eq_add_one_of_ne_zero (n := fuel') (by omega)
    refine Settles.seeing _ fun _ => .ending fun _ => .ite (.pure _) ?_
    have others : Settles bound 0 (methods n fuel) (methods n' fuel') :=
      ih (h.mono (Nat.le_succ bound)) (by omega) (by omega)
    exact (settles_routine h enough enough' .method).bind
      (fun first => others.bind (fun _ => .pure _) (Nat.zero_le _)) (Nat.zero_le _)

theorem settles_classDeclaration :
    Settles bound 1 (classDeclaration n fuel) (classDeclaration n' fuel') := by
  refine Settles.expecting fun _ _ => settles_superclass?.bind (n := 0)
    (fun _ => .expecting fun _ _ => ?_) (Nat.zero_le _)
  exact ((settles_methods h enough enough').mono (by omega) (Nat.le_refl 0)).bind (n := 0)
    (fun _ => .expecting fun _ _ => .pure _) (Nat.zero_le _)

theorem settles_declarationOrFail (inLoop : Bool) :
    Settles (bound + 1) 1 (declarationOrFail n (fuel + 1) inLoop)
      (declarationOrFail n' (fuel' + 1) inLoop) := by
  have more : bound ≤ fuel + 1 := Nat.le_succ_of_le enough
  have more' : bound ≤ fuel' + 1 := Nat.le_succ_of_le enough'
  refine Settles.accepting (fun t _ => ?_) (settles_statement h enough enough' inLoop)
  suffices inner : Settles bound 1 _ _ from inner.mono (Nat.le_refl _) (Nat.zero_le _)
  dsimp only
  split
  · exact settles_classDeclaration h more more'
  · exact (settles_routine h more more' .function).map
  · exact settles_varDeclaration more more'

omit h enough enough' in
theorem resume_shorter {ts : List Token} (some : ts ≠ []) : (resume ts).length < ts.length := by
  cases ts with
  | nil => exact absurd rfl some
  | cons t rest => exact Nat.lt_succ_of_le (skipFrom_suffix t.kind rest).length_le

/-- A declaration never gives up for good, and takes a token if there is one. -/
theorem settles_declaration (inLoop : Bool) {s : State} (room : s.rest.length < bound + 1)
    (more : s.rest ≠ []) :
    SettlesAt 1 (declaration n (fuel + 1) inLoop) (declaration n' (fuel' + 1) inLoop) s ∧
      ∃ o t, declaration n (fuel + 1) inLoop s = .ok o t := by
  obtain ⟨same, advances⟩ := settles_declarationOrFail h enough enough' inLoop s room
  match run : declarationOrFail n (fuel + 1) inLoop s, advances with
  | .ok d t, moved =>
    have done := declaration_of_ok run
    have done' := declaration_of_ok (same.symm.trans run)
    exact ⟨⟨done.trans done'.symm, done ▸ moved⟩, _, _, done⟩
  | .error (.fault d) t, moved =>
    have done := declaration_of_fault run
    have done' := declaration_of_fault (same.symm.trans run)
    refine ⟨⟨done.trans done'.symm, done ▸ ?_⟩, _, _, done⟩
    have left : t.rest.length ≤ s.rest.length := moved
    -- If nothing was taken before it was given up, resuming skips the token at hand.
    have some : 0 < s.rest.length := List.length_pos_iff.2 more
    show (resume t.rest).length + 1 ≤ s.rest.length
    by_cases ended : t.rest = []
    · rw [ended]
      exact some
    · have := resume_shorter ended
      omega

end Statements

/-! ### Declarations up to the end -/

section Turn

variable {σ : Type} [Reader σ] {closer : Option Kind} {one : RuleOf σ (Option Stmt)} {s t : σ}

/-- One turn of reading declarations, before the turns behind it. -/
def declarationsTurn (closer : Option Kind) (one : RuleOf σ (Option Stmt))
    (next : RuleOf σ (List Stmt)) : RuleOf σ (List Stmt) := do
  let closed ← closer.elim (pure false) sees
  if closed || (← atEnd) then return []
  else
    match ← one with
    | some s => return s :: (← next)
    | none => next

theorem declarationsTurn_ended (ended : (closer.any (Reader.check · s)) || Reader.isAtEnd s)
    (next : RuleOf σ (List Stmt)) : declarationsTurn closer one next s = .ok [] s := by
  cases closer <;>
  · show (if _ || Reader.isAtEnd s then _ else _ : RuleOf σ _) s = _
    rw [if_pos (by simpa using ended)]
    rfl

theorem declarationsTurn_goes {o : Option Stmt}
    (goes : ¬ ((closer.any (Reader.check · s)) || Reader.isAtEnd s)) (run : one s = .ok o t)
    (next : RuleOf σ (List Stmt)) :
    declarationsTurn closer one next s = ((o.toList ++ ·) <$> next) t := by
  have round : declarationsTurn closer one next s = (one >>= fun
      | some d => do return d :: (← next)
      | none => next) s := by
    cases closer <;>
    · show (if _ || Reader.isAtEnd s then _ else _ : RuleOf σ _) s = _
      rw [if_neg (by simpa using goes)]
  rw [round, bind_of_ok run]
  cases o with
  | none => exact congrFun (id_map next).symm t
  | some d => exact congrFun (bind_pure_comp (d :: ·) next) t

end Turn

/-- If one declaration always comes to something and takes a token, so do all of them up to the
end. -/
theorem settles_declarations {closer : Option Kind} {one one' : Rule (Option Stmt)} {bound : Nat}
    (h : ∀ s, s.rest.length < bound → s.rest ≠ [] →
      SettlesAt 1 one one' s ∧ ∃ o t, one s = .ok o t) {fuel fuel' : Nat}
    (enough : bound ≤ fuel) (enough' : bound ≤ fuel') {s : State} (room : s.rest.length < bound) :
    SettlesAt 0 (declarations closer one fuel) (declarations closer one' fuel') s ∧
      ∃ ss t, declarations closer one fuel s = .ok ss t := by
  -- By what is left and not by the turns, since the two runs have different numbers of turns.
  induction bound generalizing fuel fuel' s with
  | zero => exact absurd room (Nat.not_lt_zero _)
  | succ bound ih =>
    obtain ⟨fuel, rfl⟩ := Nat.exists_eq_add_one_of_ne_zero (n := fuel) (by omega)
    obtain ⟨fuel', rfl⟩ := Nat.exists_eq_add_one_of_ne_zero (n := fuel') (by omega)
    have turn : ∀ (one : Rule (Option Stmt)) fuel, declarations closer one (fuel + 1) =
        declarationsTurn closer one (declarations closer one fuel) := fun _ _ => rfl
    by_cases ended : (closer.any (Reader.check · s)) || Reader.isAtEnd s
    · have empty : ∀ one fuel, declarations closer one (fuel + 1) s = .ok [] s :=
        fun one fuel => (congrFun (turn one fuel) s).trans (declarationsTurn_ended ended _)
      refine ⟨⟨by rw [empty, empty], ?_⟩, [], s, empty _ _⟩
      rw [empty]
      exact Nat.le_refl _
    · obtain ⟨⟨same, advances⟩, o, t, run⟩ := h s room fun empty => ended (by simp [empty])
      have run' : one' s = .ok o t := same.symm.trans run
      rw [run] at advances
      have moved : t.rest.length + 1 ≤ s.rest.length := advances
      obtain ⟨⟨same', advances'⟩, ss, u, others⟩ :
          SettlesAt 0 (declarations closer one fuel) (declarations closer one' fuel') t ∧
            ∃ ss u, declarations closer one fuel t = .ok ss u :=
        ih (fun s room more => h s (Nat.lt_succ_of_lt room) more) (by omega) (by omega) (by omega)
      have others' := same'.symm.trans others
      have done : ∀ {one : Rule (Option Stmt)} {fuel}, one s = .ok o t →
          declarations closer one fuel t = .ok ss u →
          declarations closer one (fuel + 1) s = .ok (o.toList ++ ss) u := by
        intro one fuel run others
        rw [turn, declarationsTurn_goes ended run, ← bind_pure_comp, bind_of_ok others]
        rfl
      refine ⟨⟨(done run others).trans (done run' others').symm, ?_⟩, _, _, done run others⟩
      rw [others] at advances'
      rw [done run others]
      exact Nat.le_trans advances' (Nat.le_of_succ_le moved)

end Lox.Grammar
