import Lox.Proofs.Run.Steady
import Lox.Proofs.Run.Tandem
import Lox.Proofs.Scoping.Session
import Lox.Proofs.Session.Reading

/-!
# Machines that go on in step

Twins are machines in step none of whose nodes to come is known to either of them. Programs in step
leave them twins and come to the same (`Twin.runParsed`), whatever numbers their nodes have and
whatever the tables hold for nodes of no program that runs (`Twin.advance`).
-/

namespace Lox

open EStateM (Result)

/-! ### New identities -/

theorem zip_unique {α β : Type} {as : List α} {bs : List β} (distinct : as.Nodup)
    (distinct' : bs.Nodup) {a a' : α} {b b' : β} (h : (a, b) ∈ as.zip bs)
    (h' : (a', b') ∈ as.zip bs) : a = a' ↔ b = b' := by
  obtain ⟨n, found⟩ := List.mem_iff_getElem?.1 h
  obtain ⟨n', found'⟩ := List.mem_iff_getElem?.1 h'
  obtain ⟨left, right⟩ := List.getElem?_zip_eq_some.1 found
  obtain ⟨left', right'⟩ := List.getElem?_zip_eq_some.1 found'
  constructor
  · rintro rfl
    obtain ⟨inside, -⟩ := List.getElem?_eq_some_iff.1 left
    obtain rfl := (List.getElem?_inj inside distinct).1 (left.trans left'.symm)
    exact Option.some.inj (right.symm.trans right')
  · rintro rfl
    obtain ⟨inside, -⟩ := List.getElem?_eq_some_iff.1 right
    obtain rfl := (List.getElem?_inj inside distinct').1 (right.trans right'.symm)
    exact Option.some.inj (left.symm.trans left')

namespace Pairing

/-- Identities at the same place go together. -/
def placed (is js : List NodeId) (lines : Nat → Nat → Prop) : Pairing :=
  ⟨fun i j => (i, j) ∈ is.zip js, lines⟩

/-- Identities at the same place go together, too. -/
def extend (P : Pairing) (is js : List NodeId) : Pairing :=
  ⟨fun i j => P.ids i j ∨ (i, j) ∈ is.zip js, P.lines⟩

theorem le_extend (P : Pairing) (is js : List NodeId) : P.Le (P.extend is js) :=
  ⟨fun _ _ go => .inl go, fun _ _ go => go⟩

theorem placed_le (P : Pairing) (is js : List NodeId) : (placed is js P.lines).Le (P.extend is js) :=
  ⟨fun _ _ go => .inr go, fun _ _ go => go⟩

end Pairing

/-- Programs with lines in step are paired by the places of their identities. -/
theorem PairedBody.placed {lines : Nat → Nat → Prop} {ss ss' : List Stmt}
    (h : PairedBody (.ofLines lines) ss ss') :
    PairedBody (.placed (Stmt.idsAll ss) (Stmt.idsAll ss') lines) ss ss' := by
  have lined : (Pairing.ofLines lines).Lined (.placed (Stmt.idsAll ss) (Stmt.idsAll ss') lines) :=
    fun _ _ go => go
  exact PairedStmt.alongAll lined ss h
    (List.forall₂_iff_zip.2 ⟨(PairedStmt.idsAll ss h).length_eq, fun {_ _} mem => mem⟩)

/-! ### Tables -/

theorem lookup_paired {P : Pairing} {records records' : List (NodeId × Nat)}
    (h : List.Forall₂ (Binding.PairedRecord P) records records')
    (unique : ∀ i i' j j', P.ids i j → P.ids i' j' → (i = i' ↔ j = j')) {i j : NodeId}
    (go : P.ids i j) : records.lookup i = records'.lookup j := by
  induction h with
  | nil => rfl
  | @cons r r' _ _ first _ ih =>
    obtain ⟨together, same⟩ := first
    have decide : (i == r.1) = (j == r'.1) := by
      rw [Bool.eq_iff_iff, beq_iff_eq, beq_iff_eq]
      exact unique _ _ _ _ go together
    rw [List.lookup_cons, List.lookup_cons, decide, ih, same]

/-- The second machine is the first but for what concerns nodes that were new to it. -/
structure Advances (m n : Machine) : Prop where
  same : { m with distances := n.distances, nextNode := n.nextNode } = n
  le : m.nextNode ≤ n.nextNode
  kept : ∀ i, i < m.nextNode → n.distances[i]? = m.distances[i]?
  later : ∀ i, n.nextNode ≤ i → n.distances[i]? = m.distances[i]?

section Bindings

variable {m : Machine} {high : Nat}

theorem Advances.refl (m : Machine) : Advances m m :=
  ⟨rfl, Nat.le_refl _, fun _ _ => rfl, fun _ _ => rfl⟩

theorem advances_next (le : m.nextNode ≤ high) : Advances m { m with nextNode := high } :=
  ⟨rfl, le, fun _ _ => rfl, fun _ _ => rfl⟩

theorem advances_bind {program : List Stmt} (le : m.nextNode ≤ high)
    (fresh : Fresh m.nextNode high (Stmt.idsAll program)) :
    Advances m (({ m with nextNode := high } : Machine).bind program).2 :=
  ⟨rfl, le, fun _ below => Scoping.bind_other fresh (.inl below),
    fun _ above => Scoping.bind_other fresh (.inr above)⟩

/-- The table has what was recorded for a node that was unknown before. -/
theorem bind_distance {program : List Stmt} {i : NodeId} (unknown : m.distances[i]? = none) :
    (({ m with nextNode := high } : Machine).bind program).2.distances[i]? =
      (Binding.program program).records.lookup i := by
  show (List.foldr _ m.distances (Binding.program program).records)[i]? = _
  rw [Scoping.getElem?_records, unknown, Option.or_none]

end Bindings

/-! ### Twins -/

/-- Machines in step that know none of the nodes to come. -/
structure Twin (P : Pairing) (m m' : Machine) : Prop extends PairedMachine P m m' where
  bounded : ∀ i j, P.ids i j → i < m.nextNode ∧ j < m'.nextNode
  unused : ∀ i, m.nextNode ≤ i → m.distances[i]? = none
  unused' : ∀ j, m'.nextNode ≤ j → m'.distances[j]? = none

namespace Twin

variable {P : Pairing} {m m' n n' : Machine}

theorem advance (h : Twin P m m') (step : Advances m n) (step' : Advances m' n') :
    Twin P n n' where
  toPairedMachine := by
    rw [← step.same, ← step'.same]
    refine { h.toPairedMachine with distances := fun i j go => ?_ }
    obtain ⟨below, below'⟩ := h.bounded i j go
    show n.distances[i]? = n'.distances[j]?
    rw [step.kept i below, step'.kept j below']
    exact h.distances i j go
  bounded i j go :=
    let ⟨below, below'⟩ := h.bounded i j go
    ⟨Nat.lt_of_lt_of_le below step.le, Nat.lt_of_lt_of_le below' step'.le⟩
  unused i above := (step.later i above).trans (h.unused i (Nat.le_trans step.le above))
  unused' j above := (step'.later j above).trans (h.unused' j (Nat.le_trans step'.le above))

/-- Identities may go together from now on if the tables agree on them. -/
theorem extend (h : Twin P m m') {is js : List NodeId}
    (below : ∀ i ∈ is, i < m.nextNode) (below' : ∀ j ∈ js, j < m'.nextNode)
    (agree : ∀ i j, (i, j) ∈ is.zip js → m.distances[i]? = m'.distances[j]?) :
    Twin (P.extend is js) m m' where
  toPairedMachine := h.toPairedMachine.mono (P.le_extend is js) fun i j go =>
    go.elim (h.distances i j) (agree i j)
  bounded i j go := go.elim (h.bounded i j) fun mem =>
    ⟨below i (List.of_mem_zip mem).1, below' j (List.of_mem_zip mem).2⟩
  unused := h.unused
  unused' := h.unused'

/-- More lines may go together. -/
theorem relax (h : Twin P m m') {lines : Nat → Nat → Prop}
    (lined : ∀ l l', P.lines l l' → lines l l') : Twin ⟨P.ids, lines⟩ m m' where
  toPairedMachine := h.toPairedMachine.mono ⟨fun _ _ go => go, lined⟩ h.distances
  bounded := h.bounded
  unused := h.unused
  unused' := h.unused'

/-- A computation that leaves nodes alone leaves machines twins. -/
theorem keep (h : Twin P m m') (after : PairedMachine P n n') (steady : Steady m n)
    (steady' : Steady m' n') : Twin P n n' where
  toPairedMachine := after
  bounded := by
    rw [steady.nextNode, steady'.nextNode]
    exact h.bounded
  unused := by
    rw [steady.nextNode, steady.distances]
    exact h.unused
  unused' := by
    rw [steady'.nextNode, steady'.distances]
    exact h.unused'

end Twin

/-! ### Outcomes -/

inductive PairedOutcome (lines : Nat → Nat → Prop) : Outcome Unit → Outcome Unit → Prop
  | finished : PairedOutcome lines (.finished ()) (.finished ())
  | rejected {faults faults' : List Diagnostic}
      (same : List.Forall₂ (PairedDiagnostic (.ofLines lines)) faults faults') :
      PairedOutcome lines (.rejected faults) (.rejected faults')
  | failed {e e' : RunError} (halt : PairedHalt lines (.error e) (.error e')) :
      PairedOutcome lines (.failed e) (.failed e')
  | outOfFuel : PairedOutcome lines .outOfFuel .outOfFuel

theorem PairedOutcome.eq {o o' : Outcome Unit} (h : PairedOutcome Eq o o') : o = o' := by
  cases h with
  | finished | outOfFuel => rfl
  | rejected same => rw [paired_faults same]
  | failed halt =>
    cases halt with
    | program place cause => rw [place]
    | stream cause => rfl

section Runs

variable {P : Pairing} {m m' n n' : Machine}

theorem TandemResult.final {α β : Type} {R : α → β → Prop} {r : Result Halt Machine α}
    {r' : Result Halt Machine β} (h : TandemResult P R r r') :
    PairedMachine P (Lox.final r) (Lox.final r') := by
  cases h with
  | ok state _ => exact state
  | error state _ => exact state

theorem thenFlush_paired {x y : Eval Unit} (h : TandemResult P Eq (x m) (y m')) :
    PairedOutcome P.lines (Outcome.ofResult (thenFlush x m)).1
      (Outcome.ofResult (thenFlush y m')).1 := by
  unfold thenFlush
  generalize x m = r at h ⊢
  generalize y m' = r' at h ⊢
  cases h with
  | ok state _ =>
    dsimp only
    rw [state.sink]
    split
    · exact .failed (.stream _)
    · exact .finished
  | error state halt =>
    cases halt with
    | outOfFuel => exact .outOfFuel
    | program place cause =>
      dsimp only
      rw [state.sink]
      split
      · exact .failed (.stream _)
      · exact .failed (.program place cause)
    | stream cause =>
      dsimp only
      rw [state.sink]
      split
      · exact .failed (.stream _)
      · exact .failed (.stream cause)

theorem Twin.statements (h : Twin P m m') (fuel : Nat) {ss ss' : List Stmt}
    (same : PairedBody P ss ss') :
    PairedOutcome P.lines (Outcome.ofResult (thenFlush (runAll fuel ss) m)).1
      (Outcome.ofResult (thenFlush (runAll fuel ss') m')).1 ∧
    Twin P (Outcome.ofResult (thenFlush (runAll fuel ss) m)).2
      (Outcome.ofResult (thenFlush (runAll fuel ss') m')).2 := by
  have done := runAll_tandem fuel same m m' h.toPairedMachine
  refine ⟨thenFlush_paired done, ?_⟩
  rw [ofResult_thenFlush, ofResult_thenFlush]
  exact h.keep done.final (runAll_follows fuel ss m) (runAll_follows fuel ss' m')

end Runs

/-! ### Programs that have been read -/

/-- The nodes of a tree that was read have numbers of their own. -/
structure Numbered {α : Type} (ids : α → List NodeId) (nextId : NodeId)
    (parsed : Grammar.Parsed α) : Prop where
  le : nextId ≤ parsed.nextId
  fresh : ∀ tree, parsed.result = .ok tree → Fresh nextId parsed.nextId (ids tree)

theorem compile_numbered (source : String) (nextId : NodeId) :
    Numbered Stmt.idsAll nextId (compile source nextId) :=
  ⟨Scoping.compile_nextId_le source nextId, fun _ read => (Scoping.compile_good read).1⟩

theorem compileExpression_numbered (source : String) (nextId : NodeId) :
    Numbered Expr.ids nextId (compileExpression source nextId) := by
  unfold compileExpression
  dsimp only
  split
  · exact ⟨Grammar.parseExpression_nextId_le _ nextId,
      fun _ read => (Grammar.parseExpression_good read).1⟩
  · exact ⟨Nat.le_refl nextId, fun _ read => nomatch read⟩

theorem walk_paired {P : Pairing} {ss ss' : List Stmt} (same : PairedBody P ss ss') :
    Binding.PairedWalk P .start .start (Binding.program ss) (Binding.program ss') := by
  rw [Binding.program_eq, Binding.program_eq]
  exact Binding.paired_stmts .program ss same (.start P rfl)

theorem walk_faults {lines : Nat → Nat → Prop} {ss ss' : List Stmt}
    (same : PairedBody (.ofLines lines) ss ss') :
    List.Forall₂ (PairedDiagnostic (.ofLines lines)) (Binding.program ss).faults
      (Binding.program ss').faults := by
  obtain ⟨more, more', known, known', same⟩ := (walk_paired same).faults
  rw [known, known']
  exact same

theorem walk_clean {lines : Nat → Nat → Prop} {ss ss' : List Stmt}
    (same : PairedBody (.ofLines lines) ss ss') (clean : (Binding.program ss).faults = []) :
    (Binding.program ss').faults = [] := by
  have faults := walk_faults same
  rw [clean] at faults
  exact List.forall₂_nil_left_iff.1 faults

theorem walk_lookup {lines : Nat → Nat → Prop} {ss ss' : List Stmt}
    (same : PairedBody (.ofLines lines) ss ss') (distinct : (Stmt.idsAll ss).Nodup)
    (distinct' : (Stmt.idsAll ss').Nodup) {i j : NodeId}
    (go : (i, j) ∈ (Stmt.idsAll ss).zip (Stmt.idsAll ss')) :
    (Binding.program ss).records.lookup i = (Binding.program ss').records.lookup j := by
  obtain ⟨new, new', known, known', paired⟩ := (walk_paired same.placed).records
  rw [known, known']
  exact lookup_paired (List.rel_append paired .nil)
    (fun _ _ _ _ h h' => zip_unique distinct distinct' h h') go

/-- Programs in step leave the tables in step. -/
theorem Twin.bind {P : Pairing} {m m' : Machine} (h : Twin P m m') {ss ss' : List Stmt}
    {high high' : NodeId} (le : m.nextNode ≤ high) (le' : m'.nextNode ≤ high')
    (fresh : Fresh m.nextNode high (Stmt.idsAll ss))
    (fresh' : Fresh m'.nextNode high' (Stmt.idsAll ss'))
    (same : PairedBody (.ofLines P.lines) ss ss') :
    Twin (P.extend (Stmt.idsAll ss) (Stmt.idsAll ss'))
      (({ m with nextNode := high } : Machine).bind ss).2
      (({ m' with nextNode := high' } : Machine).bind ss').2 := by
  refine (h.advance (advances_bind le fresh) (advances_bind le' fresh')).extend
    (fun i mine => (fresh.between i mine).2) (fun j mine => (fresh'.between j mine).2)
    fun i j go => ?_
  obtain ⟨mine, mine'⟩ := List.of_mem_zip go
  rw [bind_distance (h.unused i (fresh.between i mine).1),
    bind_distance (h.unused' j (fresh'.between j mine').1)]
  exact walk_lookup same fresh.distinct fresh'.distinct go

namespace Machine

/-- Runs what has been read. -/
def runParsed (m : Machine) (fuel : Nat) (parsed : Grammar.Parsed (List Stmt)) :
    Outcome Unit × Machine :=
  let m := { m with nextNode := parsed.nextId }
  match parsed.result with
  | .ok program => m.runProgram fuel program
  | .error faults => (.rejected faults, m)

theorem run_eq (m : Machine) (fuel : Nat) (source : String) :
    m.run fuel source = m.runParsed fuel (compile source m.nextNode) := rfl

end Machine

/-- The outcomes agree, and the machines go on in step. -/
def Concur (lines : Nat → Nat → Prop) (r r' : Outcome Unit × Machine) : Prop :=
  PairedOutcome lines r.1 r'.1 ∧ ∃ P : Pairing, P.lines = lines ∧ Twin P r.2 r'.2

section Readings

variable {P : Pairing} {m m' : Machine} (h : Twin P m m') (fuel : Nat)

include h

theorem Twin.runProgram {ss ss' : List Stmt} {high high' : NodeId}
    (le : m.nextNode ≤ high) (le' : m'.nextNode ≤ high')
    (fresh : Fresh m.nextNode high (Stmt.idsAll ss))
    (fresh' : Fresh m'.nextNode high' (Stmt.idsAll ss'))
    (same : PairedBody (.ofLines P.lines) ss ss') :
    Concur P.lines (({ m with nextNode := high } : Machine).runProgram fuel ss)
      (({ m' with nextNode := high' } : Machine).runProgram fuel ss') := by
  have faults := walk_faults same
  have clean : (Binding.program ss).faults.isEmpty = (Binding.program ss').faults.isEmpty := by
    generalize (Binding.program ss).faults = ds at faults ⊢
    generalize (Binding.program ss').faults = ds' at faults ⊢
    cases faults <;> rfl
  have bound := h.bind le le' fresh fresh' same
  unfold Machine.runProgram
  dsimp only
  show Concur _ (if (Binding.program ss).faults.isEmpty then _ else _)
    (if (Binding.program ss').faults.isEmpty then _ else _)
  rw [clean]
  split
  · obtain ⟨ended, after⟩ := bound.statements fuel (same.placed.mono (P.placed_le _ _))
    exact ⟨ended, P.extend _ _, rfl, after⟩
  · exact ⟨.rejected faults, P, rfl, h.advance (advances_bind le fresh) (advances_bind le' fresh')⟩

/-- Texts that were read in step do the same to twins. -/
theorem Twin.runParsed {parsed parsed' : Grammar.Parsed (List Stmt)}
    (numbered : Numbered Stmt.idsAll m.nextNode parsed)
    (numbered' : Numbered Stmt.idsAll m'.nextNode parsed')
    (same : PairedReading P.lines (PairedBody (.ofLines P.lines)) parsed.result parsed'.result) :
    Concur P.lines (m.runParsed fuel parsed) (m'.runParsed fuel parsed') := by
  unfold Machine.runParsed
  dsimp only
  have fresh := numbered.fresh
  have fresh' := numbered'.fresh
  generalize parsed.result = r at same fresh ⊢
  generalize parsed'.result = r' at same fresh' ⊢
  cases same with
  | ok same => exact h.runProgram fuel numbered.le numbered'.le (fresh _ rfl) (fresh' _ rfl) same
  | error faults =>
    exact ⟨.rejected faults, P, rfl, h.advance (advances_next numbered.le)
      (advances_next numbered'.le)⟩

end Readings

end Lox
