import Lox.Proofs.Session.Identities
import Lox.Proofs.Session.Pieces
import Lox.Proofs.Session.Supported

/-!
# The order of functions

Bodies of functions find each other and all other globals by name when they run. So two functions
at the top level, one right after the other, may be written in either order: a program does the
same (`functions_exchange`). The runs differ in the identities of the two functions only, which no
program can see.
-/

namespace Lox

open EStateM (Result)

/-! ### Names -/

section Names

open Binding

variable {ss rs : List Stmt} {s t : Stmt}

theorem self_of_subset {P : Pairing} (self : PairedBody P ss ss) (sub : rs ⊆ ss) :
    PairedBody P rs rs :=
  List.forall₂_same.2 fun s mem => List.forall₂_same.1 self s (sub mem)

/-- What the walk finds in statements at top level does not depend on those before them. -/
theorem program_append (self : PairedBody (.ofLines Eq) rs rs) (ss : List Stmt) :
    (program (ss ++ rs)).records = (program rs).records ++ (program ss).records ∧
      (program (ss ++ rs)).faults = (program ss).faults ++ (program rs).faults := by
  constructor
  · obtain ⟨new, known, paired⟩ := sequel_records self ss
    have same : (program rs).records = new := by
      refine List.forall₂_eq_eq_eq ▸ paired.imp fun p q both => Prod.ext ?_ both.2
      obtain ⟨n, found⟩ := List.mem_iff_getElem?.1 both.1
      obtain ⟨left, right⟩ := List.getElem?_zip_eq_some.1 found
      exact Option.some.inj (left.symm.trans right)
    rw [known, same]
  · obtain ⟨more, more', known, known', paired⟩ := (program_sequel ss self).faults
    rw [known', known, paired_faults paired]
    rfl

/-- A program in four parts. -/
theorem program_parts (self : PairedBody (.ofLines Eq) (s :: t :: rs) (s :: t :: rs)) :
    (program (ss ++ s :: t :: rs)).records = (program rs).records ++ (program [t]).records ++
        (program [s]).records ++ (program ss).records ∧
      (program (ss ++ s :: t :: rs)).faults = (program ss).faults ++ ((program [s]).faults ++
        ((program [t]).faults ++ (program rs).faults)) := by
  obtain ⟨records, faults⟩ := program_append self ss
  cases self with
  | cons _ later =>
    obtain ⟨records', faults'⟩ := program_append later [s]
    cases later with
    | cons _ last =>
      obtain ⟨records'', faults''⟩ := program_append last [t]
      simp only [List.singleton_append] at records' faults' records'' faults''
      rw [records, records', records'', faults, faults', faults'']
      exact ⟨rfl, rfl⟩

section Neighbours

variable (self : PairedBody (.ofLines Eq) (s :: t :: rs) (s :: t :: rs))

include self

theorem exchange_clean (clean : (program (ss ++ s :: t :: rs)).faults = []) :
    (program (ss ++ t :: s :: rs)).faults = [] := by
  rw [(program_parts self).2] at clean
  rw [(program_parts (self_of_subset self (List.Perm.swap _ _ _).subset)).2]
  simp only [List.append_eq_nil_iff] at clean ⊢
  exact ⟨clean.1, clean.2.2.1, clean.2.1, clean.2.2.2⟩

/-- No node is in both statements. -/
theorem exchange_lookup (distinct : (Stmt.idsAll (ss ++ s :: t :: rs)).Nodup) (i : NodeId) :
    (program (ss ++ t :: s :: rs)).records.lookup i =
      (program (ss ++ s :: t :: rs)).records.lookup i := by
  have absent : ∀ r : Stmt, i ∉ r.ids → (program [r]).records.lookup i = none := by
    refine fun r other => Scoping.lookup_none fun p mem here => other ?_
    have known := Scoping.records_ids mem
    rw [here] at known
    simpa [Stmt.idsAll] using known
  have apart : i ∉ s.ids ∨ i ∉ t.ids := by
    by_contra both
    rw [not_or, not_not, not_not] at both
    rw [idsAll_append, Stmt.idsAll, Stmt.idsAll] at distinct
    have inner := distinct.of_append_right
    exact List.disjoint_of_nodup_append inner both.1 (List.mem_append_left _ both.2)
  rw [(program_parts self).1, (program_parts (self_of_subset self (List.Perm.swap _ _ _).subset)).1]
  simp only [List.lookup_append]
  rcases apart with other | other <;> rw [absent _ other] <;> simp

end Neighbours

end Names

/-! ### Running -/

/-- The machine after a function was declared. -/
def Machine.declared (m : Machine) (d : FunctionDecl) : Machine :=
  { m with
    store := m.store.define m.env d.name.lexeme
      (.callable (.function m.nextIdentity ⟨d, m.env, false⟩))
    nextIdentity := m.nextIdentity + 1 }

theorem runAll_function (fuel : Nat) (d : FunctionDecl) (rs : List Stmt) (m : Machine) :
    runAll fuel (.function d :: rs) m = runAll fuel rs (m.declared d) := rfl

theorem getHere?_put_comm (s : Store) (frame : FrameId) {x y : String} (other : x ≠ y) (v w : Value)
    (f : FrameId) (z : String) :
    ((s.put frame x v).put frame y w).getHere? f z =
      ((s.put frame y w).put frame x v).getHere? f z := by
  by_cases inside : frame < s.frames.size
  · rw [Store.getHere?_put _ _ _ _ _ _ (by rwa [size_put]), Store.getHere?_put _ _ _ _ _ _ inside,
      Store.getHere?_put _ _ _ _ _ _ (by rwa [size_put]), Store.getHere?_put _ _ _ _ _ _ inside]
    by_cases first : f = frame ∧ z = x
    · rw [if_neg fun second => other (first.2.symm.trans second.2), if_pos first, if_pos first]
    · rw [if_neg first, if_neg first]
  · rw [getHere?_put_outside _ _ _ _ (by rwa [size_put]), getHere?_put_outside _ _ _ _ inside,
      getHere?_put_outside _ _ _ _ (by rwa [size_put]), getHere?_put_outside _ _ _ _ inside]

section Declarations

variable {σ : Equiv.Perm Identity}

/-- Two names in one scope may be bound in either order. -/
theorem RenamedStore.exchange {s s' : Store} {env : Env} {x y : String} {v w : Value}
    (other : x ≠ y) (h : RenamedStore σ s ((s'.define env x v).define env y w)) :
    RenamedStore σ s ((s'.define env y w).define env x v) := by
  cases env with
  | nil => exact h
  | cons frame outer =>
    refine { h with scopes := ?_, here := fun f z => ?_ }
    · have size := h.scopes
      simp only [Store.define, size_put] at size ⊢
      exact size
    · exact (getHere?_put_comm s' frame other v w f z).symm.trans (h.here f z)

/-- The two functions have each other's identity. -/
theorem Renamed.declared {m m' : Machine} {d e : FunctionDecl}
    (h : Renamed (Equiv.swap m.nextIdentity (m.nextIdentity + 1)) m m')
    (other : d.name.lexeme ≠ e.name.lexeme) :
    Renamed (Equiv.swap m.nextIdentity (m.nextIdentity + 1)) ((m.declared d).declared e)
      ((m'.declared e).declared d) := by
  have stores := (h.store.define m.env d.name.lexeme
    (.callable (.function m.nextIdentity ⟨d, m.env, false⟩))).define m.env e.name.lexeme
    (.callable (.function (m.nextIdentity + 1) ⟨e, m.env, false⟩))
  rw [Value.renamed, Value.renamed, Callable.renamed, Callable.renamed, Equiv.swap_apply_left,
    Equiv.swap_apply_right] at stores
  have exchanged := RenamedStore.exchange other stores
  refine { h with store := ?_, nextIdentity := congrArg (· + 2) h.nextIdentity }
  simp only [Machine.declared]
  rw [h.env, h.nextIdentity]
  exact exchanged

end Declarations

theorem swap_elsewhere {k i : Nat} (other : i < k ∨ k + 2 ≤ i) :
    Equiv.swap k (k + 1) i = i :=
  Equiv.swap_apply_of_ne_of_ne (by omega) (by omega)

/-- Functions that stand side by side may be declared in either order. -/
theorem runAll_exchange {m m' : Machine} (fuel : Nat) (ss rs : List Stmt) {d e : FunctionDecl}
    (other : d.name.lexeme ≠ e.name.lexeme)
    (h : ∀ σ : Equiv.Perm Identity, (∀ i, i < m.nextIdentity → σ i = i) → Renamed σ m m') :
    ∃ σ, RenamedResult σ id (runAll fuel (ss ++ .function d :: .function e :: rs) m)
      (runAll fuel (ss ++ .function e :: .function d :: rs) m') := by
  have onward := runAll_follows (S := Onward) fuel ss m
  rw [runAll_append, runAll_append]
  show ∃ σ, RenamedResult σ id (EStateM.bind _ _ m) (EStateM.bind _ _ m')
  unfold EStateM.bind
  cases ran : runAll fuel ss m with
  | error halt n =>
    have first := (runAll_equivariant fuel ss).same m m' (h 1 fun _ _ => rfl) fun _ _ _ => rfl
    rw [ran] at first
    generalize runAll fuel ss m' = r at first ⊢
    cases first with
    | error state => exact ⟨1, .error state⟩
  | ok _ n =>
    rw [ran] at onward
    refine ⟨Equiv.swap n.nextIdentity (n.nextIdentity + 1), ?_⟩
    have first := (runAll_equivariant fuel ss).same m m'
      (h _ fun i low => swap_elsewhere (.inl (Nat.lt_of_lt_of_le low onward)))
      fun i _ high => swap_elsewhere (.inl (by rwa [ran] at high))
    rw [ran] at first
    generalize runAll fuel ss m' = r at first ⊢
    cases first with
    | @ok _ _ n' state =>
      show RenamedResult _ id (runAll fuel (.function d :: .function e :: rs) n)
        (runAll fuel (.function e :: .function d :: rs) n')
      simp only [runAll_function]
      exact (runAll_equivariant fuel rs).same _ _ (state.declared other) fun i low _ =>
        swap_elsewhere (.inr low)

/-! ### Outcomes -/

/-- What can be seen from outside: the outcome, the output and the input that is left. -/
structure SameEffect (r r' : Outcome Unit × Machine) : Prop where
  outcome : r.1 = r'.1
  sink : r.2.sink = r'.2.sink
  input : r.2.input = r'.2.input

theorem SameEffect.trans {r r' r'' : Outcome Unit × Machine} (h : SameEffect r r')
    (k : SameEffect r' r'') : SameEffect r r'' :=
  ⟨h.outcome.trans k.outcome, h.sink.trans k.sink, h.input.trans k.input⟩

theorem Concur.effect {r r' : Outcome Unit × Machine} (h : Concur Eq r r') : SameEffect r r' := by
  obtain ⟨outcome, P, -, twin⟩ := h
  exact ⟨outcome.eq, twin.sink, twin.input⟩

theorem RenamedResult.effect {σ : Equiv.Perm Identity} {x y : Eval Unit} {m m' : Machine}
    (h : RenamedResult σ id (x m) (y m')) :
    SameEffect (Outcome.ofResult (thenFlush x m)) (Outcome.ofResult (thenFlush y m')) := by
  refine ⟨?_, ?_, ?_⟩
  · unfold thenFlush
    generalize x m = r at h ⊢
    generalize y m' = r' at h ⊢
    cases h with
    | ok state =>
      dsimp only
      rw [state.sink]
      split <;> rfl
    | @error halt _ _ state =>
      cases halt with
      | outOfFuel => rfl
      | error e =>
        dsimp only
        rw [state.sink]
        split <;> rfl
  · rw [ofResult_thenFlush, ofResult_thenFlush, h.final.sink]
  · rw [ofResult_thenFlush, ofResult_thenFlush, h.final.input]

/-! ### Programs -/

theorem program_exchange {m : Machine} (supported : m.Supported) (fuel : Nat) {high : NodeId}
    {ss rs : List Stmt} {d e : FunctionDecl}
    (fresh : Fresh m.nextNode high (Stmt.idsAll (ss ++ .function d :: .function e :: rs)))
    (self : PairedBody (.ofLines Eq) (.function d :: .function e :: rs)
      (.function d :: .function e :: rs))
    (clean : (Binding.program (ss ++ .function d :: .function e :: rs)).faults = [])
    (other : d.name.lexeme ≠ e.name.lexeme) :
    SameEffect
      (({ m with nextNode := high } : Machine).runProgram fuel
        (ss ++ .function d :: .function e :: rs))
      (({ m with nextNode := high } : Machine).runProgram fuel
        (ss ++ .function e :: .function d :: rs)) := by
  have clean' := exchange_clean self clean
  have bound : ∀ σ : Equiv.Perm Identity, (∀ i, i < m.nextIdentity → σ i = i) →
      Renamed σ
        (({ m with nextNode := high } : Machine).bind (ss ++ .function d :: .function e :: rs)).2
        (({ m with nextNode := high } : Machine).bind
          (ss ++ .function e :: .function d :: rs)).2 := by
    refine fun σ fixed => { supported σ fixed with distances := fun i => ?_ }
    show (List.foldr _ m.distances _)[i]? = (List.foldr _ m.distances _)[i]?
    rw [Scoping.getElem?_records, Scoping.getElem?_records, exchange_lookup self fresh.distinct]
  obtain ⟨σ, done⟩ := runAll_exchange fuel ss rs other
    (m := (({ m with nextNode := high } : Machine).bind _).2) bound
  unfold Machine.runProgram
  dsimp only
  show SameEffect (if (Binding.program _).faults.isEmpty then _ else _)
    (if (Binding.program _).faults.isEmpty then _ else _)
  rw [clean, clean']
  exact done.effect

theorem idsAll_exchange (ss rs : List Stmt) (s t : Stmt) :
    (Stmt.idsAll (ss ++ s :: t :: rs)).Perm (Stmt.idsAll (ss ++ t :: s :: rs)) := by
  simp only [idsAll_append, Stmt.idsAll, ← List.append_assoc]
  refine List.Perm.append_right _ ?_
  simp only [List.append_assoc]
  exact List.perm_append_comm.append_left _

theorem function_of_unnumbered {s : Stmt} {d : FunctionDecl}
    (same : s.unnumbered = (Stmt.function d).unnumbered) :
    ∃ d', s = .function d' ∧ d'.name = d.name := by
  cases s with
  | function d' =>
    obtain ⟨name, params, body⟩ := d
    obtain ⟨name', params', body'⟩ := d'
    simp only [Stmt.unnumbered, FunctionDecl.unnumbered, Stmt.function.injEq,
      FunctionDecl.mk.injEq] at same
    exact ⟨_, rfl, same.1⟩
  | ite _ _ elseBranch => cases elseBranch <;> cases same
  | expression | print | var | block | «while» | «break» | «return» | «class» => cases same

/-! ### Tokens -/

/-- The tokens of a program without faults. -/
def AcceptedTokens (tokens : List Token) : Prop :=
  ∃ program, (Grammar.parse tokens 0).result = .ok program ∧
    (Binding.program program).faults = []

/-- Reads tokens as a program and runs it. -/
def Machine.runTokens (m : Machine) (fuel : Nat) (tokens : List Token) : Outcome Unit × Machine :=
  m.runParsed fuel (Grammar.parse tokens m.nextNode)

/-- Two functions with different names stand side by side at the top level: before and after them
there are whole declarations. -/
structure Neighbours (before first second after : List Token) (d e : FunctionDecl) : Prop where
  before : ∃ ss, Ebnf.Program False before ss
  first : Ebnf.Program False first [.function d]
  second : Ebnf.Program False second [.function e]
  after : ∃ rs, Ebnf.Program False after rs
  distinct : d.name.lexeme ≠ e.name.lexeme

section Tokens

variable {before first second after : List Token} {d e : FunctionDecl}

theorem Neighbours.program (h : Neighbours before first second after d e) :
    ∃ ss rs, Ebnf.Program False (before ++ first ++ second ++ after)
        (ss ++ .function d :: .function e :: rs) ∧
      Ebnf.Program False (before ++ second ++ first ++ after)
        (ss ++ .function e :: .function d :: rs) := by
  obtain ⟨⟨ss, begins⟩, one, other, ⟨rs, ends⟩, -⟩ := h
  refine ⟨ss, rs, ?_, ?_⟩
  · rw [List.append_assoc, List.append_assoc]
    exact begins.append (one.append (other.append ends))
  · rw [List.append_assoc, List.append_assoc]
    exact begins.append (other.append (one.append ends))

theorem Ebnf.Body.split {dangling : Prop} {inLoop : Bool} {ts : List Token} (ss : List Stmt)
    {rs : List Stmt} (h : Ebnf.Body dangling inLoop ts (ss ++ rs)) :
    ∃ us vs, ts = us ++ vs ∧ Ebnf.Body dangling inLoop us ss ∧ Ebnf.Body dangling inLoop vs rs := by
  induction ss generalizing ts with
  | nil => exact ⟨[], ts, rfl, .nil, h⟩
  | cons s ss ih =>
    cases h with
    | cons one others =>
      obtain ⟨us, vs, rfl, first, second⟩ := ih others
      exact ⟨_, vs, (List.append_assoc _ us vs).symm, .cons one first, second⟩

/-- Functions that stand side by side in the tree of a text do so among its tokens. -/
theorem neighbours_of_compile {source : String} {nextId : NodeId} {ss rs : List Stmt}
    (read : (compile source nextId).result = .ok (ss ++ .function d :: .function e :: rs))
    (distinct : d.name.lexeme ≠ e.name.lexeme) :
    ∃ before first second after stop,
      (tokenize source).1 = before ++ first ++ second ++ after ++ [stop] ∧
        Neighbours before first second after d e := by
  obtain ⟨ts, split, proper, -⟩ := tokenize_seam source
  rw [compile_clean (clean_of_compile read), split] at read
  obtain ⟨before, us, rfl, begins, more⟩ := (Grammar.program_of_parse proper rfl read).split ss
  obtain ⟨first, us, rfl, one, more⟩ := Ebnf.Body.split [.function d] more
  obtain ⟨second, after, rfl, other, ends⟩ := Ebnf.Body.split [.function e] more
  have neighbours : Neighbours before first second after d e :=
    ⟨⟨ss, begins⟩, one, other, ⟨rs, ends⟩, distinct⟩
  simp only [← List.append_assoc] at split
  exact ⟨before, first, second, after, _, split, neighbours⟩

section Numbers

variable {tokens : List Token}

theorem parse_self {nextId : NodeId} {program : List Stmt}
    (read : (Grammar.parse tokens nextId).result = .ok program) :
    PairedBody (.ofLines Eq) program program := by
  have paired := Grammar.parse_renumbered tokens nextId nextId
  rw [read] at paired
  cases paired with
  | ok same => exact same

theorem AcceptedTokens.read (accepted : AcceptedTokens tokens) (nextId : NodeId) :
    ∃ program, (Grammar.parse tokens nextId).result = .ok program ∧
      (Binding.program program).faults = [] := by
  obtain ⟨program, read, clean⟩ := accepted
  have paired := Grammar.parse_renumbered tokens 0 nextId
  rw [read] at paired
  generalize (Grammar.parse tokens nextId).result = r at paired ⊢
  cases paired with
  | ok same => exact ⟨_, rfl, walk_clean same clean⟩

end Numbers

variable {stop : Token}

/-- The tokens of a program with two functions side by side are read to one with two functions side
by side. -/
theorem Neighbours.read (h : Neighbours before first second after d e)
    (proper : ∀ t ∈ before ++ first ++ second ++ after, t.kind ≠ .eof) (ends : stop.kind = .eof)
    (nextId : NodeId) :
    ∃ ss rs d' e', (Grammar.parse (before ++ first ++ second ++ after ++ [stop]) nextId).result =
        .ok (ss ++ .function d' :: .function e' :: rs) ∧
      d'.name.lexeme ≠ e'.name.lexeme ∧
      ∀ nextId', ∃ swapped,
        (Grammar.parse (before ++ second ++ first ++ after ++ [stop]) nextId').result =
          .ok swapped ∧
        Stmt.unnumberedAll (ss ++ .function e' :: .function d' :: rs) =
          Stmt.unnumberedAll swapped := by
  obtain ⟨ss, rs, derived, derived'⟩ := h.program
  obtain ⟨tree, read, same⟩ := Grammar.parse_of_program nextId proper ends derived
  simp only [Stmt.unnumberedAll_eq_map, List.map_append, List.map_cons] at same
  obtain ⟨ss', more, rfl, start, same⟩ := List.map_eq_append_iff.1 same
  obtain ⟨f, more, rfl, one, same⟩ := List.map_eq_cons_iff.1 same
  obtain ⟨g, rs', rfl, other, rest⟩ := List.map_eq_cons_iff.1 same
  obtain ⟨d', rfl, named⟩ := function_of_unnumbered one
  obtain ⟨e', rfl, named'⟩ := function_of_unnumbered other
  refine ⟨ss', rs', d', e', read, ?_, fun nextId' => ?_⟩
  · rw [named, named']
    exact h.distinct
  · have proper' : ∀ t ∈ before ++ second ++ first ++ after, t.kind ≠ .eof := by
      refine fun t mem => proper t ?_
      simp only [List.mem_append] at mem ⊢
      tauto
    obtain ⟨swapped, read', same'⟩ := Grammar.parse_of_program nextId' proper' ends derived'
    refine ⟨swapped, read', ?_⟩
    rw [same']
    simp only [Stmt.unnumberedAll_eq_map, List.map_append, List.map_cons, start, one, other, rest]

/-- Two functions that stand side by side may change places, as long as tokens keep their lines. -/
theorem tokens_exchange (h : Neighbours before first second after d e)
    (proper : ∀ t ∈ before ++ first ++ second ++ after, t.kind ≠ .eof) (ends : stop.kind = .eof)
    (accepted : AcceptedTokens (before ++ first ++ second ++ after ++ [stop])) {m : Machine}
    (reachable : m.Reachable) (fuel : Nat) :
    AcceptedTokens (before ++ second ++ first ++ after ++ [stop]) ∧
      SameEffect (m.runTokens fuel (before ++ first ++ second ++ after ++ [stop]))
        (m.runTokens fuel (before ++ second ++ first ++ after ++ [stop])) := by
  obtain ⟨ss, rs, d', e', read, other, swaps⟩ := h.read proper ends m.nextNode
  obtain ⟨tree, read', clean⟩ := accepted.read m.nextNode
  cases read.symm.trans read'
  have whole := parse_self read
  have self := self_of_subset whole (List.subset_append_right ss _)
  have exchanged := self_of_subset whole ((List.Perm.swap _ _ rs).append_left ss).subset
  have clean' := exchange_clean self clean
  refine ⟨?_, ?_⟩
  · obtain ⟨swapped, read', same⟩ := swaps 0
    exact ⟨swapped, read', walk_clean (exchanged.renumber same) clean'⟩
  · obtain ⟨swapped, read', same⟩ := swaps m.nextNode
    have numbered :=
      Grammar.parse_numbered (before ++ first ++ second ++ after ++ [stop]) m.nextNode
    have numbered' :=
      Grammar.parse_numbered (before ++ second ++ first ++ after ++ [stop]) m.nextNode
    have fresh := numbered.fresh _ read
    obtain ⟨ids, twin⟩ : ∃ ids, Twin ⟨ids, Eq⟩ m m := reachable.orderly.twin fun _ => rfl
    -- The other tree has numbers of its own.
    have renumbered := twin.runProgram fuel numbered.le numbered'.le
      (fresh.perm (idsAll_exchange ss rs _ _)) (numbered'.fresh _ read') (exchanged.renumber same)
    have effect := (program_exchange reachable.supported fuel fresh self clean other).trans
      renumbered.effect
    unfold Machine.runTokens Machine.runParsed
    dsimp only
    rw [read, read']
    exact effect

/-- Two functions with different names that stand side by side at the top level of a text may change
places, with all tokens on their lines: the text is accepted as before, and on every machine that a
session can lead to it comes to the same end, with the same output and the same input left. -/
theorem functions_exchange {source : String} (accepted : Accepted source)
    (tokens : (tokenize source).1 = before ++ first ++ second ++ after ++ [stop])
    (neighbours : Neighbours before first second after d e) {m : Machine}
    (reachable : m.Reachable) (fuel : Nat) :
    AcceptedTokens (before ++ second ++ first ++ after ++ [stop]) ∧
      SameEffect (m.run fuel source)
        (m.runTokens fuel (before ++ second ++ first ++ after ++ [stop])) := by
  obtain ⟨program, read, faultless⟩ := accepted
  have clean := clean_of_compile read
  obtain ⟨ts, split, proper, -⟩ := tokenize_seam source
  obtain ⟨rfl, last⟩ := List.append_inj' (tokens.symm.trans split) rfl
  have ends : stop.kind = .eof := by rw [(List.cons.inj last).1]
  rw [compile_clean clean, tokens] at read
  rw [Machine.run_eq, compile_clean clean, tokens]
  exact tokens_exchange neighbours proper ends ⟨program, read, faultless⟩ reachable fuel

/-- Each of the functions refers to the other. -/
theorem functions_exchange_mutual :
    let source := "fun a() \x7b print b; b(); \x7d\nfun b() \x7b print a; \x7d\na();"
    let first : List Token := [⟨.keyword .fun, "fun", 1⟩, ⟨.identifier, "a", 1⟩,
      ⟨.symbol .leftParen, "(", 1⟩, ⟨.symbol .rightParen, ")", 1⟩, ⟨.symbol .leftBrace, "\x7b", 1⟩,
      ⟨.keyword .print, "print", 1⟩, ⟨.identifier, "b", 1⟩, ⟨.symbol .semicolon, ";", 1⟩,
      ⟨.identifier, "b", 1⟩, ⟨.symbol .leftParen, "(", 1⟩, ⟨.symbol .rightParen, ")", 1⟩,
      ⟨.symbol .semicolon, ";", 1⟩, ⟨.symbol .rightBrace, "\x7d", 1⟩]
    let second : List Token := [⟨.keyword .fun, "fun", 2⟩, ⟨.identifier, "b", 2⟩,
      ⟨.symbol .leftParen, "(", 2⟩, ⟨.symbol .rightParen, ")", 2⟩, ⟨.symbol .leftBrace, "\x7b", 2⟩,
      ⟨.keyword .print, "print", 2⟩, ⟨.identifier, "a", 2⟩, ⟨.symbol .semicolon, ";", 2⟩,
      ⟨.symbol .rightBrace, "\x7d", 2⟩]
    let after : List Token := [⟨.identifier, "a", 3⟩, ⟨.symbol .leftParen, "(", 3⟩,
      ⟨.symbol .rightParen, ")", 3⟩, ⟨.symbol .semicolon, ";", 3⟩]
    let stop : Token := ⟨.eof, "", 3⟩
    let m := Machine.start [] .unlimited fun _ => 0
    Accepted source ∧ (tokenize source).1 = [] ++ first ++ second ++ after ++ [stop] ∧
      (∃ d e, Neighbours [] first second after d e) ∧ m.Reachable ∧
      AcceptedTokens ([] ++ second ++ first ++ after ++ [stop]) ∧
      SameEffect (m.run 9 source) (m.runTokens 9 ([] ++ second ++ first ++ after ++ [stop])) := by
  intro source first second after stop m
  have accepted : Accepted source := by decide +kernel
  have tokens : (tokenize source).1 = [] ++ first ++ second ++ after ++ [stop] := by decide +kernel
  -- On the tokens that are left a parse is quicker to compute than by a cursor.
  have parsed : ∀ {tokens tree}, (Grammar.Parsed.ofResult (Grammar.program (tokens.length + 1)
      (Grammar.State.start tokens 0))).result = .ok tree →
      (Grammar.parse tokens 0).result = .ok tree :=
    fun read => (congrArg Grammar.Parsed.result (Grammar.parse_eq _ _)).trans read
  have neighbours : ∃ d e, Neighbours [] first second after d e :=
    ⟨_, _, ⟨[], .nil⟩,
      Grammar.program_of_parse (by decide) (rfl : stop.kind = .eof)
        (parsed rfl : (Grammar.parse (first ++ [stop]) 0).result = _),
      Grammar.program_of_parse (by decide) (rfl : stop.kind = .eof)
        (parsed rfl : (Grammar.parse (second ++ [stop]) 0).result = _),
      ⟨_, Grammar.program_of_parse (by decide) (rfl : stop.kind = .eof)
        (parsed rfl : (Grammar.parse (after ++ [stop]) 0).result = _)⟩, by decide⟩
  have reachable : m.Reachable := .start _ _ _
  obtain ⟨d, e, both⟩ := neighbours
  exact ⟨accepted, tokens, ⟨d, e, both⟩, reachable,
    functions_exchange accepted tokens both reachable 9⟩

end Tokens

end Lox
