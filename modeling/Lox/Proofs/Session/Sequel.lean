import Lox.Proofs.Grammar.Acceptance
import Lox.Proofs.Session.Twin

/-!
# Programs one after the other

A program and another behind it are read (`Grammar.parse_append`), walked over (`program_sequel`)
and run (`runAll_append`) as the first and then the second.
-/

namespace Lox

open EStateM (Result)

theorem idsAll_append (ss rs : List Stmt) :
    Stmt.idsAll (ss ++ rs) = Stmt.idsAll ss ++ Stmt.idsAll rs := by
  induction ss with
  | nil => rfl
  | cons s ss ih => rw [List.cons_append, Stmt.idsAll, Stmt.idsAll, ih, List.append_assoc]

theorem Stmt.unnumberedAll_eq_map (ss : List Stmt) :
    Stmt.unnumberedAll ss = ss.map Stmt.unnumbered := by
  induction ss with
  | nil => rfl
  | cons s ss ih => rw [Stmt.unnumberedAll, ih, List.map_cons]

/-! ### Reading -/

theorem Grammar.parse_append {ts us : List Token} {stop stop' : Token} {n n' : NodeId}
    {ss rs : List Stmt} (proper : ∀ t ∈ ts, t.kind ≠ .eof) (proper' : ∀ t ∈ us, t.kind ≠ .eof)
    (ends : stop.kind = .eof) (ends' : stop'.kind = .eof)
    (first : (parse (ts ++ [stop]) n).result = .ok ss)
    (second : (parse (us ++ [stop']) n').result = .ok rs) (nextId : NodeId) :
    ∃ ss' rs', (parse (ts ++ (us ++ [stop'])) nextId).result = .ok (ss' ++ rs') ∧
      Stmt.unnumberedAll ss' = Stmt.unnumberedAll ss ∧
      Stmt.unnumberedAll rs' = Stmt.unnumberedAll rs := by
  have derived := Ebnf.Body.append (program_of_parse proper ends first)
    (program_of_parse proper' ends' second)
  obtain ⟨tree, parsed, same⟩ := parse_of_program nextId (fun t mem =>
    (List.mem_append.1 mem).elim (proper t) (proper' t)) ends' derived
  simp only [Stmt.unnumberedAll_eq_map, List.map_append] at same ⊢
  obtain ⟨ss', rs', rfl, same, same'⟩ := List.map_eq_append_iff.1 same
  exact ⟨ss', rs', by rw [← List.append_assoc, parsed], same, same'⟩

/-! ### Names -/

section Walks

open Binding

theorem stmts_append (c : Context) (w : Walk) (ss rs : List Stmt) :
    stmts c w (ss ++ rs) = stmts c (stmts c w ss) rs := by
  induction ss generalizing w with
  | nil => rfl
  | cons s ss ih => exact ih (stmt c w s)

/-- At top level the walk starts over. -/
theorem program_sequel {P : Pairing} (ss : List Stmt) {rs rs' : List Stmt}
    (same : PairedBody P rs rs') :
    PairedWalk P .start (program ss) (program rs) (program (ss ++ rs')) := by
  have top : (program ss).scopes = [] := by
    rw [program_eq]
    exact List.length_eq_zero_iff.1 (stmts_outer .program .start ss).length
  have split : program (ss ++ rs') = stmts .program (program ss) rs' := by
    rw [program_eq, program_eq, stmts_append]
  rw [split, program_eq rs]
  exact paired_stmts .program rs same (.start P top.symm)

theorem placed_records {is js : List NodeId} {lines : Nat → Nat → Prop}
    {records records' : List (NodeId × Nat)}
    (h : List.Forall₂ (PairedRecord (.placed is js lines)) records records') :
    ∀ p ∈ records', p.1 ∈ js := by
  induction h with
  | nil => nofun
  | cons first _ ih => exact List.forall_mem_cons.2 ⟨(List.of_mem_zip first.1).2, ih⟩

section Sequel

variable {lines : Nat → Nat → Prop} {ss rs rs' : List Stmt}
  (same : PairedBody (.ofLines lines) rs rs')

include same

theorem sequel_clean (clean : (program ss).faults = []) (clean' : (program rs).faults = []) :
    (program (ss ++ rs')).faults = [] := by
  obtain ⟨more, more', known, known', paired⟩ := (program_sequel ss same).faults
  obtain rfl : more = [] := known.symm.trans clean'
  rw [known', clean, List.forall₂_nil_left_iff.1 paired]
  rfl

theorem sequel_records (ss : List Stmt) :
    ∃ new, (program (ss ++ rs')).records = new ++ (program ss).records ∧
      List.Forall₂ (PairedRecord (.placed (Stmt.idsAll rs) (Stmt.idsAll rs') lines))
        (program rs).records new := by
  obtain ⟨new, new', known, known', paired⟩ := (program_sequel ss same.placed).records
  obtain rfl : (program rs).records = new := known.trans (List.append_nil new)
  exact ⟨new', known', paired⟩

variable (distinct : (Stmt.idsAll (ss ++ rs')).Nodup)

include distinct

theorem sequel_lookup_first {i : NodeId} (mine : i ∈ Stmt.idsAll ss) :
    (program (ss ++ rs')).records.lookup i = (program ss).records.lookup i := by
  obtain ⟨new, known, paired⟩ := sequel_records same ss
  have apart := List.disjoint_of_nodup_append (idsAll_append ss rs' ▸ distinct)
  rw [known, List.lookup_append, Scoping.lookup_none, Option.none_or]
  exact fun p mem here => apart mine (here ▸ placed_records paired p mem)

theorem sequel_lookup_second (distinct' : (Stmt.idsAll rs).Nodup) {i j : NodeId}
    (go : (i, j) ∈ (Stmt.idsAll rs).zip (Stmt.idsAll rs')) :
    (program rs).records.lookup i = (program (ss ++ rs')).records.lookup j := by
  obtain ⟨new, known, paired⟩ := sequel_records same ss
  have parts := idsAll_append ss rs' ▸ distinct
  have unknown : (program ss).records.lookup j = none :=
    Scoping.lookup_none fun p mem here => List.disjoint_of_nodup_append parts
      (here ▸ Scoping.records_ids mem) (List.of_mem_zip go).2
  rw [known, List.lookup_append, unknown, Option.or_none]
  exact lookup_paired paired
    (fun _ _ _ _ h h' => zip_unique distinct' parts.of_append_right h h') go

end Sequel

end Walks

/-! ### Running -/

theorem runAll_append (fuel : Nat) (ss rs : List Stmt) :
    runAll fuel (ss ++ rs) = runAll fuel ss >>= fun _ => runAll fuel rs := by
  induction ss with
  | nil => exact (pure_bind () fun _ => runAll fuel rs).symm
  | cons s ss ih =>
    show (execute (invoke fuel) fuel s >>= fun _ => runAll fuel (ss ++ rs)) = _
    rw [ih, ← bind_assoc]
    rfl

theorem thenFlush_congr {x y : Eval Unit} {m n : Machine} (same : x m = y n) :
    thenFlush x m = thenFlush y n := by
  unfold thenFlush
  rw [same]

theorem thenFlush_after {fuel : Nat} {ss rs : List Stmt} {m n : Machine}
    (ran : runAll fuel ss m = .ok () n) :
    thenFlush (runAll fuel (ss ++ rs)) m = thenFlush (runAll fuel rs) n := by
  apply thenFlush_congr
  rw [runAll_append]
  show EStateM.bind _ _ m = _
  unfold EStateM.bind
  rw [ran]

section Twins

variable {P : Pairing} {m m' n k : Machine} {ss ss' rs rs' : List Stmt} {high high' last : NodeId}

/-- One machine knows the first program, the other both. -/
theorem Twin.bindBoth (h : Twin P m m') (le : m.nextNode ≤ high) (le' : m'.nextNode ≤ high')
    (fresh : Fresh m.nextNode high (Stmt.idsAll ss))
    (fresh' : Fresh m'.nextNode high' (Stmt.idsAll (ss' ++ rs')))
    (same : PairedBody (.ofLines P.lines) ss ss') (more : PairedBody (.ofLines P.lines) rs rs') :
    Twin (P.extend (Stmt.idsAll ss) (Stmt.idsAll ss'))
      (({ m with nextNode := high } : Machine).bind ss).2
      (({ m' with nextNode := high' } : Machine).bind (ss' ++ rs')).2 := by
  have inside : ∀ j ∈ Stmt.idsAll ss', j ∈ Stmt.idsAll (ss' ++ rs') := fun j mem =>
    idsAll_append ss' rs' ▸ List.mem_append_left _ mem
  refine (h.advance (advances_bind le fresh) (advances_bind le' fresh')).extend
    (fun i mine => (fresh.between i mine).2) (fun j mine => (fresh'.between j (inside j mine)).2)
    fun i j go => ?_
  obtain ⟨mine, mine'⟩ := List.of_mem_zip go
  rw [bind_distance (h.unused i (fresh.between i mine).1),
    bind_distance (h.unused' j (fresh'.between j (inside j mine')).1),
    sequel_lookup_first more fresh'.distinct mine']
  exact walk_lookup same fresh.distinct (idsAll_append ss' rs' ▸ fresh'.distinct).of_append_left go

/-- The first machine comes to know the second program, too. -/
theorem Twin.bindSequel (h : Twin P n k) (le : n.nextNode ≤ last)
    (fresh : Fresh n.nextNode last (Stmt.idsAll rs))
    (same : PairedBody (.ofLines P.lines) rs rs')
    (distinct : (Stmt.idsAll (ss' ++ rs')).Nodup) (known : ∀ j ∈ Stmt.idsAll rs',
      j < k.nextNode ∧ k.distances[j]? = (Binding.program (ss' ++ rs')).records.lookup j) :
    Twin (P.extend (Stmt.idsAll rs) (Stmt.idsAll rs'))
      (({ n with nextNode := last } : Machine).bind rs).2 k := by
  refine (h.advance (advances_bind le fresh) (Advances.refl k)).extend
    (fun i mine => (fresh.between i mine).2) (fun j mine => (known j mine).1) fun i j go => ?_
  obtain ⟨mine, mine'⟩ := List.of_mem_zip go
  rw [bind_distance (h.unused i (fresh.between i mine).1), (known j mine').2]
  exact sequel_lookup_second same distinct fresh.distinct go

/-- One of two twins runs two programs, each with numbers of its own, the other both at once. -/
theorem Twin.sequel (h : Twin P m m') {fuel : Nat} (le : m.nextNode ≤ high)
    (le' : m'.nextNode ≤ high') (fresh : Fresh m.nextNode high (Stmt.idsAll ss))
    (fresh' : Fresh m'.nextNode high' (Stmt.idsAll (ss' ++ rs')))
    (same : PairedBody (.ofLines P.lines) ss ss') (more : PairedBody (.ofLines P.lines) rs rs')
    (ran : runAll fuel ss (({ m with nextNode := high } : Machine).bind ss).2 = .ok () n)
    (later : n.nextNode ≤ last) (new : Fresh n.nextNode last (Stmt.idsAll rs)) :
    Concur P.lines
      (Outcome.ofResult (thenFlush (runAll fuel rs)
        (({ n with nextNode := last } : Machine).bind rs).2))
      (Outcome.ofResult (thenFlush (runAll fuel (ss' ++ rs'))
        (({ m' with nextNode := high' } : Machine).bind (ss' ++ rs')).2)) := by
  have first := h.bindBoth le le' fresh fresh' same more
  have kept := runAll_follows (S := Steady) fuel ss
    (({ m with nextNode := high } : Machine).bind ss).2
  have kept' := runAll_follows (S := Steady) fuel ss'
    (({ m' with nextNode := high' } : Machine).bind (ss' ++ rs')).2
  have done := runAll_tandem fuel (same.placed.mono (P.placed_le _ _)) _ _ first.toPairedMachine
  rw [ran] at kept done
  generalize ended : runAll fuel ss' _ = r at kept' done
  cases done with
  | @ok _ _ _ k state _ =>
    have steady : Steady (({ m' with nextNode := high' } : Machine).bind (ss' ++ rs')).2 k := kept'
    have second := (first.keep state kept steady).bindSequel later new more fresh'.distinct
      fun j mine => by
        have bounds := fresh'.between j (idsAll_append ss' rs' ▸ List.mem_append_right _ mine)
        rw [steady.nextNode, steady.distances, bind_distance (h.unused' j bounds.1)]
        exact ⟨bounds.2, rfl⟩
    obtain ⟨outcome, after⟩ := second.statements fuel
      (more.placed.mono (Pairing.placed_le (P.extend (Stmt.idsAll ss) (Stmt.idsAll ss')) _ _))
    rw [thenFlush_after ended]
    exact ⟨outcome, (P.extend _ _).extend _ _, rfl, after⟩

end Twins

end Lox
