import Lox.Proofs.Grammar.Taking

/-!
# What rules note

`Notes r ts rest vs Q` says that a rule succeeds on `ts` before `rest`, leaves `rest`, notes the
faults `vs` and nothing else, and yields a tree with `Q`.
-/

namespace Lox.Grammar

/-- A rule succeeds on `ts` before `rest`, leaves `rest`, and adds `vs` to the faults. -/
def Notes {α : Type} (r : Rule α) (ts rest : List Token) (vs : List Diagnostic)
    (Q : α → Prop := fun _ => True) : Prop :=
  ∀ s, s.rest = ts ++ rest →
    ∃ a nextId, r s = .ok a { s with rest, nextId, noted := s.noted ++ vs } ∧ Q a

theorem Takes.notes {α : Type} {r : Rule α} {ts rest : List Token} {Q : α → Prop}
    (h : Takes r ts rest Q) : Notes r ts rest [] Q := by
  intro s read
  obtain ⟨a, nextId, run, holds⟩ := h s read
  exact ⟨a, nextId, by rw [run, List.append_nil], holds⟩

namespace Notes

variable {α β : Type} {ts us rest : List Token} {vs ws : List Diagnostic} {Q : α → Prop}
  {P : β → Prop}

theorem pure {a : α} (h : Q a) : Notes (Pure.pure a : Rule α) [] rest [] Q := (Takes.pure h).notes

theorem skip {a : α} {f : α → Rule β} (h : Notes (f a) ts rest ws P) :
    Notes (Pure.pure a >>= f) ts rest ws P := h

theorem bind {x : Rule α} {f : α → Rule β} (first : Notes x ts (us ++ rest) vs Q)
    (next : ∀ a, Q a → Notes (f a) us rest ws P) : Notes (x >>= f) (ts ++ us) rest (vs ++ ws) P := by
  intro s read
  obtain ⟨a, n, run, holds⟩ := first s (by rw [read, List.append_assoc])
  obtain ⟨b, m, run', holds'⟩ := next a holds
    { s with rest := us ++ rest, nextId := n, noted := s.noted ++ vs } rfl
  rw [List.append_assoc] at run'
  exact ⟨b, m, by rw [bind_of_ok run, run'], holds'⟩

/-- What comes next notes nothing more. -/
theorem before {x : Rule α} {f : α → Rule β} (first : Notes x ts (us ++ rest) vs Q)
    (next : ∀ a, Q a → Notes (f a) us rest [] P) : Notes (x >>= f) (ts ++ us) rest vs P := by
  rw [← List.append_nil vs]
  exact bind first next

/-- What comes next takes nothing more. -/
theorem after {x : Rule α} {f : α → Rule β} (first : Notes x ts rest vs Q)
    (next : ∀ a, Q a → Notes (f a) [] rest ws P) : Notes (x >>= f) ts rest (vs ++ ws) P := by
  rw [← List.append_nil ts]
  exact bind first next

/-- What comes next takes nothing more and notes nothing more. -/
theorem last {x : Rule α} {f : α → Rule β} (first : Notes x ts rest vs Q)
    (next : ∀ a, Q a → Notes (f a) [] rest [] P) : Notes (x >>= f) ts rest vs P := by
  rw [← List.append_nil vs]
  exact after first next

theorem map {x : Rule α} {f : α → β} (h : Notes x ts rest vs Q) (sub : ∀ a, Q a → P (f a)) :
    Notes (f <$> x) ts rest vs P := by
  have mapped : f <$> x = x >>= fun a => Pure.pure (f a) := (bind_pure_comp f x).symm
  rw [mapped]
  exact last h fun a holds => pure (sub a holds)

theorem noting {place : Token} {cause : SyntaxFault} {f : Unit → Rule β}
    (h : Notes (f ()) ts rest ws P) :
    Notes (note place cause >>= f) ts rest (.grammatical place cause :: ws) P := by
  intro s read
  obtain ⟨b, m, run, holds⟩ := h { s with noted := s.noted ++ [.grammatical place cause] } read
  rw [List.append_assoc] at run
  exact ⟨b, m, run, holds⟩

theorem notingHere {t : Token} {cause : SyntaxFault} {f : Unit → Rule β}
    (h : Notes (f ()) (t :: ts) rest ws P) :
    Notes (noteHere cause >>= f) (t :: ts) rest (.grammatical t cause :: ws) P := by
  intro s read
  have here : s.peek = t := by rw [State.peek, read]; rfl
  obtain ⟨b, m, run, holds⟩ := h { s with noted := s.noted ++ [.grammatical t cause] } read
  rw [List.append_assoc] at run
  subst here
  exact ⟨b, m, run, holds⟩

theorem accepting {kinds : List Kind} {f : Option Token → Rule β} {t : Token}
    (mem : t.kind ∈ kinds) (h : Notes (f (some t)) us rest ws P) :
    Notes (acceptAny? kinds >>= f) (t :: us) rest ws P := by
  intro s read
  rw [bind_of_ok ((acceptAny?_cons kinds t s (us ++ rest) read).trans (if_pos mem))]
  exact h { s with rest := us ++ rest } rfl

theorem declining {kinds : List Kind} {f : Option Token → Rule β} (stops : Stops kinds (ts ++ rest))
    (h : Notes (f none) ts rest ws P) : Notes (acceptAny? kinds >>= f) ts rest ws P := by
  intro s read
  rw [bind_of_ok (acceptAny?_of_stops (read ▸ stops))]
  exact h s read

theorem expecting {k : Kind} {cause : SyntaxFault} {f : Token → Rule β} {t : Token}
    (isKind : t.kind = k) (h : Notes (f t) us rest ws P) :
    Notes (expect k cause >>= f) (t :: us) rest ws P := by
  rw [expect, accept?, bind_assoc]
  exact accepting (by simpa using isKind) (by simpa only [pure_bind] using h)

theorem numbering {f : NodeId → Rule β} (h : ∀ id, Notes (f id) ts rest ws P) :
    Notes (freshId >>= f) ts rest ws P :=
  fun s read => h s.nextId { s with nextId := s.nextId + 1 } read

theorem looking (see : State → α) {f : α → Rule β} {a : α}
    (seen : ∀ s : State, s.rest = ts ++ rest → see s = a) (h : Notes (f a) ts rest ws P) :
    Notes ((do return see (← get)) >>= f) ts rest ws P := by
  intro s read
  have here : ((do return see (← get)) >>= f) s = f a s := by
    rw [← seen s read]
    rfl
  rw [here]
  exact h s read

theorem seeing {k : Kind} {f : Bool → Rule β} {t : Token} {us : List Token} (isKind : t.kind = k)
    (split : ts ++ rest = t :: us) (h : Notes (f true) ts rest ws P) :
    Notes (sees k >>= f) ts rest ws P :=
  looking (Reader.check k) (fun s read => by simp [check_eq, read, split, isKind]) h

theorem missing {k : Kind} {f : Bool → Rule β} (stops : Stops [k] (ts ++ rest))
    (h : Notes (f false) ts rest ws P) : Notes (sees k >>= f) ts rest ws P := by
  refine looking (Reader.check k) (fun s read => ?_) h
  rw [check_eq, read]
  cases split : ts ++ rest with
  | nil => rfl
  | cons t us =>
    have other := stops t (by simp [split])
    simpa using other

theorem ending {f : Bool → Rule β} {b : Bool} (ended : (ts ++ rest).isEmpty = b)
    (h : Notes (f b) ts rest ws P) : Notes (atEnd >>= f) ts rest ws P :=
  looking (fun s => s.rest.isEmpty) (fun s read => by rw [read, ended]) h

end Notes

end Lox.Grammar
