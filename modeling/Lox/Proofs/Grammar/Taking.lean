import Lox.Proofs.Grammar.Reading

/-!
# What rules take

`Takes r ts rest Q` says that a rule succeeds on `ts` before `rest`, notes no fault, leaves `rest`
and yields a tree with `Q`.
-/

namespace Lox.Grammar

/-- A rule succeeds on `ts` before `rest`, and leaves `rest`. -/
def Takes {α : Type} (r : Rule α) (ts rest : List Token) (Q : α → Prop) : Prop :=
  ∀ s, s.rest = ts ++ rest → ∃ a nextId, r s = .ok a { s with rest, nextId } ∧ Q a

namespace Takes

variable {α β : Type} {ts us rest : List Token} {Q : α → Prop} {P : β → Prop}

theorem pure {a : α} (h : Q a) : Takes (Pure.pure a : Rule α) [] rest Q := by
  intro s read
  obtain rfl : s.rest = rest := read
  exact ⟨a, s.nextId, rfl, h⟩

theorem skip {a : α} {f : α → Rule β} (h : Takes (f a) ts rest P) :
    Takes (Pure.pure a >>= f) ts rest P := h

theorem bind {x : Rule α} {f : α → Rule β} (first : Takes x ts (us ++ rest) Q)
    (next : ∀ a, Q a → Takes (f a) us rest P) : Takes (x >>= f) (ts ++ us) rest P := by
  intro s read
  obtain ⟨a, n, run, holds⟩ := first s (by rw [read, List.append_assoc])
  rw [bind_of_ok run]
  exact next a holds { s with rest := us ++ rest, nextId := n } rfl

theorem last {x : Rule α} {f : α → Rule β} (first : Takes x ts rest Q)
    (next : ∀ a, Q a → Takes (f a) [] rest P) : Takes (x >>= f) ts rest P := by
  rw [← List.append_nil ts]
  exact bind first next

theorem map {x : Rule α} {f : α → β} (h : Takes x ts rest Q) (sub : ∀ a, Q a → P (f a)) :
    Takes (f <$> x) ts rest P := by
  have mapped : f <$> x = x >>= fun a => Pure.pure (f a) := (bind_pure_comp f x).symm
  rw [mapped]
  exact last h fun a holds => pure (sub a holds)

theorem some {x : Rule α} {f : α → β} {a : α} (h : Takes x ts rest fun a' => f a' = f a) :
    Takes (Option.some <$> x) ts rest fun o => o.map f = (Option.some a).map f :=
  map h fun _ same => congrArg Option.some same

theorem accepting {kinds : List Kind} {f : Option Token → Rule β} {t : Token}
    (mem : t.kind ∈ kinds) (h : Takes (f (Option.some t)) us rest P) :
    Takes (acceptAny? kinds >>= f) (t :: us) rest P := by
  intro s read
  rw [bind_of_ok ((acceptAny?_cons kinds t s (us ++ rest) read).trans (if_pos mem))]
  exact h { s with rest := us ++ rest } rfl

theorem declining {kinds : List Kind} {f : Option Token → Rule β} (stops : Stops kinds (ts ++ rest))
    (h : Takes (f none) ts rest P) : Takes (acceptAny? kinds >>= f) ts rest P := by
  intro s read
  rw [bind_of_ok (acceptAny?_of_stops (read ▸ stops))]
  exact h s read

theorem expecting {k : Kind} {cause : SyntaxFault} {f : Token → Rule β} {t : Token}
    (isKind : t.kind = k) (h : Takes (f t) us rest P) :
    Takes (expect k cause >>= f) (t :: us) rest P := by
  rw [expect, accept?, bind_assoc]
  exact accepting (by simpa using isKind) (by simpa only [pure_bind] using h)

theorem numbering {f : NodeId → Rule β} (h : ∀ id, Takes (f id) ts rest P) :
    Takes (freshId >>= f) ts rest P :=
  fun s read => h s.nextId { s with nextId := s.nextId + 1 } read

theorem seeing {k : Kind} {f : Bool → Rule β} {t : Token} {vs : List Token} (isKind : t.kind = k)
    (split : ts ++ rest = t :: vs) (h : Takes (f true) ts rest P) :
    Takes (sees k >>= f) ts rest P := by
  intro s read
  have seen : sees k s = .ok true s := by
    show EStateM.Result.ok (Reader.check k s) s = _
    simp [check_eq, read, split, isKind]
  rw [bind_of_ok seen]
  exact h s read

theorem missing {k : Kind} {f : Bool → Rule β} (stops : Stops [k] (ts ++ rest))
    (h : Takes (f false) ts rest P) : Takes (sees k >>= f) ts rest P := by
  intro s read
  have unseen : sees k s = .ok false s := by
    show EStateM.Result.ok (Reader.check k s) s = _
    rw [check_eq, read]
    cases split : ts ++ rest with
    | nil => rfl
    | cons t vs =>
      have other := stops t (by simp [split])
      simpa using other
  rw [bind_of_ok unseen]
  exact h s read

theorem ending {f : Bool → Rule β} {b : Bool} (ended : (ts ++ rest).isEmpty = b)
    (h : Takes (f b) ts rest P) : Takes (atEnd >>= f) ts rest P := by
  intro s read
  have seen : atEnd s = .ok b s := by
    show EStateM.Result.ok s.rest.isEmpty s = _
    rw [read, ended]
  rw [bind_of_ok seen]
  exact h s read

theorem unnoted {c : Prop} [Decidable c] {x : Rule Unit} {k : Unit → Rule β} (fails : ¬ c)
    (h : Takes (k ()) ts rest P) : Takes (if c then x >>= k else k ()) ts rest P := by
  rwa [if_neg fails]

end Takes

theorem Stops.mono {kinds more : List Kind} {rest : List Token} (h : Stops more rest)
    (sub : ∀ k ∈ kinds, k ∈ more) : Stops kinds rest :=
  fun t mem isKind => h t mem (sub _ isKind)

theorem stops_cons {kinds : List Kind} {t : Token} {rest : List Token} (h : t.kind ∉ kinds) :
    Stops kinds (t :: rest) := by
  simpa [Stops] using h

end Lox.Grammar
