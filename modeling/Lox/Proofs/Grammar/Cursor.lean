import Lox.Proofs.Grammar.Mirrored

/-!
# Parses by a cursor

The tokens that a cursor has before it, up to the next end marker, are the tokens that are left
(`Cursor.state`). Its guards keep it from passing that marker, and every step of it is that step on
the tokens that are left (`shows_mirrors`). So every rule does to a cursor what it does to them
(`Production.shown`), and a parse by a cursor is a parse of the tokens up to the first end marker
(`parse_eq`).
-/

namespace Lox.Grammar

namespace Cursor

/-! ### The tokens before a cursor -/

/-- The tokens up to the next end marker. -/
def left (c : Cursor) : List Token :=
  (c.tokens.toList.drop c.current).takeWhile (·.kind != .eof)

/-- The index of the next end marker, or the number of tokens if there is none. -/
def last (c : Cursor) : Nat := c.current + c.left.length

def state (c : Cursor) : State where
  rest := c.left
  stop := c.tokens.getD c.last missingEnd
  noted := c.noted
  nextId := c.nextId

variable {c : Cursor}

theorem drop_of_lt (inside : c.current < c.tokens.toList.length) :
    c.tokens.toList.drop c.current = c.peek :: c.tokens.toList.drop (c.current + 1) := by
  have here : c.peek = c.tokens.toList[c.current] := by
    simp [peek, Array.getD, Array.length_toList ▸ inside]
  rw [List.drop_eq_getElem_cons inside, here]

theorem left_of_end (ended : c.isAtEnd = true) : c.left = [] := by
  have stops : c.peek.kind = .eof := beq_iff_eq.1 ended
  rw [left]
  by_cases inside : c.current < c.tokens.toList.length
  · rw [drop_of_lt inside]
    exact List.takeWhile_cons_of_neg (by simp [stops])
  · rw [List.drop_of_length_le (Nat.le_of_not_lt inside)]
    rfl

theorem left_of_more (more : ¬ c.isAtEnd = true) : c.left = c.peek :: c.advance.left := by
  have inside : c.current < c.tokens.toList.length := Array.length_toList ▸ current_lt more
  rw [left, drop_of_lt inside, advance, if_neg more]
  exact List.takeWhile_cons_of_pos (by simpa [isAtEnd] using more)

/-! ### Its steps -/

/-- One cursor was moved to where the other is, and the next end marker of both is the same. -/
structure Towards (c d : Cursor) : Prop where
  tokens : d.tokens = c.tokens
  last : d.last = c.last
  noted : d.noted = c.noted
  nextId : d.nextId = c.nextId

theorem Towards.trans {d e : Cursor} (h : Towards c d) (h' : Towards d e) : Towards c e :=
  ⟨h'.tokens.trans h.tokens, h'.last.trans h.last, h'.noted.trans h.noted,
    h'.nextId.trans h.nextId⟩

theorem Towards.state {d : Cursor} (h : Towards c d) :
    d.state = { c.state with rest := d.left } := by
  rw [Cursor.state, h.tokens, h.last, h.noted, h.nextId]
  rfl

/-- The guard of a step keeps the cursor from passing the end marker. -/
theorem advance_towards (c : Cursor) : Towards c c.advance := by
  by_cases ended : c.isAtEnd = true
  · rw [advance, if_pos ended]
    exact ⟨rfl, rfl, rfl, rfl⟩
  · have one := congrArg List.length (left_of_more ended)
    rw [List.length_cons] at one
    rw [advance, if_neg ended] at one ⊢
    refine ⟨rfl, ?_, rfl, rfl⟩
    show c.current + 1 + _ = c.current + c.left.length
    omega

theorem le_advance (c : Cursor) : c.current ≤ c.advance.current := by
  rw [advance]
  split
  · exact Nat.le_refl _
  · exact Nat.le_succ _

theorem skip_towards (c : Cursor) : Towards c c.skip := by
  induction c using skip.induct with
  | case1 c ended =>
    rw [skip, if_pos ended]
    exact ⟨rfl, rfl, rfl, rfl⟩
  | case2 c more starts =>
    rw [skip, if_neg more, if_pos starts]
    exact ⟨rfl, rfl, rfl, rfl⟩
  | case3 c more goes ih =>
    rw [skip, if_neg more, if_neg goes]
    exact c.advance_towards.trans ih

theorem synchronize_towards (c : Cursor) : Towards c c.advance.skip :=
  c.advance_towards.trans c.advance.skip_towards

theorem advance_left (c : Cursor) : c.advance.left = c.left.tail := by
  by_cases ended : c.isAtEnd = true
  · rw [advance, if_pos ended, left_of_end ended]
    rfl
  · rw [left_of_more ended, List.tail_cons]

theorem advance_previous (more : ¬ c.isAtEnd = true) : c.advance.previous = c.peek := by
  rw [advance, if_neg more]
  rfl

theorem skip_left (c : Cursor) : c.skip.left = skipFrom c.previous.kind c.left := by
  induction c using skip.induct with
  | case1 c ended =>
    rw [skip, if_pos ended, left_of_end ended]
    rfl
  | case2 c more starts =>
    rw [skip, if_neg more, if_pos starts, left_of_more more, skipFrom, if_pos starts]
  | case3 c more goes ih =>
    rw [skip, if_neg more, if_neg goes, ih, left_of_more more, skipFrom, if_neg goes,
      advance_previous more]

theorem synchronize_left (c : Cursor) : c.advance.skip.left = resume c.left := by
  rw [skip_left]
  by_cases ended : c.isAtEnd = true
  · rw [advance, if_pos ended, left_of_end ended]
    rfl
  · rw [left_of_more ended, advance_previous ended, resume]

/-- What a cursor tells is what the tokens that are left tell. -/
theorem peek_state (c : Cursor) : c.peek = c.state.peek := by
  by_cases ended : c.isAtEnd = true
  · have empty := left_of_end ended
    show _ = c.left.headD (c.tokens.getD (c.current + c.left.length) missingEnd)
    rw [empty]
    rfl
  · show _ = c.left.headD _
    rw [left_of_more ended]
    rfl

theorem isAtEnd_state (c : Cursor) : c.isAtEnd = c.left.isEmpty := by
  by_cases ended : c.isAtEnd = true
  · rw [left_of_end ended, ended]
    rfl
  · rw [left_of_more ended]
    simpa using ended

end Cursor

/-! ### Rules -/

/-- The tokens left before the cursor are those of the state, and `last` is the index behind
them. -/
structure Shows (tokens : Array Token) (last : Nat) (c : Cursor) (s : State) : Prop where
  held : c.tokens = tokens
  last : c.last = last
  state : c.state = s

theorem Cursor.shows (c : Cursor) : Shows c.tokens c.last c c.state := ⟨rfl, rfl, rfl⟩

theorem Shows.towards {tokens : Array Token} {last : Nat} {c d : Cursor} {s : State}
    (h : Shows tokens last c s) (moved : c.Towards d) :
    Shows tokens last d { s with rest := d.left } :=
  ⟨moved.tokens.trans h.held, moved.last.trans h.last, h.state ▸ moved.state⟩

/-- Every step of a cursor is that step on the tokens that are left. -/
theorem shows_mirrors (tokens : Array Token) (last : Nat) : Mirrors (Shows tokens last) where
  peek h := h.state ▸ Cursor.peek_state _
  isAtEnd h := h.state ▸ Cursor.isAtEnd_state _
  advance {c s} h := by
    have moved := h.towards c.advance_towards
    rw [c.advance_left] at moved
    exact h.state ▸ moved
  synchronize {c s} h := by
    have moved := h.towards c.synchronize_towards
    rw [c.synchronize_left] at moved
    exact h.state ▸ moved
  noted h := h.state ▸ rfl
  note d h := ⟨h.held, h.last, h.state ▸ rfl⟩
  nextId h := h.state ▸ rfl
  number h := ⟨h.held, h.last, h.state ▸ rfl⟩

theorem Production.shown {α : Type} {rule : ∀ {σ : Type} [Reader σ], RuleOf σ α}
    (h : Production @rule) (c : Cursor) :
    MirroredResult (Shows c.tokens c.last) (rule c) (rule c.state) :=
  h.mirrored (shows_mirrors _ _) _ _ c.shows

/-- A tree that a rule yields at a cursor is what it yields on the tokens that are left. -/
theorem Production.ok_state {α : Type} {rule : ∀ {σ : Type} [Reader σ], RuleOf σ α}
    (h : Production @rule) {c d : Cursor} {a : α} (read : rule c = .ok a d) :
    rule c.state = .ok a d.state := by
  have together := h.shown c
  rw [read] at together
  generalize rule c.state = r at together
  cases together with
  | ok _ shown => rw [shown.state]

/-! ### Whole parses -/

/-- The index of the first end marker, or the number of tokens if there is none. -/
def firstEnd (tokens : List Token) : Nat := tokens.findIdx (·.kind == .eof)

theorem takeWhile_drop_length {tokens : List Token} {i : Nat} (within : i ≤ firstEnd tokens) :
    i + ((tokens.drop i).takeWhile (·.kind != .eof)).length = firstEnd tokens := by
  induction tokens generalizing i with
  | nil => simpa [firstEnd] using within
  | cons t ts ih =>
    cases stops : t.kind == .eof with
    | true =>
      have here : firstEnd (t :: ts) = 0 := by simp [firstEnd, List.findIdx_cons, stops]
      obtain rfl := Nat.le_zero.1 (here ▸ within)
      simp [here, bne, stops]
    | false =>
      have here : firstEnd (t :: ts) = firstEnd ts + 1 := by
        simp [firstEnd, List.findIdx_cons, stops]
      rw [here] at within ⊢
      cases i with
      | zero =>
        have rest := ih (Nat.zero_le _)
        rw [Nat.zero_add, List.drop_zero] at rest ⊢
        rw [List.takeWhile_cons_of_pos (by simp [bne, stops]), List.length_cons, rest]
      | succ i =>
        have rest := ih (Nat.le_of_succ_le_succ within)
        rw [List.drop_succ_cons, Nat.add_right_comm, rest]

/-- A cursor that has not passed the first end marker is up to that one. -/
theorem Cursor.last_eq {tokens : List Token} {c : Cursor} (held : c.tokens = tokens.toArray)
    (within : c.current ≤ firstEnd tokens) : c.last = firstEnd tokens := by
  rw [last, left, held]
  exact takeWhile_drop_length within

theorem start_state (tokens : List Token) (nextId : NodeId) :
    (Cursor.start tokens nextId).state = State.start tokens nextId := by
  have ends : (Cursor.start tokens nextId).last = firstEnd tokens :=
    Cursor.last_eq rfl (Nat.zero_le _)
  rw [Cursor.state, ends, State.start, List.find?_eq_getElem?_findIdx]
  simp [Cursor.start, Cursor.left, firstEnd]

theorem start_shows (tokens : List Token) (nextId : NodeId) :
    Shows tokens.toArray (firstEnd tokens) (.start tokens nextId) (.start tokens nextId) :=
  ⟨rfl, Cursor.last_eq rfl (Nat.zero_le _), start_state tokens nextId⟩

theorem parse_eq (tokens : List Token) (nextId : NodeId) : parse tokens nextId =
    Parsed.ofResult (program (tokens.length + 1) (State.start tokens nextId)) :=
  (mirrored_program (shows_mirrors _ _) _ _ _ (start_shows tokens nextId)).parsed
    (shows_mirrors _ _)

theorem parseExpression_eq (tokens : List Token) (nextId : NodeId) : parseExpression tokens nextId =
    Parsed.ofResult (wholeExpression (tokens.length + 1) (State.start tokens nextId)) :=
  (mirrored_wholeExpression (shows_mirrors _ _) _ _ _ (start_shows tokens nextId)).parsed
    (shows_mirrors _ _)

end Lox.Grammar
