import Mathlib.Logic.Relation
import Lox.Proofs.Grammar.Acceptance
import Lox.Proofs.Grammar.Isolation

/-!
# Faults of one segment and of another

Tokens are cut into segments. Each of them is a program without faults or a sentence, in which
anything may be wrong. All of them at once are read as each of them on its own: the faults are
those of the first, then those of the second and so on, and if there are none, so are the
statements (`parse_segments`).
-/

namespace Lox.Grammar

open EStateM (Result)
open Relation (ReflTransGen)

/-! ### Rounds -/

/-- From the first state to the second, one declaration is read or given up. -/
structure Round (one : Rule (Option Stmt)) (s t : State) : Prop where
  reads : ∃ o, one s = .ok o t
  shorter : t.rest.length < s.rest.length

abbrev Rounds (one : Rule (Option Stmt)) : State → State → Prop := ReflTransGen (Round one)

theorem declarations_ended {one : Rule (Option Stmt)} {fuel : Nat} {s : State}
    (ended : s.rest = []) : declarations none one (fuel + 1) s = .ok [] s := by
  have stops : atEnd s = .ok true s := by
    show Result.ok s.rest.isEmpty s = _
    rw [ended]
    rfl
  rw [declarations_unclosed, declarationsRound, bind_of_ok stops]
  rfl

theorem declarations_round {one : Rule (Option Stmt)} {fuel : Nat} {s t u : State} {ss : List Stmt}
    (round : Round one s t) (others : declarations none one fuel t = .ok ss u) :
    ∃ ss, declarations none one (fuel + 1) s = .ok ss u := by
  obtain ⟨o, reads⟩ := round.reads
  have starts : s.rest ≠ [] := List.ne_nil_of_length_pos (Nat.zero_lt_of_lt round.shorter)
  have goes : atEnd s = .ok false s := by
    show Result.ok s.rest.isEmpty s = _
    rw [List.isEmpty_eq_false_iff.2 starts]
  rw [declarations_unclosed, declarationsRound, bind_of_ok goes]
  simp only [Bool.or_self, Bool.false_eq_true, if_false, bind_of_ok reads]
  cases o with
  | none => exact ⟨ss, others⟩
  | some s => exact ⟨s :: ss, bind_of_ok others⟩

/-- Rounds up to the end are what reading declarations consists of. -/
theorem declarations_of_rounds {one : Rule (Option Stmt)} {s t : State} (rounds : Rounds one s t)
    (ended : t.rest = []) {fuel : Nat} (room : s.rest.length < fuel) :
    ∃ ss, declarations none one fuel s = .ok ss t := by
  induction rounds using ReflTransGen.head_induction_on generalizing fuel with
  | refl =>
    obtain ⟨fuel, rfl⟩ := Nat.exists_eq_add_one_of_ne_zero (Nat.ne_zero_of_lt room)
    exact ⟨[], declarations_ended ended⟩
  | head round _ ih =>
    obtain ⟨fuel, rfl⟩ := Nat.exists_eq_add_one_of_ne_zero (Nat.ne_zero_of_lt room)
    obtain ⟨ss, others⟩ := ih (Nat.lt_of_lt_of_le round.shorter (Nat.le_of_lt_succ room))
    exact declarations_round round others

/-! ### Parses -/

def Parsed.faults {α : Type} (p : Parsed α) : List Diagnostic :=
  match p.result with
  | .ok _ => []
  | .error ds => ds

/-- What parsing these tokens before an end marker comes to. -/
def ParsedAlone (ts : List Token) (p : Parsed (List Stmt)) : Prop :=
  ∃ stop nextId, stop.kind = .eof ∧ p = parse (ts ++ [stop]) nextId

/-- The rule that a program with these many tokens is read by. -/
abbrev topLevel (depth : Nat) : Rule (Option Stmt) := declaration (nested depth) depth false

/-- Where a parse starts. -/
structure Starts (ts : List Token) (s : State) : Prop where
  rest : s.rest = ts
  noted : s.noted = []

/-- A parse ends where its rounds do. -/
theorem ParsedAlone.rounds {ts : List Token} {p : Parsed (List Stmt)} (alone : ParsedAlone ts p)
    (proper : ∀ t ∈ ts, t.kind ≠ .eof) :
    ∃ depth s, ts.length < depth ∧ Starts ts s ∧ ∀ t, Rounds (topLevel depth) s t → t.rest = [] →
      p.faults = t.noted ∧ (t.noted = [] → ∃ ss, p.result = .ok ss) := by
  obtain ⟨stop, nextId, ends, rfl⟩ := alone
  have rest := start_rest proper ends nextId
  have room : ts.length < (ts ++ [stop]).length + 1 := by
    rw [List.length_append]
    omega
  refine ⟨_, State.start (ts ++ [stop]) nextId, room, ⟨rest, rfl⟩, fun t rounds ended => ?_⟩
  obtain ⟨ss, run⟩ := declarations_of_rounds rounds ended (by rwa [rest])
  have parsed : parse (ts ++ [stop]) nextId = Parsed.ofResult (.ok ss t) :=
    (parse_eq _ _).trans (congrArg Parsed.ofResult run)
  rw [parsed, Parsed.ofResult_ok, Parsed.faults]
  cases t.noted with
  | nil => exact ⟨rfl, fun _ => ⟨ss, rfl⟩⟩
  | cons => exact ⟨rfl, fun silent => absurd silent (List.cons_ne_nil _ _)⟩

/-! ### Segments -/

/-- A program without faults, or tokens that end in their only semicolon and have no brace and no
`for`. -/
inductive Segment (ts : List Token) : Prop
  | clean {p : Parsed (List Stmt)} {tree : List Stmt} (alone : ParsedAlone ts p)
      (parsed : p.result = .ok tree)
  | sentence {body : List Token} {stop : Token} (split : ts = body ++ [stop])
      (isStop : stop.kind = .symbol .semicolon) (plain : ∀ t ∈ body, t.kind ∉ statementMarks)

theorem body_rounds {depth : Nat} {ts more : List Token} {ss : List Stmt}
    (derived : Ebnf.Body False false ts ss) {s : State} (read : s.rest = ts ++ more)
    (follows : Stops [.keyword .else] more) (room : s.rest.length < depth) :
    ∃ t, Rounds (topLevel depth) s t ∧ t.rest = more ∧ t.noted = s.noted := by
  obtain ⟨depth, rfl⟩ := Nat.exists_eq_add_one_of_ne_zero (Nat.ne_zero_of_lt room)
  induction ss generalizing ts s with
  | nil =>
    cases derived
    exact ⟨s, .refl, read, rfl⟩
  | cons first others ih =>
    cases derived with
    | @cons _ us _ vs _ one rest =>
      obtain ⟨u, us', starts, -⟩ := declaration_starts one
      rw [List.append_assoc] at read
      have fits : us.length + (vs ++ more).length < depth + 1 := by
        rwa [read, List.length_append] at room
      have complete := (nested_complete (depth + 1)).mono (Nat.le_succ depth)
      obtain ⟨o, id, run, -⟩ :=
        takes_declaration complete one (body_follows rest follows) fits s read
      have round : Round (topLevel (depth + 1)) s { s with rest := vs ++ more, nextId := id } :=
        ⟨⟨o, run⟩, by simp only [read, starts, List.length_append, List.length_cons]; omega⟩
      obtain ⟨t, rounds, ended, noted⟩ := ih rest rfl (Nat.lt_trans round.shorter room)
      exact ⟨t, .head round rounds, ended, noted⟩

/-- Two parses that stand in the same sentence get to its end with the same faults. -/
theorem sentence_rounds {A A' : Setting} (closed : A.Closed) (closed' : A'.Closed)
    {depth depth' : Nat} {ts : List Token} (within : Within ts) (room : ts.length ≤ depth)
    (room' : ts.length ≤ depth') {s s' : State} (state : Beside A A' ts s s') :
    ∃ t t', Rounds (topLevel depth) s t ∧ Rounds (topLevel depth') s' t' ∧
      Beside A A' [] t t' := by
  -- By induction on the number of tokens: a declaration leaves fewer of the sentence.
  obtain ⟨bound, short⟩ : ∃ bound, ts.length ≤ bound := ⟨_, Nat.le_refl _⟩
  induction bound generalizing ts s s' with
  | zero =>
    obtain rfl := List.length_eq_zero_iff.1 (Nat.le_zero.1 short)
    exact ⟨s, s', .refl, .refl, state⟩
  | succ bound ih =>
    rcases within with rfl | inside
    · exact ⟨s, s', .refl, .refl, state⟩
    · obtain ⟨us, o, o', m, m', run, run', state', fewer, within⟩ :=
        declaration_isolated closed closed' inside room room' false state
      obtain ⟨t, t', rounds, rounds', ended⟩ :=
        ih within (by omega) (by omega) state' (by omega)
      have round : Round (topLevel depth) s m :=
        ⟨⟨o, run⟩, by simpa [state.rest, state'.rest] using fewer⟩
      have round' : Round (topLevel depth') s' m' :=
        ⟨⟨o', run'⟩, by simpa [state.rest', state'.rest'] using fewer⟩
      exact ⟨t, t', .head round rounds, .head round' rounds', ended⟩

/-- A segment is read to its end, with the faults that it has on its own. -/
theorem segment_rounds {ts : List Token} {p : Parsed (List Stmt)} (segment : Segment ts)
    (proper : ∀ t ∈ ts, t.kind ≠ .eof) (alone : ParsedAlone ts p) {depth : Nat} {s : State}
    {more : List Token} (read : s.rest = ts ++ more) (follows : Stops [.keyword .else] more)
    (room : s.rest.length < depth) :
    ∃ t, Rounds (topLevel depth) s t ∧ t.rest = more ∧ t.noted = s.noted ++ p.faults ∧
      (p.faults = [] → ∃ ss, p.result = .ok ss) := by
  obtain ⟨depth', s', room', start, finish⟩ := alone.rounds proper
  have ends : Stops [.keyword .else] [] := by simp [Stops]
  cases segment with
  | @clean q tree alone' parsed =>
    obtain ⟨stop, nextId, isEnd, rfl⟩ := alone'
    have derived := program_of_parse proper isEnd parsed
    obtain ⟨t, rounds, ended, noted⟩ := body_rounds derived read follows room
    obtain ⟨t', rounds', ended', noted'⟩ :=
      body_rounds derived (start.rest.trans (List.append_nil ts).symm) ends (start.rest ▸ room')
    obtain ⟨faults, ok⟩ := finish t' rounds' ended'
    have silent : t'.noted = [] := noted'.trans start.noted
    exact ⟨t, rounds, ended, by rw [noted, faults, silent, List.append_nil], fun _ => ok silent⟩
  | sentence split isStop plain =>
    -- The second of the two parses is that of the segment on its own.
    have inside : Sentence ts := split ▸ sentence_append plain isStop
    have state : Beside ⟨more, s.noted⟩ ⟨[], []⟩ ts s s' :=
      ⟨read, start.rest.trans (List.append_nil ts).symm, [], (List.append_nil _).symm, start.noted⟩
    have fits : ts.length ≤ depth := by
      rw [read, List.length_append] at room
      omega
    obtain ⟨t, t', rounds, rounds', ended⟩ :=
      @sentence_rounds ⟨more, s.noted⟩ ⟨[], []⟩ follows ends _ _ _ (.inr inside) fits
        (Nat.le_of_lt room') _ _ state
    obtain ⟨new, noted, noted'⟩ := ended.noted
    obtain ⟨faults, ok⟩ := finish t' rounds' ended.rest'
    refine ⟨t, rounds, ended.rest, ?_, fun none => ok (faults.symm.trans none)⟩
    rw [noted, faults, noted']
    rfl

theorem stops_flatten {kinds : List Kind} {segments : List (List Token)}
    (h : ∀ ts ∈ segments, Stops kinds ts) : Stops kinds segments.flatten := by
  induction segments with
  | nil => simp [Stops]
  | cons ts segments ih =>
    obtain ⟨first, others⟩ := List.forall_mem_cons.1 h
    cases ts with
    | nil => exact ih others
    | cons t ts => exact first

section Segments

variable {segments : List (List Token)} {parses : List (Parsed (List Stmt))}
  (alone : List.Forall₂ ParsedAlone segments parses)
  (proper : ∀ ts ∈ segments, ∀ t ∈ ts, t.kind ≠ .eof)

include alone proper

theorem segments_rounds (segment : ∀ ts ∈ segments, Segment ts)
    (separate : ∀ ts ∈ segments.tail, Stops [.keyword .else] ts) {depth : Nat} {s : State}
    (read : s.rest = segments.flatten) (room : s.rest.length < depth) :
    ∃ t, Rounds (topLevel depth) s t ∧ t.rest = [] ∧
      t.noted = s.noted ++ parses.flatMap Parsed.faults ∧
      ∀ p ∈ parses, p.faults = [] → ∃ ss, p.result = .ok ss := by
  induction alone generalizing s with
  | nil => exact ⟨s, .refl, read, (List.append_nil _).symm, nofun⟩
  | @cons ts p segments parses first _ ih =>
    obtain ⟨segment, segments'⟩ := List.forall_mem_cons.1 segment
    obtain ⟨proper, proper'⟩ := List.forall_mem_cons.1 proper
    obtain ⟨m, rounds, left, noted, ok⟩ :=
      segment_rounds segment proper first read (stops_flatten separate) room
    have fewer : m.rest.length ≤ s.rest.length := by
      rw [left, read, List.flatten_cons, List.length_append]
      omega
    obtain ⟨t, rounds', ended, noted', ok'⟩ := ih proper' segments'
      (fun us mem => separate us (List.mem_of_mem_tail mem)) left (Nat.lt_of_le_of_lt fewer room)
    refine ⟨t, rounds.trans rounds', ended, ?_, List.forall_mem_cons.2 ⟨ok, ok'⟩⟩
    rw [noted', noted, List.flatMap_cons, List.append_assoc]

theorem segments_program (ok : ∀ p ∈ parses, ∃ ss, p.result = .ok ss) :
    ∃ trees, List.Forall₂ (fun p ss => p.result = .ok ss) parses trees ∧
      Ebnf.Program False segments.flatten trees.flatten := by
  induction alone with
  | nil => exact ⟨[], .nil, .nil⟩
  | @cons ts p segments parses first _ ih =>
    obtain ⟨⟨ss, parsed⟩, ok⟩ := List.forall_mem_cons.1 ok
    obtain ⟨proper, proper'⟩ := List.forall_mem_cons.1 proper
    obtain ⟨trees, others, derived⟩ := ih proper' ok
    obtain ⟨stop, nextId, ends, rfl⟩ := first
    exact ⟨ss :: trees, .cons parsed others,
      Ebnf.Body.append (program_of_parse proper ends parsed) derived⟩

/-- The faults of segments are those of each segment on its own, in order. If there are none, the
statements are those of each segment, too. No segment but the first may start with `else`. -/
theorem parse_segments {whole : Parsed (List Stmt)} (segment : ∀ ts ∈ segments, Segment ts)
    (separate : ∀ ts ∈ segments.tail, Stops [.keyword .else] ts)
    (together : ParsedAlone segments.flatten whole) :
    whole.faults = parses.flatMap Parsed.faults ∧
      ((∀ p ∈ parses, p.faults = []) → ∃ tree trees, whole.result = .ok tree ∧
        List.Forall₂ (fun p ss => p.result = .ok ss) parses trees ∧
        Stmt.unnumberedAll tree = Stmt.unnumberedAll trees.flatten) := by
  have proper' : ∀ t ∈ segments.flatten, t.kind ≠ .eof := by
    intro t mem
    obtain ⟨ts, mem', mem⟩ := List.mem_flatten.1 mem
    exact proper ts mem' t mem
  obtain ⟨depth, s, room, start, finish⟩ := together.rounds proper'
  obtain ⟨t, rounds, ended, noted, ok⟩ :=
    segments_rounds alone proper segment separate start.rest (start.rest ▸ room)
  refine ⟨?_, fun clean => ?_⟩
  · rw [(finish t rounds ended).1, noted, start.noted]
    rfl
  · obtain ⟨trees, parsed, derived⟩ :=
      segments_program alone proper fun p mem => ok p mem (clean p mem)
    obtain ⟨stop, nextId, ends, rfl⟩ := together
    obtain ⟨tree, parsed', same⟩ := parse_of_program nextId proper' ends derived
    exact ⟨tree, trees, parsed', parsed, same⟩

end Segments

/-- `{ print nil; }`, then `var nil break;` and `if (true) print this;` -/
def brokenSegments : List (List Token) :=
  [[⟨.symbol .leftBrace, "\x7b", 1⟩, ⟨.keyword .print, "print", 1⟩, ⟨.keyword .nil, "nil", 1⟩,
      ⟨.symbol .semicolon, ";", 1⟩, ⟨.symbol .rightBrace, "\x7d", 1⟩],
    [⟨.keyword .var, "var", 2⟩, ⟨.keyword .nil, "nil", 2⟩, ⟨.keyword .break, "break", 2⟩,
      ⟨.symbol .semicolon, ";", 2⟩],
    [⟨.keyword .if, "if", 3⟩, ⟨.symbol .leftParen, "(", 3⟩, ⟨.keyword .true, "true", 3⟩,
      ⟨.symbol .rightParen, ")", 3⟩, ⟨.keyword .print, "print", 3⟩, ⟨.keyword .this, "this", 3⟩,
      ⟨.symbol .semicolon, ";", 3⟩]]

theorem parse_segments_broken :
    (parse (brokenSegments.flatten ++ [missingEnd]) 0).faults =
      [.grammatical ⟨.keyword .nil, "nil", 2⟩ .expectVariableName,
        .grammatical ⟨.keyword .break, "break", 2⟩ .breakOutsideLoop] := by
  have alone : List.Forall₂ ParsedAlone brokenSegments
      (brokenSegments.map fun ts => parse (ts ++ [missingEnd]) 0) :=
    List.forall₂_map_right_iff.2 (List.forall₂_same.2 fun ts _ => ⟨missingEnd, 0, rfl, rfl⟩)
  have clean : ∀ {ts tree}, (parse (ts ++ [missingEnd]) 0).result = .ok tree → Segment ts :=
    fun parsed => .clean ⟨missingEnd, 0, rfl, rfl⟩ parsed
  have segment : ∀ ts ∈ brokenSegments, Segment ts := by
    refine List.forall_mem_cons.2 ⟨clean rfl, List.forall_mem_cons.2 ⟨?_, ?_⟩⟩
    · exact @Segment.sentence _ brokenSegments[1].dropLast _ rfl rfl (by decide)
    · exact List.forall_mem_singleton.2 (clean rfl)
  have separate : ∀ ts ∈ brokenSegments.tail, Stops [.keyword .else] ts := by
    simp [brokenSegments, Stops]
  exact (parse_segments alone (by decide) segment separate ⟨missingEnd, 0, rfl, rfl⟩).1.trans
    (by decide +kernel)

end Lox.Grammar
