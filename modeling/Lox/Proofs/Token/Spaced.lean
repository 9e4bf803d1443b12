import Lox.Proofs.Token.Longest

/-!
# Lexemes in a row

Every token of a source text but the end marker is a lexeme (`tokensBeforeEnd_lexeme`), and lexemes
with a space between each two are scanned as what they are (`scanFrom_spaced`), since nothing that is
taken for one of them goes on with a blank. So the lexemes of a text, written in a row, have no
faults and the tokens of the text (`tokenize_spaced`).
-/

namespace Lox

/-- What a token is, wherever it stands. -/
def Token.content (t : Token) : Kind × String := (t.kind, t.lexeme)

def Scanned.content? : Scanned → Option (Kind × String)
  | token t => some t.content
  | fault _ _ => none

namespace Scan

/-! ### Tokens are lexemes -/

theorem First.lexeme {cs : List Char} {m : Munch} {kind : Kind} (first : First cs m)
    (token : m.piece = .token kind) : Lexeme m.text kind := by
  cases first with
  | token _ _ longest =>
    cases token
    exact longest.lexeme
  | blank | comment | unterminated | unexpected => cases token

theorem scanFrom_lexeme (line : Nat) (cs : List Char) :
    ∀ t, .token t ∈ scanFrom line cs → t.kind = .eof ∨ Lexeme t.lexeme.toList t.kind := by
  fun_induction scanFrom line cs with
  | case1 line =>
    intro t mem
    cases List.mem_singleton.1 mem
    exact .inl rfl
  | case2 line c cs m last isSkip ih => exact ih
  | case3 line c cs m last kind isToken ih =>
    intro t mem
    rcases List.mem_cons.1 mem with same | later
    · cases same
      refine .inr ?_
      rw [String.toList_ofList]
      exact (first_munch c cs).lexeme isToken
    · exact ih t later
  | case4 line c cs m last cause isFault ih =>
    intro t mem
    rcases List.mem_cons.1 mem with same | later
    · cases same
    · exact ih t later

/-! ### Lexemes are tokens -/

theorem scanFrom_blank {c : Char} (blank : Blank c) (line : Nat) (cs : List Char) :
    ∃ last, scanFrom line (c :: cs) = scanFrom last cs := by
  rw [scanFrom_cons, munch_blank cs blank]
  exact ⟨_, rfl⟩

/-- A lexeme that no blank goes on with is the first token, and the rest is what comes after. -/
theorem scanFrom_lexeme_before {text rest : List Char} {kind : Kind} (lexeme : Lexeme text kind)
    (parted : ∀ c, rest.head? = some c → Blank c) (line : Nat) :
    ∃ last, scanFrom line (text ++ rest) =
      .token ⟨kind, String.ofList text, last⟩ :: scanFrom last rest := by
  obtain ⟨c, cs, rfl, taken⟩ := lexeme.munch_before parted
  rw [List.cons_append, scanFrom_cons, taken]
  exact ⟨_, rfl⟩

/-- Lexemes in a row are scanned as what they are, each on the line where it comes to stand. -/
theorem scanFrom_spaced (items : List (Kind × String))
    (lexemes : ∀ item ∈ items, Lexeme item.2.toList item.1) (line : Nat) :
    (scanFrom line ([' '].intercalate (items.map (·.2.toList)))).map Scanned.content? =
      (items ++ [(Kind.eof, "")]).map some := by
  induction items generalizing line with
  | nil =>
    show (scanFrom line []).map _ = _
    rw [scanFrom]
    rfl
  | cons item items ih =>
    have first := lexemes item (List.mem_cons_self ..)
    have later := ih fun other mem => lexemes other (List.mem_cons_of_mem _ mem)
    cases items with
    | nil =>
      have parted : ∀ c, ([] : List Char).head? = some c → Blank c := by
        rintro c ⟨⟩
      obtain ⟨last, taken⟩ := scanFrom_lexeme_before first parted line
      show (scanFrom line (item.2.toList ++ [])).map _ = _
      rw [taken, scanFrom, String.ofList_toList]
      rfl
    | cons next items =>
      have blank : Blank ' ' := .inl rfl
      have parts : [' '].intercalate ((item :: next :: items).map (·.2.toList)) =
          item.2.toList ++ ' ' :: [' '].intercalate ((next :: items).map (·.2.toList)) :=
        List.intercalate_cons_cons.trans (List.append_assoc _ _ _)
      have parted : ∀ c, (' ' :: [' '].intercalate ((next :: items).map (·.2.toList))).head? =
          some c → Blank c := by
        rintro c ⟨⟩
        exact blank
      obtain ⟨last, taken⟩ := scanFrom_lexeme_before first parted line
      obtain ⟨last', skipped⟩ := scanFrom_blank blank last
        ([' '].intercalate ((next :: items).map (·.2.toList)))
      rw [parts, taken, skipped, String.ofList_toList, List.map_cons, later last']
      rfl

end Scan

/-! ### Source texts -/

theorem tokensBeforeEnd_lexeme (source : String) :
    ∀ t ∈ tokensBeforeEnd source, Scan.Lexeme t.lexeme.toList t.kind := by
  intro t mem
  have proper := (tokenize_end source).2 t mem
  obtain ⟨piece, found, same⟩ := List.mem_filterMap.1 (List.mem_of_mem_filter mem)
  cases piece with
  | fault line cause => cases same
  | token t' =>
    cases same
    exact (Scan.scanFrom_lexeme 1 source.toList t found).resolve_left proper

/-- Where all that is scanned is a token, there is no fault. -/
theorem contents_of_scanned {found : List Scanned} {items : List (Kind × String)}
    (same : found.map Scanned.content? = items.map some) :
    (found.filterMap Scanned.token?).map Token.content = items ∧
      found.filterMap Scanned.diagnostic? = [] := by
  induction found generalizing items with
  | nil =>
    cases items with
    | nil => exact ⟨rfl, rfl⟩
    | cons => cases same
  | cons piece found ih =>
    cases items with
    | nil => cases same
    | cons item items =>
      obtain ⟨first, later⟩ := List.cons.inj same
      obtain ⟨tokens, faults⟩ := ih later
      cases piece with
      | fault line cause => cases first
      | token t =>
        cases first
        exact ⟨congrArg _ tokens, faults⟩

/-- The lexemes of a source text, with a single space between each two: of `7.x!==//1` it is
`7 . x != =`. -/
def spaced (source : String) : String :=
  " ".intercalate ((tokensBeforeEnd source).map Token.lexeme)

theorem spaced_toList (source : String) :
    (spaced source).toList =
      [' '].intercalate (((tokensBeforeEnd source).map Token.content).map (·.2.toList)) := by
  rw [spaced, String.toList_intercalate, List.map_map, List.map_map]
  rfl

/-- Whether or not a text has faults, its lexemes in a row have none and the same tokens, and the end
marker after them. -/
theorem tokenize_spaced (source : String) :
    (tokenize (spaced source)).2 = [] ∧
      (tokenize (spaced source)).1.map Token.content = (tokenize source).1.map Token.content ∧
      (tokenize (spaced source)).1.map Token.content =
        (tokensBeforeEnd source).map Token.content ++ [(.eof, "")] := by
  have lexemes : ∀ item ∈ (tokensBeforeEnd source).map Token.content,
      Scan.Lexeme item.2.toList item.1 := by
    intro item mem
    obtain ⟨t, inside, rfl⟩ := List.mem_map.1 mem
    exact tokensBeforeEnd_lexeme source t inside
  have again : (scan (spaced source)).map Scanned.content? =
      ((tokensBeforeEnd source).map Token.content ++ [(Kind.eof, "")]).map some := by
    unfold scan
    rw [spaced_toList]
    exact Scan.scanFrom_spaced _ lexemes 1
  obtain ⟨tokens, faults⟩ := contents_of_scanned again
  refine ⟨faults, tokens.trans ?_, tokens⟩
  rw [(tokenize_end source).1, List.map_append]
  rfl

end Lox
