import Lox.Proofs.Token.Spelling

/-!
# Texts joined by a newline

No piece but an open string goes on past the end of a line. So what is scanned in two texts with a
newline between them is what is scanned in the first and then what is scanned in the second, on
later lines (`tokenize_seam`, `tokenize_joined`).
-/

namespace Lox

/-- The same token on another line. -/
def Token.moved (f : Nat → Nat) (t : Token) : Token := { t with line := f t.line }

def Scanned.moved (f : Nat → Nat) : Scanned → Scanned
  | token t => token (t.moved f)
  | fault line cause => fault (f line) cause

def Diagnostic.moved (f : Nat → Nat) : Diagnostic → Diagnostic
  | lexical line fault => lexical (f line) fault
  | grammatical place fault => grammatical (place.moved f) fault
  | binding place fault => binding (place.moved f) fault

/-- The same piece, with more text behind it. -/
def Munch.before (m : Munch) (more : List Char) : Munch := { m with rest := m.rest ++ more }

@[simp] theorem Munch.before_piece (m : Munch) (more : List Char) :
    (m.before more).piece = m.piece := rfl

@[simp] theorem Munch.before_text (m : Munch) (more : List Char) :
    (m.before more).text = m.text := rfl

@[simp] theorem Munch.before_rest (m : Munch) (more : List Char) :
    (m.before more).rest = m.rest ++ more := rfl

namespace Scan

/-! ### Single pieces -/

section Lines

variable {p : Char → Bool} (stops : p '\n' = false) (cs ds : List Char)

include stops

theorem takeWhile_line : (cs ++ '\n' :: ds).takeWhile p = cs.takeWhile p := by
  induction cs with
  | nil => simp [stops]
  | cons c cs ih =>
    rw [List.cons_append, List.takeWhile_cons, List.takeWhile_cons, ih]

theorem dropWhile_line : (cs ++ '\n' :: ds).dropWhile p = cs.dropWhile p ++ '\n' :: ds := by
  induction cs with
  | nil => simp [stops]
  | cons c cs ih =>
    rw [List.cons_append, List.dropWhile_cons, List.dropWhile_cons, ih]
    split <;> rfl

end Lines

theorem take_line {p : Char → Bool} (stops : p '\n' = false) (start cs ds : List Char)
    (piece : List Char → Piece) :
    take start p (cs ++ '\n' :: ds) piece = (take start p cs piece).before ('\n' :: ds) := by
  unfold take
  dsimp only
  rw [takeWhile_line stops, dropWhile_line stops]
  rfl

theorem munchNumber_line (cs ds : List Char) :
    munchNumber (cs ++ '\n' :: ds) = (munchNumber cs).before ('\n' :: ds) := by
  unfold munchNumber
  rw [takeWhile_line (by decide), dropWhile_line (by decide)]
  rcases cs.dropWhile Char.isDigit with _ | ⟨c, _ | ⟨d, rest⟩⟩
  · rfl
  · by_cases point : c = '.'
    · subst point
      rfl
    · simp [point, Munch.before]
  · by_cases point : c = '.'
    · subst point
      have digits := takeWhile_line (p := Char.isDigit) (by decide) (d :: rest) ds
      have others := dropWhile_line (p := Char.isDigit) (by decide) (d :: rest) ds
      simp only [List.cons_append] at digits others ⊢
      rw [digits, others]
      split <;> rfl
    · simp [point, Munch.before]

theorem munchString_line {cs : List Char} (ds : List Char)
    (closed : (munchString cs).piece ≠ .fault .unterminatedString) :
    munchString (cs ++ '\n' :: ds) = (munchString cs).before ('\n' :: ds) := by
  unfold munchString at closed ⊢
  rw [List.takeWhile_append, List.dropWhile_append]
  cases found : cs.dropWhile (· != '"') with
  | nil =>
    rw [found] at closed
    exact absurd rfl closed
  | cons quote rest =>
    have inside : (cs.takeWhile (· != '"')).length ≠ cs.length := by
      have whole := congrArg List.length
        (List.takeWhile_append_dropWhile (p := (· != '"')) (l := cs))
      rw [found, List.length_append, List.length_cons] at whole
      omega
    rw [if_neg inside]
    rfl

/-- A piece that is no open string ends before a newline that is not in it. -/
theorem munch_line (c : Char) (cs ds : List Char)
    (closed : (munch c cs).piece ≠ .fault .unterminatedString) :
    munch c (cs ++ '\n' :: ds) = (munch c cs).before ('\n' :: ds) := by
  unfold munch at closed ⊢
  split
  · rfl
  · rcases cs with _ | ⟨d, cs⟩
    · rfl
    · by_cases equals : d = '='
      · subst equals
        rfl
      · simp [equals, Munch.before]
  · split
    · rcases cs with _ | ⟨d, cs⟩
      · rfl
      · by_cases slash : d = '/'
        · subst slash
          exact take_line (by decide) _ cs ds _
        · simp [slash, Munch.before]
    · split
      · next isQuote =>
        obtain rfl : c = '"' := by simpa using isQuote
        exact munchString_line ds closed
      · split
        · rfl
        · split
          · exact munchNumber_line (c :: cs) ds
          · split
            · exact take_line (by decide) _ cs ds _
            · rfl

/-! ### Whole texts -/

/-- What a piece of a text that ends on `line` counts as. -/
def scanned (line : Nat) (text : List Char) : Piece → List Scanned
  | .skip => []
  | .token kind => [.token ⟨kind, String.ofList text, line⟩]
  | .fault cause => [.fault line cause]

theorem scanFrom_cons (line : Nat) (c : Char) (cs : List Char) :
    scanFrom line (c :: cs) =
      scanned (line + (munch c cs).text.count '\n') (munch c cs).text (munch c cs).piece ++
        scanFrom (line + (munch c cs).text.count '\n') (munch c cs).rest := by
  rw [scanFrom]
  cases (munch c cs).piece <;> rfl

theorem scanned_moved (f : Nat → Nat) (line : Nat) (text : List Char) (piece : Piece) :
    (scanned line text piece).map (Scanned.moved f) = scanned (f line) text piece := by
  cases piece <;> rfl

/-- On later lines a text reads as it does elsewhere. -/
theorem scanFrom_later (line shift : Nat) : (cs : List Char) →
    scanFrom (line + shift) cs = (scanFrom line cs).map (Scanned.moved (· + shift))
  | [] => by
    rw [scanFrom, scanFrom]
    rfl
  | c :: cs => by
    rw [scanFrom_cons, scanFrom_cons, List.map_append, scanned_moved, Nat.add_right_comm,
      scanFrom_later]
termination_by cs => cs.length
decreasing_by exact Nat.lt_succ_of_le (length_munch_rest_le c cs)

theorem count_munch (c : Char) (cs : List Char) :
    (c :: cs).count '\n' = (munch c cs).text.count '\n' + (munch c cs).rest.count '\n' := by
  rw [← List.count_append, munch_text_append_rest]

theorem munch_not_eof (c : Char) (cs : List Char) : (munch c cs).piece ≠ .token .eof := by
  unfold munch
  split
  · simp
  · split <;> simp
  · split
    · split <;> simp [take]
    · split
      · unfold munchString
        split <;> simp
      · split
        · simp
        · split
          · obtain ⟨x, same⟩ := munchNumber_piece (c :: cs)
            simp [same]
          · split
            · show Piece.token (wordKind _) ≠ _
              unfold wordKind
              split <;> simp
            · simp

theorem scanned_not_eof {line : Nat} {text : List Char} {piece : Piece}
    (other : piece ≠ .token .eof) : ∀ t, .token t ∈ scanned line text piece → t.kind ≠ .eof := by
  intro t mem isEof
  cases piece with
  | skip => exact List.not_mem_nil mem
  | fault cause => cases List.mem_singleton.1 mem
  | token kind =>
    cases List.mem_singleton.1 mem
    exact other (congrArg Piece.token isEof)

/-- What a text yields before its end marker it yields before a newline and another text, too. -/
theorem scanFrom_seam (line : Nat) : (cs : List Char) →
    ∃ found, scanFrom line cs = found ++ [.token ⟨.eof, "", line + cs.count '\n'⟩] ∧
      (∀ t, .token t ∈ found → t.kind ≠ .eof) ∧
      ∀ ds, (∀ l, .fault l .unterminatedString ∉ found) →
        scanFrom line (cs ++ '\n' :: ds) = found ++ scanFrom (line + (1 + cs.count '\n')) ds
  | [] => by
    refine ⟨[], ?_, nofun, fun ds _ => ?_⟩
    · rw [scanFrom]
      rfl
    · rw [List.nil_append, scanFrom_cons]
      rfl
  | c :: cs => by
    obtain ⟨found, here, proper, both⟩ :=
      scanFrom_seam (line + (munch c cs).text.count '\n') (munch c cs).rest
    refine ⟨scanned (line + (munch c cs).text.count '\n') (munch c cs).text (munch c cs).piece ++
      found, ?_, ?_, fun ds closed => ?_⟩
    · rw [scanFrom_cons, here, count_munch, List.append_assoc, Nat.add_assoc]
    · intro t mem
      rcases List.mem_append.1 mem with first | later
      · exact scanned_not_eof (munch_not_eof c cs) t first
      · exact proper t later
    · have shut : (munch c cs).piece ≠ .fault .unterminatedString := fun isOpen =>
        closed _ (List.mem_append_left _ (by rw [isOpen]; exact List.mem_singleton_self _))
      rw [List.cons_append, scanFrom_cons, munch_line c cs ds shut]
      simp only [Munch.before_piece, Munch.before_text, Munch.before_rest]
      rw [both ds fun l mem => closed l (List.mem_append_right _ mem), count_munch,
        List.append_assoc]
      congr 3
      omega
termination_by cs => cs.length
decreasing_by exact Nat.lt_succ_of_le (length_munch_rest_le c cs)

end Scan

/-! ### Source texts -/

def newlines (source : String) : Nat := source.toList.count '\n'

theorem filterMap_token_moved (f : Nat → Nat) (pieces : List Scanned) :
    (pieces.map (Scanned.moved f)).filterMap Scanned.token? =
      (pieces.filterMap Scanned.token?).map (Token.moved f) := by
  rw [List.filterMap_map, List.map_filterMap]
  congr 1
  funext piece
  cases piece <;> rfl

theorem filterMap_diagnostic_moved (f : Nat → Nat) (pieces : List Scanned) :
    (pieces.map (Scanned.moved f)).filterMap Scanned.diagnostic? =
      (pieces.filterMap Scanned.diagnostic?).map (Diagnostic.moved f) := by
  rw [List.filterMap_map, List.map_filterMap]
  congr 1
  funext piece
  cases piece <;> rfl

/-- The end marker is the last thing that a text yields and no other is one. Before a newline and
another text, a text without an open string yields the same things, and the other text the same on
later lines. -/
theorem scan_seam (a : String) :
    ∃ found, scan a = found ++ [.token ⟨.eof, "", 1 + newlines a⟩] ∧
      (∀ t, .token t ∈ found → t.kind ≠ .eof) ∧
      ∀ b, (∀ l, .lexical l .unterminatedString ∉ (tokenize a).2) →
        scan (a ++ "\n" ++ b) = found ++ (scan b).map (Scanned.moved (· + (1 + newlines a))) := by
  obtain ⟨found, here, proper, both⟩ := Scan.scanFrom_seam 1 a.toList
  change scan a = _ at here
  refine ⟨found, here, proper, fun b closed => ?_⟩
  have joined : (a ++ "\n" ++ b).toList = a.toList ++ '\n' :: b.toList := by simp
  have shut : ∀ l, .fault l .unterminatedString ∉ found := fun l mem =>
    closed l (List.mem_filterMap.2 ⟨_, here ▸ List.mem_append_left _ mem, rfl⟩)
  rw [scan, joined, both b.toList shut, Scan.scanFrom_later]
  rfl

/-- The tokens of a source text without the end marker. -/
def tokensBeforeEnd (source : String) : List Token := (tokenize source).1.filter (·.kind ≠ .eof)

theorem filterMap_token_before_end {found : List Scanned}
    (proper : ∀ t, .token t ∈ found → t.kind ≠ .eof) :
    ∀ t ∈ found.filterMap Scanned.token?, t.kind ≠ .eof := by
  intro t mem
  obtain ⟨piece, known, same⟩ := List.mem_filterMap.1 mem
  cases piece with
  | fault line cause => cases same
  | token t' =>
    cases same
    exact proper t known

theorem tokenize_of_scan {source : String} {found : List Scanned} {stop : Token}
    (here : scan source = found ++ [.token stop]) :
    (tokenize source).1 = found.filterMap Scanned.token? ++ [stop] ∧
      (tokenize source).2 = found.filterMap Scanned.diagnostic? := by
  constructor
  · show (scan source).filterMap _ = _
    rw [here, List.filterMap_append]
    rfl
  · show (scan source).filterMap _ = _
    rw [here, List.filterMap_append]
    exact List.append_nil _

/-- The end marker is the last token and no other. -/
theorem tokenize_end (source : String) :
    (tokenize source).1 = tokensBeforeEnd source ++ [⟨.eof, "", 1 + newlines source⟩] ∧
      ∀ t ∈ tokensBeforeEnd source, t.kind ≠ .eof := by
  obtain ⟨found, here, proper, -⟩ := scan_seam source
  have all := filterMap_token_before_end proper
  have tokens := (tokenize_of_scan here).1
  have same : tokensBeforeEnd source = found.filterMap Scanned.token? := by
    rw [tokensBeforeEnd, tokens, List.filter_append, List.filter_eq_self.2 (by simpa using all)]
    exact List.append_nil _
  rw [tokens, same]
  exact ⟨rfl, all⟩

/-- The end marker is the last token and no other. Before a newline and another text, a text
without an open string yields the same tokens and faults, and the other text the same on later
lines. -/
theorem tokenize_seam (a : String) :
    ∃ found, (tokenize a).1 = found ++ [⟨.eof, "", 1 + newlines a⟩] ∧
      (∀ t ∈ found, t.kind ≠ .eof) ∧
      ∀ b, (∀ l, .lexical l .unterminatedString ∉ (tokenize a).2) →
        (tokenize (a ++ "\n" ++ b)).1 =
          found ++ (tokenize b).1.map (Token.moved (· + (1 + newlines a))) ∧
        (tokenize (a ++ "\n" ++ b)).2 =
          (tokenize a).2 ++ (tokenize b).2.map (Diagnostic.moved (· + (1 + newlines a))) := by
  obtain ⟨found, here, proper, both⟩ := scan_seam a
  obtain ⟨tokens, faults⟩ := tokenize_of_scan here
  refine ⟨found.filterMap Scanned.token?, tokens, filterMap_token_before_end proper,
    fun b closed => ?_⟩
  have whole := both b closed
  constructor
  · show (scan _).filterMap _ = _
    rw [whole, List.filterMap_append, filterMap_token_moved]
    rfl
  · show (scan _).filterMap _ = _
    rw [whole, List.filterMap_append, filterMap_diagnostic_moved, faults]
    rfl

/-- Two texts with a newline between them, of which the first leaves no string open, yield what the
first one yields before its end and then what the second one yields, on later lines. -/
theorem tokenize_joined (a b : String)
    (closed : ∀ line, .lexical line .unterminatedString ∉ (tokenize a).2) :
    scan (a ++ "\n" ++ b) =
        (scan a).dropLast ++ (scan b).map (Scanned.moved (· + (1 + newlines a))) ∧
      (tokenize (a ++ "\n" ++ b)).1 =
        tokensBeforeEnd a ++ (tokenize b).1.map (Token.moved (· + (1 + newlines a))) ∧
      (tokenize (a ++ "\n" ++ b)).2 =
        (tokenize a).2 ++ (tokenize b).2.map (Diagnostic.moved (· + (1 + newlines a))) := by
  obtain ⟨found, here, -, both⟩ := scan_seam a
  obtain ⟨before, first, -, apart⟩ := tokenize_seam a
  obtain ⟨tokens, faults⟩ := apart b closed
  have same : before = tokensBeforeEnd a :=
    List.append_cancel_right (first.symm.trans (tokenize_end a).1)
  refine ⟨?_, same ▸ tokens, faults⟩
  rw [both b closed, here, List.dropLast_concat]

/-- The first text has a fault, a newline in a string, and ends in a comment after a number and a
point; the second one begins with a digit. -/
theorem tokenize_joined_number :
    let a := "@ \"x\ny\" 7.//z"
    let b := "5 \"\n"
    (∀ line, .lexical line .unterminatedString ∉ (tokenize a).2) ∧
      (tokenize (a ++ "\n" ++ b)).1 =
        tokensBeforeEnd a ++ (tokenize b).1.map (Token.moved (· + (1 + newlines a))) ∧
      (tokenize (a ++ "\n" ++ b)).2 = [.lexical 1 (.unexpectedCharacter '@'),
        .lexical 4 .unterminatedString] := by
  intro a b
  have faults : (tokenize a).2 = [.lexical 1 (.unexpectedCharacter '@')] := by decide +kernel
  have closed : ∀ line, .lexical line .unterminatedString ∉ (tokenize a).2 := by
    rw [faults]
    simp
  obtain ⟨-, tokens, both⟩ := tokenize_joined a b closed
  refine ⟨closed, tokens, both.trans ?_⟩
  rw [faults]
  decide +kernel

end Lox
