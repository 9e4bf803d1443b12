import Mathlib.Data.List.Forall2
import Lox.Proofs.Token.Longest

/-!
# Where things stand

What scanning yields takes up stretches of the source text, one after another; between them are
blanks and comments and nothing else (`Layout`). A line is one more than the newlines up to the end
of the stretch. The end marker comes last, and asking on after it yields nothing
(`scan_laid_out`).
-/

namespace Lox

/-! ### Stretches of bytes -/

/-- The bytes of a text from `start` on and before `stop`. -/
structure Stretch where
  start : Nat
  stop : Nat

def Stretch.Has (s : Stretch) (i : Nat) : Prop := s.start ≤ i ∧ i < s.stop

/-- The stretch is what `text` takes up between `before` and `after`; it starts and stops between
two characters. -/
structure Stretch.Holds (s : Stretch) (source before text after : String) : Prop where
  whole : source = before ++ text ++ after
  start : s.start = before.utf8ByteSize
  stop : s.stop = (before ++ text).utf8ByteSize

def Scanned.line : Scanned → Nat
  | token t => t.line
  | fault line _ => line

/-- What is scanned is the text of the stretch, if it is a token, and counts the lines up to its
end. -/
def Scanned.Takes (source : String) (item : Scanned) (s : Stretch) : Prop :=
  ∃ before text after, s.Holds source before text after ∧ text ≠ "" ∧
    (∀ t, item = .token t → t.lexeme = text) ∧ item.line = 1 + newlines (before ++ text)

/-- The stretch is a single blank or a comment up to the end of its line. -/
def Stretch.Skipped (source : String) (s : Stretch) : Prop :=
  ∃ before text after, s.Holds source before text after ∧
    ((∃ c, Scan.Blank c ∧ text = String.singleton c) ∨
      ∃ body, text = "//" ++ body ∧ '\n' ∉ body.toList ∧
        (after = "" ∨ ∃ rest, after = "\n" ++ rest))

/-- From byte `start` on a text is taken up by what was found, each thing in its place, and by
gaps. -/
structure Layout (source : String) (start : Nat) (found : List Scanned)
    (places gaps : List Stretch) : Prop where
  takes : List.Forall₂ (Scanned.Takes source) found places
  ordered : places.Pairwise (·.stop ≤ ·.start)
  skipped : ∀ gap ∈ gaps, gap.Skipped source
  apart : ∀ gap ∈ gaps, ∀ place ∈ places, gap.stop ≤ place.start ∨ place.stop ≤ gap.start
  within : ∀ s ∈ places ++ gaps, start ≤ s.start
  covered : ∀ i, start ≤ i → i < source.utf8ByteSize → ∃ s ∈ places ++ gaps, s.Has i

namespace Layout

variable {source : String} {start stop : Nat} {found : List Scanned} {places gaps : List Stretch}

theorem done : Layout source source.utf8ByteSize [] [] [] where
  takes := .nil
  ordered := .nil
  skipped := nofun
  apart := nofun
  within := nofun
  covered _ least most := absurd most (Nat.not_lt.2 least)

/-- One more thing in front. -/
theorem found_before {item : Scanned} (takes : item.Takes source ⟨start, stop⟩)
    (forward : start ≤ stop) (later : Layout source stop found places gaps) :
    Layout source start (item :: found) (⟨start, stop⟩ :: places) gaps where
  takes := .cons takes later.takes
  ordered := List.pairwise_cons.2
    ⟨fun place mem => later.within place (List.mem_append_left _ mem), later.ordered⟩
  skipped := later.skipped
  apart gap inGaps place inPlaces := by
    rcases List.mem_cons.1 inPlaces with rfl | inPlaces
    · exact .inr (later.within gap (List.mem_append_right _ inGaps))
    · exact later.apart gap inGaps place inPlaces
  within s mem := by
    rcases List.mem_cons.1 mem with rfl | mem
    · exact Nat.le_refl _
    · exact forward.trans (later.within s mem)
  covered i least most := by
    by_cases here : i < stop
    · exact ⟨⟨start, stop⟩, List.mem_cons_self .., least, here⟩
    · obtain ⟨s, mem, has⟩ := later.covered i (Nat.not_lt.1 here) most
      exact ⟨s, List.mem_cons_of_mem _ mem, has⟩

/-- One more gap in front. -/
theorem gap_before (skipped : Stretch.Skipped source ⟨start, stop⟩) (forward : start ≤ stop)
    (later : Layout source stop found places gaps) :
    Layout source start found places (⟨start, stop⟩ :: gaps) where
  takes := later.takes
  ordered := later.ordered
  skipped := List.forall_mem_cons.2 ⟨skipped, later.skipped⟩
  apart gap inGaps place inPlaces := by
    rcases List.mem_cons.1 inGaps with rfl | inGaps
    · exact .inl (later.within place (List.mem_append_left _ inPlaces))
    · exact later.apart gap inGaps place inPlaces
  within s mem := by
    rcases List.mem_append.1 mem with inPlaces | inGaps
    · exact forward.trans (later.within s (List.mem_append_left _ inPlaces))
    · rcases List.mem_cons.1 inGaps with rfl | inGaps
      · exact Nat.le_refl _
      · exact forward.trans (later.within s (List.mem_append_right _ inGaps))
  covered i least most := by
    by_cases here : i < stop
    · exact ⟨⟨start, stop⟩, List.mem_append_right _ (List.mem_cons_self ..), least, here⟩
    · obtain ⟨s, mem, has⟩ := later.covered i (Nat.not_lt.1 here) most
      rcases List.mem_append.1 mem with inPlaces | inGaps
      · exact ⟨s, List.mem_append_left _ inPlaces, has⟩
      · exact ⟨s, List.mem_append_right _ (List.mem_cons_of_mem _ inGaps), has⟩

end Layout

namespace Scan

/-! ### One piece -/

/-- A text is skipped as a blank or as a comment that ends where its line does. -/
theorem First.skipped {cs : List Char} {m : Munch} (first : First cs m) (skip : m.piece = .skip) :
    (∃ c, Blank c ∧ m.text = [c]) ∨
      ∃ body, m.text = '/' :: '/' :: body ∧ '\n' ∉ body ∧
        ∀ c, m.rest.head? = some c → c = '\n' := by
  cases first with
  | blank _ blank => exact .inl ⟨_, blank, rfl⟩
  | comment _ inside ends => exact .inr ⟨_, rfl, inside, ends⟩
  | token | unterminated | unexpected => cases skip

section Piece

variable (read : List Char) (c : Char) (cs : List Char)

/-- The bytes that the first piece of a text takes up after those that are read. -/
def pieceStretch : Stretch where
  start := (String.ofList read).utf8ByteSize
  stop := (String.ofList (read ++ (munch c cs).text)).utf8ByteSize

theorem pieceStretch_holds :
    (pieceStretch read c cs).Holds (String.ofList (read ++ c :: cs)) (String.ofList read)
      (String.ofList (munch c cs).text) (String.ofList (munch c cs).rest) where
  whole := by
    rw [← String.ofList_append, ← String.ofList_append, List.append_assoc, munch_text_append_rest]
  start := rfl
  stop := by rw [← String.ofList_append]; rfl

theorem pieceStretch_forward : (pieceStretch read c cs).start ≤ (pieceStretch read c cs).stop := by
  rw [(pieceStretch_holds read c cs).start, (pieceStretch_holds read c cs).stop,
    String.utf8ByteSize_append]
  exact Nat.le_add_right _ _

theorem pieceStretch_skipped (skip : (munch c cs).piece = .skip) :
    (pieceStretch read c cs).Skipped (String.ofList (read ++ c :: cs)) := by
  refine ⟨_, _, _, pieceStretch_holds read c cs, ?_⟩
  obtain ⟨c', blank, text⟩ | ⟨body, text, inside, ends⟩ := (first_munch c cs).skipped skip
  · exact .inl ⟨c', blank, by rw [text]; rfl⟩
  · refine .inr ⟨String.ofList body, ?_, by rwa [String.toList_ofList], ?_⟩
    · rw [text]
      exact (String.ofList_append : String.ofList (['/', '/'] ++ body) = _)
    · cases after : (munch c cs).rest with
      | nil => exact .inl rfl
      | cons d rest =>
        obtain rfl := ends d (by rw [after]; rfl)
        exact .inr ⟨_, (String.ofList_append : String.ofList (['\n'] ++ rest) = _)⟩

theorem pieceStretch_takes {line : Nat} {item : Scanned}
    (last : line = 1 + (read ++ (munch c cs).text).count '\n')
    (mem : item ∈ scanned line (munch c cs).text (munch c cs).piece) :
    item.Takes (String.ofList (read ++ c :: cs)) (pieceStretch read c cs) := by
  have ends : item.line = line ∧
      ∀ t, item = .token t → t.lexeme = String.ofList (munch c cs).text := by
    cases piece : (munch c cs).piece with
    | skip =>
      rw [piece] at mem
      cases mem
    | token kind =>
      rw [piece] at mem
      obtain rfl := List.mem_singleton.1 mem
      exact ⟨rfl, fun t same => by cases same; rfl⟩
    | fault cause =>
      rw [piece] at mem
      obtain rfl := List.mem_singleton.1 mem
      exact ⟨rfl, nofun⟩
  refine ⟨_, _, _, pieceStretch_holds read c cs, ?_, ends.2, ?_⟩
  · exact fun none => munch_text_ne_nil c cs (by simpa using congrArg String.toList none)
  · rw [ends.1, last, ← String.ofList_append]
    unfold newlines
    rw [String.toList_ofList]

end Piece

/-! ### Whole texts -/

/-- What is scanned after the characters that are read is laid out in what follows them. -/
theorem scanFrom_laid_out (read : List Char) : (cs : List Char) →
    ∃ found places gaps, scanFrom (1 + read.count '\n') cs =
        found ++ [.token ⟨.eof, "", 1 + (read ++ cs).count '\n'⟩] ∧
      Layout (String.ofList (read ++ cs)) (String.ofList read).utf8ByteSize found places gaps
  | [] => by
    refine ⟨[], [], [], ?_, ?_⟩
    · rw [scanFrom, List.append_nil]
      rfl
    · rw [List.append_nil]
      exact .done
  | c :: cs => by
    obtain ⟨found, places, gaps, later, laid⟩ :=
      scanFrom_laid_out (read ++ (munch c cs).text) (munch c cs).rest
    have last : 1 + read.count '\n' + (munch c cs).text.count '\n' =
        1 + (read ++ (munch c cs).text).count '\n' := by
      rw [List.count_append, Nat.add_assoc]
    rw [List.append_assoc, munch_text_append_rest] at later laid
    rw [scanFrom_cons, last, later]
    have forward := pieceStretch_forward read c cs
    cases piece : (munch c cs).piece with
    | skip =>
      exact ⟨found, places, _, rfl,
        laid.gap_before (pieceStretch_skipped read c cs piece) forward⟩
    | token kind | fault cause =>
      refine ⟨_ :: found, _, gaps, rfl,
        laid.found_before (pieceStretch_takes read c cs rfl ?_) forward⟩
      rw [piece]
      exact List.mem_singleton_self _
termination_by cs => cs.length
decreasing_by exact Nat.lt_succ_of_le (length_munch_rest_le c cs)

end Scan

/-! ### Asking for one thing after another -/

/-- A scanner that is asked for one thing at a time: the text that is left, if the end marker is
not out yet, and the line that it starts on. -/
structure Scanner where
  rest : Option (List Char)
  line : Nat

namespace Scanner

def start (source : String) : Scanner := ⟨some source.toList, 1⟩

/-- The first thing in a text that starts on `line`, past everything to skip. -/
def pull (line : Nat) : List Char → Scanned × Scanner
  | [] => (.token ⟨.eof, "", line⟩, ⟨none, line⟩)
  | c :: cs =>
    let m := Scan.munch c cs
    let last := line + m.text.count '\n'
    match m.piece with
    | .skip => pull last m.rest
    | .token kind => (.token ⟨kind, String.ofList m.text, last⟩, ⟨some m.rest, last⟩)
    | .fault cause => (.fault last cause, ⟨some m.rest, last⟩)
termination_by cs => cs.length
decreasing_by exact Nat.lt_succ_of_le (Scan.length_munch_rest_le c cs)

/-- Answers and moves on; after the end marker there is no answer. -/
def next (s : Scanner) : Option Scanned × Scanner :=
  match s.rest with
  | some cs => (some (pull s.line cs).1, (pull s.line cs).2)
  | none => (none, s)

/-- The answer to the question after `k` others. -/
def answer (s : Scanner) : Nat → Option Scanned
  | 0 => s.next.1
  | k + 1 => s.next.2.answer k

/-- What is still to come. -/
def coming (s : Scanner) : List Scanned :=
  match s.rest with
  | some cs => Scan.scanFrom s.line cs
  | none => []

theorem pull_coming (line : Nat) (cs : List Char) :
    Scan.scanFrom line cs = (pull line cs).1 :: (pull line cs).2.coming := by
  fun_induction pull line cs with
  | case1 line => rw [Scan.scanFrom]; rfl
  | case2 line c cs m last skip same =>
    rw [Scan.scanFrom_cons, skip]
    exact same
  | case3 line c cs m last kind token =>
    rw [Scan.scanFrom_cons, token]
    rfl
  | case4 line c cs m last cause fault =>
    rw [Scan.scanFrom_cons, fault]
    rfl

theorem next_coming (s : Scanner) :
    s.next.1 = s.coming.head? ∧ s.next.2.coming = s.coming.tail := by
  obtain ⟨_ | cs, line⟩ := s
  · exact ⟨rfl, rfl⟩
  · have same : coming ⟨some cs, line⟩ = _ := pull_coming line cs
    rw [same]
    exact ⟨rfl, rfl⟩

/-- The answers are what is to come, in order, and then nothing forever. -/
theorem answer_coming (s : Scanner) (k : Nat) : s.answer k = s.coming[k]? := by
  induction k generalizing s with
  | zero => rw [answer, (next_coming s).1, List.head?_eq_getElem?]
  | succ k ih => rw [answer, ih, (next_coming s).2, List.getElem?_tail]

end Scanner

/-- What a text yields is laid out in it, and then comes the end marker on the last line. Asking for
one thing after another yields that, and nothing forever after. -/
theorem scan_laid_out (source : String) :
    ∃ found places gaps, scan source = found ++ [.token ⟨.eof, "", 1 + newlines source⟩] ∧
      (∀ t, .token t ∈ found → t.kind ≠ .eof) ∧ Layout source 0 found places gaps ∧
      ∀ k, (Scanner.start source).answer k = (scan source)[k]? := by
  obtain ⟨found, places, gaps, here, laid⟩ := Scan.scanFrom_laid_out [] source.toList
  obtain ⟨found', here', proper, -⟩ := Scan.scanFrom_seam 1 source.toList
  obtain rfl : found = found' := List.append_cancel_right (here.symm.trans here')
  rw [List.nil_append, String.ofList_toList] at laid
  exact ⟨found, places, gaps, here, proper, laid, fun k => Scanner.answer_coming _ k⟩

end Lox
