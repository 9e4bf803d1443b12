import Lox.Native
import Mathlib.Data.List.DropRight
import Mathlib.Data.List.SplitBy

/-!
# Segments of the input

The input is a row of segments, each up to a newline and with it. To ask for a line takes the first one
away, whatever is in it (`segments_readLine`), and yields its text if it has one (`readLine_holds`).
-/

namespace Lox

namespace Text

/-! ### Ends of texts -/

/-- `t` is `s` without all such characters at its end. -/
structure WithoutEnd (drop : Char → Bool) (s t : List Char) : Prop where
  ending : ∃ ending, s = t ++ ending ∧ ∀ c ∈ ending, drop c = true
  last : ∀ c, t.getLast? = some c → drop c = false

/-- `t` is `s` without the blanks around it. -/
structure Trimmed (s t : List Char) : Prop where
  around : ∃ before after, s = before ++ t ++ after ∧ ∀ c ∈ before ++ after, isBlank c = true
  first : ∀ c, t.head? = some c → isBlank c = false
  last : ∀ c, t.getLast? = some c → isBlank c = false

theorem withoutEnd_rdropWhile (drop : Char → Bool) (s : List Char) :
    WithoutEnd drop s (s.rdropWhile drop) where
  ending := ⟨s.rtakeWhile drop, List.rdropWhile_append_rtakeWhile.symm,
    fun _ => List.mem_rtakeWhile_imp⟩
  last c last := by
    obtain ⟨some, rfl⟩ := List.mem_getLast?_eq_getLast last
    exact Bool.eq_false_iff.2 (List.rdropWhile_last_not drop s some)

theorem trimmed_trim (s : List Char) : Trimmed s (trim s) := by
  have without : WithoutEnd isBlank (s.dropWhile isBlank) (trim s) := withoutEnd_rdropWhile _ _
  obtain ⟨after, rest, blank⟩ := without.ending
  refine ⟨⟨s.takeWhile isBlank, after, ?_, fun c mem => ?_⟩, fun c first => ?_, without.last⟩
  · rw [List.append_assoc, ← rest, List.takeWhile_append_dropWhile]
  · obtain before | behind := List.mem_append.1 mem
    · exact List.mem_takeWhile_imp before
    · exact blank c behind
  · have starts : (s.dropWhile isBlank).head? = some c := by
      rw [rest, List.head?_append, first]
      rfl
    have proper := List.head?_dropWhile_not isBlank s
    rw [starts] at proper
    exact proper

/-! ### Encoded texts -/

namespace Utf8

theorem text?_eq_some_iff {bytes : List UInt8} {s : String} :
    text? bytes = some s ↔ s.toUTF8.data.toList = bytes := by
  constructor
  · intro read
    unfold text? String.fromUTF8? at read
    split at read
    · cases read
      rfl
    · cases read
  · rintro rfl
    exact dif_pos s.isValidUTF8

end Utf8

end Text

namespace Input

open Text (WithoutEnd)

/-- The input, split after each newline. -/
def segments (input : List UInt8) : List (List UInt8) := input.splitBy fun b _ => b != 10

theorem flatten_segments (input : List UInt8) : (segments input).flatten = input :=
  List.flatten_splitBy _ _

example : segments [97, 10, 10, 98] = [[97, 10], [10], [98]] := rfl

/-! ### The first segment -/

theorem splitLine_isChain (input : List UInt8) :
    (splitLine input).1.IsChain fun b _ => (b != 10) = true := by
  induction input with
  | nil => exact List.isChain_nil
  | cons b input ih =>
    unfold splitLine
    split
    · exact List.isChain_singleton b
    · next other => exact List.isChain_cons.2 ⟨fun _ _ => bne_iff_ne.2 other, ih⟩

/-- Only behind a newline is there anything left. -/
theorem splitLine_ended (input : List UInt8) (more : (splitLine input).2 ≠ []) :
    (splitLine input).1.getLast? = some 10 := by
  induction input with
  | nil => exact absurd rfl more
  | cons b input ih =>
    unfold splitLine at more ⊢
    split at more
    · next newline =>
      rw [if_pos newline, newline]
      rfl
    · next other =>
      rw [if_neg other, List.getLast?_cons, ih more]
      rfl

theorem splitLine_ne_nil {input : List UInt8} (some : input ≠ []) : (splitLine input).1 ≠ [] := by
  cases input with
  | nil => exact absurd rfl some
  | cons b input =>
    unfold splitLine
    split <;> exact List.cons_ne_nil _ _

theorem segments_splitLine {input : List UInt8} (some : input ≠ []) :
    segments input = (splitLine input).1 :: segments (splitLine input).2 := by
  have apart : ∀ b ∈ (splitLine input).1.getLast?, ∀ c ∈ (splitLine input).2.head?,
      (b != 10) = false := by
    intro b last c head
    have more : (splitLine input).2 ≠ [] := List.ne_nil_of_mem (List.mem_of_mem_head? head)
    cases (splitLine_ended input more).symm.trans last
    rfl
  calc segments input
      = segments ((splitLine input).1 ++ (splitLine input).2) := by rw [splitLine_append]
    _ = segments (splitLine input).1 ++ segments (splitLine input).2 := List.splitBy_append apart
    _ = (splitLine input).1 :: segments (splitLine input).2 := by
      rw [segments, List.splitBy_of_isChain (splitLine_ne_nil some) (splitLine_isChain input)]
      rfl

/-! ### Lines -/

/-- What a segment is to those who ask for a line: its text without the newline and carriage returns at
its end, or a fault if it is none. Behind the last segment the input has ended. -/
inductive Holds : Option (List UInt8) → Line → Prop
  | text {s line : String}
      (stripped : WithoutEnd (fun c => c == '\n' || c == '\r') s.toList line.toList) :
      Holds (some s.toUTF8.data.toList) (.text line)
  | fault {bytes : List UInt8} (invalid : ∀ s : String, s.toUTF8.data.toList ≠ bytes) :
      Holds (some bytes) (.fault .invalidUtf8)
  | ended : Holds none .ended

theorem decodeLine_holds (bytes : List UInt8) : Holds (some bytes) (decodeLine bytes) := by
  unfold decodeLine
  cases read : Text.Utf8.text? bytes with
  | some s =>
    obtain rfl := Text.Utf8.text?_eq_some_iff.1 read
    refine .text ?_
    rw [stripEnd, String.toList_ofList]
    exact Text.withoutEnd_rdropWhile _ _
  | none =>
    refine .fault fun s same => ?_
    cases read.symm.trans (Text.Utf8.text?_eq_some_iff.2 same)

theorem readLine_holds (input : List UInt8) : Holds (segments input).head? (readLine input).1 := by
  cases input with
  | nil => exact .ended
  | cons b input =>
    rw [segments_splitLine (List.cons_ne_nil b input)]
    exact decodeLine_holds _

theorem segments_readLine (input : List UInt8) :
    segments (readLine input).2 = (segments input).tail := by
  cases input with
  | nil => rfl
  | cons b input =>
    rw [segments_splitLine (List.cons_ne_nil b input)]
    rfl

end Input

end Lox
