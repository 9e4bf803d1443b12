import Lox.Tree.Prefixed
import Mathlib.Data.List.Forall2

/-!
# Outlines

A text in parentheses stands for an outline of words and lists. The words and brackets of a text, in
order, tell its outline (`Outline.fragments_injective`); the spaces only end words. A part that
reads as some outlines wherever a word ends after it `Shows` them, and a list of such parts shows a
list of all their outlines (`shows_parenthesized`).
-/

namespace Lox

inductive Outline
  | word (text : String)
  | list (items : List Outline)

inductive Fragment
  | opening | closing
  | word (text : String)

namespace Outline

mutual

def fragments : Outline → List Fragment
  | .word text => [.word text]
  | .list items => .opening :: (fragmentsAll items ++ [.closing])

def fragmentsAll : List Outline → List Fragment
  | [] => []
  | o :: os => o.fragments ++ fragmentsAll os

end

theorem fragmentsAll_append (os os' : List Outline) :
    fragmentsAll (os ++ os') = fragmentsAll os ++ fragmentsAll os' := by
  induction os with
  | nil => rfl
  | cons o os ih => rw [List.cons_append, fragmentsAll, fragmentsAll, ih, List.append_assoc]

mutual

/-- Where one outline ends is told by its fragments. -/
theorem fragments_append_inj : (o o' : Outline) → {rest rest' : List Fragment} →
    o.fragments ++ rest = o'.fragments ++ rest' → o = o' ∧ rest = rest'
  | .word _, .word _, _, _, same => by
    obtain ⟨text, rest⟩ := List.cons.inj same
    obtain rfl := Fragment.word.inj text
    exact ⟨rfl, rest⟩
  | .word _, .list _, _, _, same => nomatch (List.cons.inj same).1
  | .list _, .word _, _, _, same => nomatch (List.cons.inj same).1
  | .list os, .list os', _, _, same => by
    rw [fragments, fragments, List.cons_append, List.cons_append, List.append_assoc,
      List.append_assoc] at same
    have inside := (List.cons.inj same).2
    obtain ⟨rfl, rest⟩ := fragmentsAll_append_inj os os' inside
    exact ⟨rfl, rest⟩

theorem fragmentsAll_append_inj : (os os' : List Outline) → {rest rest' : List Fragment} →
    fragmentsAll os ++ .closing :: rest = fragmentsAll os' ++ .closing :: rest' →
      os = os' ∧ rest = rest'
  | [], [], _, _, same => ⟨rfl, (List.cons.inj same).2⟩
  | [], .word _ :: _, _, _, same => nomatch (List.cons.inj same).1
  | [], .list _ :: _, _, _, same => nomatch (List.cons.inj same).1
  | .word _ :: _, [], _, _, same => nomatch (List.cons.inj same).1
  | .list _ :: _, [], _, _, same => nomatch (List.cons.inj same).1
  | o :: os, o' :: os', _, _, same => by
    rw [fragmentsAll, fragmentsAll, List.append_assoc, List.append_assoc] at same
    obtain ⟨rfl, later⟩ := fragments_append_inj o o' same
    obtain ⟨rfl, rest⟩ := fragmentsAll_append_inj os os' later
    exact ⟨rfl, rest⟩

end

theorem fragments_injective {o o' : Outline} (same : o.fragments = o'.fragments) : o = o' := by
  have extended : o.fragments ++ [] = o'.fragments ++ [] := congrArg (· ++ []) same
  exact (fragments_append_inj o o' extended).1

end Outline

/-! ### Fragments of a text -/

/-- What a character stands for that is no part of a word. -/
def delimiter? : Char → Option (List Fragment)
  | ' ' => some []
  | '(' => some [.opening]
  | ')' => some [.closing]
  | _ => none

def wordFragment (begun : List Char) : List Fragment :=
  if begun = [] then [] else [.word (String.ofList begun)]

/-- The fragments of a text whose first word has begun already. -/
def fragmentsFrom (begun : List Char) : List Char → List Fragment
  | [] => wordFragment begun
  | c :: cs =>
    match delimiter? c with
    | some ps => wordFragment begun ++ (ps ++ fragmentsFrom [] cs)
    | none => fragmentsFrom (begun ++ [c]) cs

/-- A word ends before this text. -/
def Delimited (rest : List Char) : Prop := ∀ c, rest.head? = some c → (delimiter? c).isSome

/-- A text that is a single word. -/
structure Solid (text : String) : Prop where
  some : text.toList ≠ []
  inside : ∀ c ∈ text.toList, delimiter? c = none

def isSolid (text : String) : Bool :=
  !text.toList.isEmpty && text.toList.all fun c => (delimiter? c).isNone

theorem Solid.of_isSolid {text : String} (h : isSolid text = true) : Solid text := by
  obtain ⟨some, inside⟩ := (Bool.and_eq_true _ _).mp h
  refine ⟨fun empty => ?_, fun c mem => ?_⟩
  · rw [empty] at some
    cases some
  · exact Option.isNone_iff_eq_none.1 (List.all_eq_true.1 inside c mem)

theorem delimited_nil : Delimited [] := nofun

theorem delimited_cons {c : Char} (ends : (delimiter? c).isSome) (cs : List Char) :
    Delimited (c :: cs) := by
  rintro _ ⟨⟩
  exact ends

theorem fragmentsFrom_delimited {rest : List Char} (delimited : Delimited rest)
    (begun : List Char) : fragmentsFrom begun rest = wordFragment begun ++ fragmentsFrom [] rest := by
  cases rest with
  | nil => exact (List.append_nil _).symm
  | cons c cs =>
    obtain ⟨ps, known⟩ := Option.isSome_iff_exists.1 (delimited c rfl)
    rw [fragmentsFrom, fragmentsFrom, known]
    rfl

theorem fragmentsFrom_run {run : List Char} (inside : ∀ c ∈ run, delimiter? c = none)
    (begun rest : List Char) :
    fragmentsFrom begun (run ++ rest) = fragmentsFrom (begun ++ run) rest := by
  induction run generalizing begun with
  | nil => rw [List.nil_append, List.append_nil]
  | cons c run ih =>
    obtain ⟨first, later⟩ := List.forall_mem_cons.1 inside
    rw [List.cons_append, fragmentsFrom, first]
    show fragmentsFrom (begun ++ [c]) (run ++ rest) = _
    rw [ih later, List.append_assoc, List.singleton_append]

/-! ### What a text shows -/

/-- The text reads as these outlines, wherever a word ends after it. -/
def Shows (text : String) (items : List Outline) : Prop :=
  ∀ rest, Delimited rest →
    fragmentsFrom [] (text.toList ++ rest) = Outline.fragmentsAll items ++ fragmentsFrom [] rest

/-- Each text shows some of the outlines, all of them together. -/
inductive ShowsAll : List String → List Outline → Prop
  | nil : ShowsAll [] []
  | cons {text texts items others} : Shows text items → ShowsAll texts others →
      ShowsAll (text :: texts) (items ++ others)

/-- A part that shows a single outline before parts that show the others. -/
theorem ShowsAll.one {text : String} {texts : List String} {o : Outline} {os : List Outline}
    (first : Shows text [o]) (others : ShowsAll texts os) : ShowsAll (text :: texts) (o :: os) :=
  .cons first others

theorem shows_word {text : String} (solid : Solid text) : Shows text [.word text] := by
  intro rest delimited
  rw [fragmentsFrom_run solid.inside, fragmentsFrom_delimited delimited, List.nil_append,
    wordFragment, if_neg solid.some, String.ofList_toList]
  rfl

theorem shows_constant {text : String} (solid : isSolid text = true) : Shows text [.word text] :=
  shows_word (.of_isSolid solid)

theorem shows_words {texts : List String} (solid : ∀ text ∈ texts, Solid text) :
    ShowsAll texts (texts.map .word) := by
  induction texts with
  | nil => exact .nil
  | cons text texts ih =>
    obtain ⟨first, others⟩ := List.forall_mem_cons.1 solid
    exact .one (shows_word first) (ih others)

/-- A space between each two of them. -/
theorem ShowsAll.intercalate {parts : List String} {items : List Outline}
    (shown : ShowsAll parts items) : Shows (" ".intercalate parts) items := by
  intro rest delimited
  rw [String.toList_intercalate]
  induction shown with
  | nil => rfl
  | @cons text texts items others first later ih =>
    cases later with
    | nil =>
      show fragmentsFrom [] ((text.toList ++ []) ++ rest) = _
      rw [List.append_nil, List.append_nil, first rest delimited]
    | @cons next more items' others' =>
      have spaced := first (' ' :: [' '].intercalate ((next :: more).map String.toList) ++ rest)
        (delimited_cons rfl _)
      rw [List.map_cons, List.map_cons, List.intercalate_cons_cons, List.append_assoc,
        List.append_assoc, Outline.fragmentsAll_append, List.append_assoc, ← ih]
      exact spaced

/-- What stands in brackets after a delimiter or nothing. -/
theorem bracketed {texts : List String} {items : List Outline} (shown : ShowsAll texts items)
    (rest : List Char) :
    fragmentsFrom [] ('(' :: ((" ".intercalate texts).toList ++ ')' :: rest)) =
      (Outline.list items).fragments ++ fragmentsFrom [] rest := by
  have inside := shown.intercalate (')' :: rest) (delimited_cons rfl _)
  show .opening :: fragmentsFrom [] ((" ".intercalate texts).toList ++ ')' :: rest) =
    .opening :: ((Outline.fragmentsAll items ++ [.closing]) ++ fragmentsFrom [] rest)
  rw [inside, List.append_assoc]
  rfl

theorem shows_parenthesized {parts : List String} {items : List Outline}
    (shown : ShowsAll parts items) : Shows (parenthesized parts) [.list items] := by
  intro rest _
  have text : (parenthesized parts).toList ++ rest =
      '(' :: ((" ".intercalate parts).toList ++ ')' :: rest) := by
    rw [parenthesized, String.toList_append, String.toList_append, List.append_assoc]
    rfl
  rw [text, bracketed shown rest, Outline.fragmentsAll, Outline.fragmentsAll, List.append_nil]

/-- A name with a list closed up behind it shows both. -/
theorem shows_heading {name : Token} {params : List Token} (solid : Solid name.lexeme)
    (others : ∀ p ∈ params, Solid p.lexeme) :
    Shows (FunctionDecl.heading name params)
      [.word name.lexeme, .list (params.map fun p => .word p.lexeme)] := by
  intro rest _
  have words : ShowsAll (params.map Token.lexeme) (params.map fun p => .word p.lexeme) := by
    have shown := shows_words (List.forall_mem_map.2 others)
    rwa [List.map_map] at shown
  have text : (FunctionDecl.heading name params).toList ++ rest = name.lexeme.toList ++
      '(' :: ((" ".intercalate (params.map Token.lexeme)).toList ++ ')' :: rest) := by
    simp only [FunctionDecl.heading, String.toList_append, List.append_assoc]
    rfl
  rw [text, shows_word solid _ (delimited_cons rfl _), bracketed words]
  simp [Outline.fragmentsAll]

/-- Of two texts that show an outline each, the same text shows the same outline. -/
theorem Shows.injective {text : String} {o o' : Outline} (first : Shows text [o])
    (second : Shows text [o']) : o = o' := by
  have fragments := (first [] delimited_nil).symm.trans (second [] delimited_nil)
  exact Outline.fragments_injective (by simpa [Outline.fragmentsAll] using fragments)

/-! ### Outlines of trees -/

mutual

def Expr.outline : Expr → Outline
  | .literal value => .word value.prefixed
  | .unary operator right => .list [.word operator.lexeme, right.outline]
  | .binary left operator right => .list [.word operator.lexeme, left.outline, right.outline]
  | .logical left operator right => .list [.word operator.lexeme, left.outline, right.outline]
  | .group inner => .list [.word "group", inner.outline]
  | .variable _ name => .word name.lexeme
  | .assign _ name value => .list [.word "=", .word name.lexeme, value.outline]
  | .call callee _ arguments =>
    .list (.word "call" :: callee.outline :: Expr.outlineAll arguments)
  | .get object name => .list [.word ".", object.outline, .word name.lexeme]
  | .set object name value =>
    .list [.word ".=", object.outline, .word name.lexeme, value.outline]
  | .this _ _ => .word "this"
  | .super _ _ method => .list [.word "super", .word method.lexeme]

def Expr.outlineAll : List Expr → List Outline
  | [] => []
  | e :: es => e.outline :: Expr.outlineAll es

end

/-- What follows the name of a variable or class: a sign and the value, if there is one. -/
def Expr.outlineOption (sign : String) : Option Expr → List Outline
  | none => []
  | some e => [.word sign, e.outline]

mutual

def Stmt.outline : Stmt → Outline
  | .expression e => .list [.word ";", e.outline]
  | .print e => .list [.word "print", e.outline]
  | .var name initializer =>
    .list (.word "var" :: .word name.lexeme :: Expr.outlineOption "=" initializer)
  | .block body => .list (.word "block" :: Stmt.outlineAll body)
  | .ite condition thenBranch none =>
    .list [.word "if", condition.outline, thenBranch.outline]
  | .ite condition thenBranch (some elseBranch) =>
    .list [.word "if", condition.outline, thenBranch.outline, elseBranch.outline]
  | .while condition body => .list [.word "while", condition.outline, body.outline]
  | .break _ => .list [.word "break"]
  | .function d => d.outline
  | .return _ none => .list [.word "return"]
  | .return _ (some e) => .list [.word "return", e.outline]
  | .class name superclass methods =>
    .list (.word "class" :: .word name.lexeme ::
      (Expr.outlineOption "<" superclass ++ FunctionDecl.outlineAll methods))

def Stmt.outlineAll : List Stmt → List Outline
  | [] => []
  | s :: ss => s.outline :: Stmt.outlineAll ss

def FunctionDecl.outline : FunctionDecl → Outline
  | .mk name params body =>
    .list (.word "fun" :: .word name.lexeme :: .list (params.map fun p => .word p.lexeme) ::
      Stmt.outlineAll body)

def FunctionDecl.outlineAll : List FunctionDecl → List Outline
  | [] => []
  | d :: ds => d.outline :: FunctionDecl.outlineAll ds

end

end Lox
