import Lox.Proofs.Session.Twin

/-!
# One counter for all parses

Programs and single expressions are read one after another, and each parse counts on from where the
one before it stopped, whether or not that one came to a tree. The nodes of every tree have
identities of their own, and no two trees share one (`readAll_distinct`).
-/

namespace Lox.Grammar

/-- Tokens to read as a program or as one expression. -/
inductive Request
  | program (tokens : List Token)
  | expression (tokens : List Token)

inductive Tree
  | program (statements : List Stmt)
  | expression (e : Expr)

def Tree.ids : Tree → List NodeId
  | .program statements => Stmt.idsAll statements
  | .expression e => e.ids

def Request.read (nextId : NodeId) : Request → Parsed Tree
  | .program tokens =>
    ⟨(parse tokens nextId).result.map .program, (parse tokens nextId).nextId⟩
  | .expression tokens =>
    ⟨(parseExpression tokens nextId).result.map .expression, (parseExpression tokens nextId).nextId⟩

/-- What each parse comes to. -/
def readAll : List Request → NodeId → List (Except (List Diagnostic) Tree)
  | [], _ => []
  | r :: rs, nextId => (r.read nextId).result :: readAll rs (r.read nextId).nextId

def trees (requests : List Request) (nextId : NodeId) : List Tree :=
  (readAll requests nextId).filterMap Except.toOption

theorem parse_numbered (tokens : List Token) (nextId : NodeId) :
    Numbered Stmt.idsAll nextId (parse tokens nextId) :=
  ⟨parse_nextId_le tokens nextId, fun _ parsed => (parse_good parsed).1⟩

theorem parseExpression_numbered (tokens : List Token) (nextId : NodeId) :
    Numbered Expr.ids nextId (parseExpression tokens nextId) :=
  ⟨parseExpression_nextId_le tokens nextId, fun _ parsed => (parseExpression_good parsed).1⟩

/-- The same tree under another name. -/
theorem numbered_map {α β : Type} {ids : α → List NodeId} {ids' : β → List NodeId} {f : α → β}
    {nextId : NodeId} {p : Parsed α} (h : Numbered ids nextId p) (same : ∀ a, ids' (f a) = ids a) :
    Numbered ids' nextId ⟨p.result.map f, p.nextId⟩ := by
  refine ⟨h.le, fun tree found => ?_⟩
  cases result : p.result with
  | ok a =>
    rw [result] at found
    cases found
    exact (same a).symm ▸ h.fresh a result
  | error faults =>
    rw [result] at found
    cases found

theorem Request.read_numbered (r : Request) (nextId : NodeId) :
    Numbered Tree.ids nextId (r.read nextId) := by
  cases r with
  | program tokens => exact numbered_map (parse_numbered tokens nextId) fun _ => rfl
  | expression tokens => exact numbered_map (parseExpression_numbered tokens nextId) fun _ => rfl

/-- The first parse adds at most one tree, with identities below those of all others. -/
theorem mem_trees_cons {r : Request} {rs : List Request} {nextId : NodeId} {t : Tree}
    (mem : t ∈ trees (r :: rs) nextId) :
    Fresh nextId (r.read nextId).nextId t.ids ∨ t ∈ trees rs (r.read nextId).nextId := by
  cases result : (r.read nextId).result with
  | ok tree =>
    simp only [trees, readAll, result, List.filterMap_cons, Except.toOption, List.mem_cons] at mem
    rcases mem with rfl | later
    · exact .inl ((r.read_numbered nextId).fresh t result)
    · exact .inr later
  | error faults =>
    simp only [trees, readAll, result, List.filterMap_cons, Except.toOption] at mem
    exact .inr mem

theorem nextId_le_of_mem_trees (requests : List Request) (nextId : NodeId) {t : Tree}
    (mem : t ∈ trees requests nextId) : ∀ id ∈ t.ids, nextId ≤ id := by
  induction requests generalizing nextId with
  | nil => cases mem
  | cons r rs ih =>
    rcases mem_trees_cons mem with fresh | later
    · exact fun id known => (fresh.between id known).1
    · exact fun id known => Nat.le_trans (r.read_numbered nextId).le (ih _ later id known)

/-- Whatever the tokens are and wherever the counter starts: the identities in each tree are new and
pairwise distinct, and none of them is in the tree of another parse. -/
theorem readAll_distinct (requests : List Request) (nextId : NodeId) :
    (∀ t ∈ trees requests nextId, t.ids.Nodup ∧ ∀ id ∈ t.ids, nextId ≤ id) ∧
      (trees requests nextId).Pairwise fun t u => List.Disjoint t.ids u.ids := by
  induction requests generalizing nextId with
  | nil => exact ⟨nofun, .nil⟩
  | cons r rs ih =>
    obtain ⟨distinct, apart⟩ := ih (r.read nextId).nextId
    refine ⟨fun t mem => ⟨?_, nextId_le_of_mem_trees _ _ mem⟩, ?_⟩
    · rcases mem_trees_cons mem with fresh | later
      · exact fresh.distinct
      · exact (distinct t later).1
    · cases result : (r.read nextId).result with
      | ok tree =>
        have fresh := (r.read_numbered nextId).fresh tree result
        simp only [trees, readAll, result, List.filterMap_cons, Except.toOption]
        refine .cons (fun u later id first second => ?_) apart
        have above := (distinct u later).2 id second
        exact Nat.not_lt.2 above (fresh.between id first).2
      | error faults =>
        simp only [trees, readAll, result, List.filterMap_cons, Except.toOption]
        exact apart

end Lox.Grammar
