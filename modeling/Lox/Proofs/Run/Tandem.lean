import Lox.Proofs.Run.Frames
import Lox.Proofs.Run.Likewise
import Lox.Session

/-!
# Runs in tandem

Two programs in step, on machines that agree on all but identities of nodes and lines, do the same:
they print, read and yield the same, and fail for the same cause on lines that go together
(`runAll_tandem`).
-/

namespace Lox

open EStateM (Result)

/-- Closures with declarations in step. -/
def Pairing.likeness (P : Pairing) : Likeness where
  function c d := PairedDecl P c.declaration d.declaration ∧ c.env = d.env ∧
    c.isInitializer = d.isInitializer
  method c d := PairedDecl P c.declaration d.declaration ∧ c.env = d.env ∧
    c.isInitializer = d.isInitializer
  function_arity same := same.1.arity
  function_name same := same.1.named.lexeme
  method_arity same := same.1.arity

theorem Pairing.Le.likeness {P Q : Pairing} (le : P.Le Q) : P.likeness.Le Q.likeness :=
  ⟨fun _ _ same => ⟨same.1.mono le, same.2⟩, fun _ _ same => ⟨same.1.mono le, same.2⟩⟩

/-! ### Machines -/

structure LikeFrames (K : Likeness) (s s' : Store) : Prop where
  size : s.frames.size = s'.frames.size
  here : ∀ f x, Option.Rel (LikeValue K) (s.getHere? f x) (s'.getHere? f x)

theorem likeFrames_start (K : Likeness) : LikeFrames K Machine.startStore Machine.startStore := by
  refine ⟨rfl, fun f x => ?_⟩
  rw [startStore_getHere?]
  split
  · cases found : Machine.supplied.reverse.lookup x with
    | none => exact .none
    | some v => exact .some (supplied_like K found)
  · exact .none

/-- Machines that agree on all but identities of nodes and lines. -/
structure PairedMachine (P : Pairing) (m m' : Machine) : Prop
    extends LikeState P.likeness m m' where
  frames : LikeFrames P.likeness m.store m'.store
  env : m.env = m'.env
  distances : ∀ i j, P.ids i j → m.distances[i]? = m'.distances[j]?

theorem PairedMachine.mono {P Q : Pairing} {m m' : Machine} (h : PairedMachine P m m')
    (le : P.Le Q) (distances : ∀ i j, Q.ids i j → m.distances[i]? = m'.distances[j]?) :
    PairedMachine Q m m' where
  toLikeState := h.toLikeState.mono le.likeness
  frames := ⟨h.frames.size, fun f x => rel_mono (h.frames.here f x) fun _ _ same =>
    same.mono le.likeness⟩
  env := h.env
  distances := distances

/-- Steps beside the frames keep machines in step. -/
theorem PairedMachine.aside {P : Pairing} {m m' n n' : Machine} (h : PairedMachine P m m')
    (like : LikeState P.likeness n n') (aside : Aside m n) (aside' : Aside m' n') :
    PairedMachine P n n' := by
  refine ⟨like, ⟨?_, fun f x => ?_⟩, ?_, fun i j go => ?_⟩
  · rw [aside.frames, aside'.frames]
    exact h.frames.size
  · rw [getHere?_frames aside.frames, getHere?_frames aside'.frames]
    exact h.frames.here f x
  · rw [aside.env, aside'.env]
    exact h.env
  · rw [aside.distances, aside'.distances]
    exact h.distances i j go

/-- The same cause, on lines that go together. -/
inductive PairedHalt (lines : Nat → Nat → Prop) : Halt → Halt → Prop
  | program {line line' : Nat} (place : lines line line') (cause : RuntimeFault) :
      PairedHalt lines (.error (.program line cause)) (.error (.program line' cause))
  | stream (cause : StreamFault) :
      PairedHalt lines (.error (.stream cause)) (.error (.stream cause))
  | outOfFuel : PairedHalt lines .outOfFuel .outOfFuel

inductive TandemResult {α β : Type} (P : Pairing) (R : α → β → Prop) :
    Result Halt Machine α → Result Halt Machine β → Prop
  | ok {a : α} {b : β} {n n' : Machine} (state : PairedMachine P n n') (holds : R a b) :
      TandemResult P R (.ok a n) (.ok b n')
  | error {e e' : Halt} {n n' : Machine} (state : PairedMachine P n n')
      (halt : PairedHalt P.lines e e') : TandemResult P R (.error e n) (.error e' n')

/-- The computations end in the same way wherever they start in step. -/
def Tandem {α β : Type} (P : Pairing) (x : Eval α) (y : Eval β) (R : α → β → Prop) : Prop :=
  ∀ m m', PairedMachine P m m' → TandemResult P R (x m) (y m')

namespace Tandem

variable {α β γ δ : Type} {P : Pairing} {R : α → β → Prop} {Q : γ → δ → Prop}

theorem pure {a : α} {b : β} (holds : R a b) : Tandem P (Pure.pure a) (Pure.pure b) R :=
  fun _ _ state => .ok state holds

theorem throw {e e' : Halt} (halt : PairedHalt P.lines e e') :
    Tandem P (MonadExcept.throw e) (MonadExcept.throw e') R :=
  fun _ _ state => .error state halt

theorem fail {line line' : Nat} (place : P.lines line line') (cause : RuntimeFault) :
    Tandem P (Lox.fail line cause) (Lox.fail line' cause) R :=
  throw (.program place cause)

theorem bind {x : Eval α} {y : Eval β} {f : α → Eval γ} {g : β → Eval δ} (first : Tandem P x y R)
    (next : ∀ a b, R a b → Tandem P (f a) (g b) Q) : Tandem P (x >>= f) (y >>= g) Q := by
  intro m m' state
  have start := first m m' state
  show TandemResult P Q (EStateM.bind x f m) (EStateM.bind y g m')
  unfold EStateM.bind
  generalize x m = r at start ⊢
  generalize y m' = r' at start ⊢
  cases start with
  | ok state holds => exact next _ _ holds _ _ state
  | error state halt => exact .error state halt

theorem map {x : Eval α} {y : Eval β} {f : α → γ} {g : β → δ} (h : Tandem P x y R)
    (sub : ∀ a b, R a b → Q (f a) (g b)) : Tandem P (f <$> x) (g <$> y) Q := by
  rw [← bind_pure_comp, ← bind_pure_comp]
  exact bind h fun a b holds => pure (sub a b holds)

theorem get {f : Machine → Eval α} {g : Machine → Eval β}
    (h : ∀ m m', PairedMachine P m m' → Tandem P (f m) (g m') R) :
    Tandem P (MonadState.get >>= f) (MonadState.get >>= g) R :=
  fun m m' state => h m m' state m m' state

theorem modifying {f g : Machine → Machine}
    (h : ∀ m m', PairedMachine P m m' → PairedMachine P (f m) (g m')) :
    Tandem P (modify f) (modify g) fun _ _ => True :=
  fun m m' state => .ok (h m m' state) trivial

theorem ite {c c' : Prop} [Decidable c] [Decidable c'] {x x' : Eval α} {y y' : Eval β}
    (same : c ↔ c') (h : Tandem P x y R) (k : Tandem P x' y' R) :
    Tandem P (if c then x else x') (if c' then y else y') R := by
  by_cases holds : c
  · rw [if_pos holds, if_pos (same.1 holds)]
    exact h
  · rw [if_neg holds, if_neg fun holds' => holds (same.2 holds')]
    exact k

theorem within {x : Eval α} {y : Eval β} {env env' : Env} (same : env = env')
    (h : Tandem P x y R) : Tandem P (Lox.within env x) (Lox.within env' y) R := by
  intro m m' state
  have inner := h { m with env } { m' with env := env' } { state with env := same }
  unfold Lox.within
  dsimp only
  generalize x _ = r at inner ⊢
  generalize y _ = r' at inner ⊢
  cases inner with
  | ok after holds => exact .ok { after with env := state.env } holds
  | error after halt => exact .error { after with env := state.env } halt

/-- A step beside the frames that fails for streams only. -/
theorem lift {x : Eval α} {y : Eval β} (h : Likewise P.likeness x y R)
    (quiet : ∀ m e n, x m = .error e n → PairedHalt P.lines e e) : Tandem P x y R := by
  intro m m' state
  have done := h m m' state.toLikeState
  have halts := quiet m
  generalize x m = r at done halts ⊢
  generalize y m' = r' at done ⊢
  cases done with
  | ok like aside aside' holds => exact .ok (state.aside like aside aside') holds
  | error like aside aside' => exact .error (state.aside like aside aside') (halts _ _ rfl)

end Tandem

section Runs

variable {P : Pairing}

/-! ### Frames -/

section Frames

variable {K : Likeness} {s s' : Store}

theorem LikeFrames.put (h : LikeFrames K s s') (frame : FrameId) (name : String) {v v' : Value}
    (same : LikeValue K v v') : LikeFrames K (s.put frame name v) (s'.put frame name v') := by
  refine ⟨by simpa [Store.put] using h.size, fun f x => ?_⟩
  by_cases inside : frame < s.frames.size
  · rw [s.getHere?_put frame f name x v inside, s'.getHere?_put frame f name x v' (h.size ▸ inside)]
    split
    · exact .some same
    · exact h.here f x
  · rw [getHere?_put_outside s frame name v inside,
      getHere?_put_outside s' frame name v' (h.size ▸ inside)]
    exact h.here f x

theorem LikeFrames.child (h : LikeFrames K s s') (env : Env) :
    LikeFrames K (s.child env).2 (s'.child env).2 := by
  refine ⟨by simp [Store.child, h.size], fun f x => ?_⟩
  rw [s.getHere?_child, s'.getHere?_child]
  exact h.here f x

theorem LikeFrames.binds (h : LikeFrames K s s') (name : String) : s.binds name = s'.binds name :=
  funext fun f => rel_isSome (h.here f name)

theorem LikeFrames.getAt? (h : LikeFrames K s s') (env : Env) (distance : Nat) (name : String) :
    Option.Rel (LikeValue K) (s.getAt? env distance name) (s'.getAt? env distance name) := by
  unfold Store.getAt?
  cases env[distance]? with
  | none => exact .none
  | some f => exact h.here f name

theorem LikeFrames.get? (h : LikeFrames K s s') (env : Env) (name : String) :
    Option.Rel (LikeValue K) (s.get? env name) (s'.get? env name) := by
  unfold Store.get?
  induction env with
  | nil => exact .none
  | cons f env ih =>
    rw [List.findSome?_cons, List.findSome?_cons]
    have here := h.here f name
    generalize s.getHere? f name = a at here ⊢
    generalize s'.getHere? f name = b at here ⊢
    cases here with
    | none => exact ih
    | some same => exact .some same

end Frames

theorem PairedMachine.mapFrames {m m' : Machine} (h : PairedMachine P m m') {f f' : Store → Store}
    (objects : (f m.store).objects = m.store.objects)
    (objects' : (f' m'.store).objects = m'.store.objects)
    (frames : LikeFrames P.likeness (f m.store) (f' m'.store)) :
    PairedMachine P (m.mapStore f) (m'.mapStore f') where
  count := by
    show (f m.store).objects.size = (f' m'.store).objects.size
    rw [objects, objects']
    exact h.count
  objects i := by
    show Option.Rel _ ((f m.store).objects[i]?) ((f' m'.store).objects[i]?)
    rw [objects, objects']
    exact h.objects i
  input := h.input
  sink := h.sink
  clock := h.clock
  ticks := h.ticks
  nextIdentity := h.nextIdentity
  frames := frames
  env := h.env
  distances := h.distances

theorem childEnv_tandem {env env' : Env} (same : env = env') :
    Tandem P (childEnv env) (childEnv env') Eq := by
  intro m m' state
  subst same
  have after : PairedMachine P (m.mapStore fun s => (s.child env).2)
      (m'.mapStore fun s => (s.child env).2) :=
    state.mapFrames rfl rfl (state.frames.child env)
  exact .ok after (congrArg (· :: env) state.frames.size)

theorem put_tandem (frame : FrameId) (name : String) {v v' : Value}
    (same : LikeValue P.likeness v v') :
    Tandem P (modify (·.mapStore (·.put frame name v))) (modify (·.mapStore (·.put frame name v')))
      fun _ _ => True :=
  Tandem.modifying fun _ _ state =>
    state.mapFrames rfl rfl (state.frames.put frame name same)

theorem defineIn_tandem {env env' : Env} (here : env = env') {name name' : String}
    (named : name = name') {v v' : Value} (same : LikeValue P.likeness v v') :
    Tandem P (defineIn env name v) (defineIn env' name' v') fun _ _ => True := by
  subst here named
  cases env with
  | nil => exact Tandem.modifying fun _ _ state => state.mapFrames rfl rfl state.frames
  | cons frame outer => exact put_tandem frame name same

theorem define_tandem {name name' : String} (named : name = name') {v v' : Value}
    (same : LikeValue P.likeness v v') :
    Tandem P (define name v) (define name' v') fun _ _ => True :=
  Tandem.get fun _ _ state => defineIn_tandem state.env named same

/-! ### Steps -/

theorem orFail_tandem {α β : Type} {R : α → β → Prop} {line line' : Nat}
    (place : P.lines line line') {cause cause' : RuntimeFault} (why : cause = cause')
    {a : Option α} {b : Option β} (h : Option.Rel R a b) :
    Tandem P (orFail line cause a) (orFail line' cause' b) R := by
  subst why
  cases h with
  | none => exact Tandem.fail place cause
  | some holds => exact Tandem.pure holds

theorem orFault_tandem {line line' : Nat} (place : P.lines line line')
    {r r' : Except RuntimeFault Value} (h : LikeResult P.likeness r r') :
    Tandem P (orFault line r) (orFault line' r') (LikeValue P.likeness) := by
  cases h with
  | ok same => exact Tandem.pure same
  | error cause => exact Tandem.fail place cause

theorem freshIdentity_tandem : Tandem P freshIdentity freshIdentity Eq :=
  Tandem.lift freshIdentity_likewise fun _ _ _ failed => nomatch failed

theorem setField_tandem (object : ObjectId) {name name' : String} (named : name = name')
    {v v' : Value} (same : LikeValue P.likeness v v') :
    Tandem P (modify (·.mapStore (·.setField object name v)))
      (modify (·.mapStore (·.setField object name' v'))) fun _ _ => True := by
  subst named
  exact Tandem.lift (setField_likewise object name same) fun _ _ _ failed => nomatch failed

theorem allocate_tandem :
    Tandem P (modifyGet (·.withStore (·.allocate))) (modifyGet (·.withStore (·.allocate))) Eq :=
  Tandem.lift allocate_likewise fun _ _ _ failed => nomatch failed

theorem printLine_error {text : String} {m n : Machine} {e : Halt}
    (failed : printLine text m = .error e n) : e = .error (.stream .sinkFull) := by
  change (if !(m.sink.write (text ++ "\n").toUTF8.data).1 then
    (throw (.error (.stream .sinkFull)) : Eval Unit) else pure ()) _ = _ at failed
  split at failed
  · cases failed
    rfl
  · cases failed

theorem printLine_tandem {text text' : String} (same : text = text') :
    Tandem P (printLine text) (printLine text') Eq := by
  subst same
  refine Tandem.lift (printLine_likewise text) fun m e n failed => ?_
  rw [printLine_error failed]
  exact .stream _

theorem callNative_tandem (op : Native) (object : Option ObjectId) {vs vs' : List Value}
    (h : List.Forall₂ (LikeValue P.likeness) vs vs') {paren paren' : Token}
    (paired : PairedToken P paren paren') :
    Tandem P (callNative op object vs paren) (callNative op object vs' paren')
      (LikeValue P.likeness) := by
  intro m m' state
  have done := run_likewise op object h m m' state.toLikeState
  unfold callNative
  generalize op.run object vs m = r at done ⊢
  generalize op.run object vs' m' = r' at done ⊢
  cases done with
  | ok like aside aside' same => exact .ok (state.aside like aside aside') same
  | error like aside aside' =>
    exact .error (state.aside like aside aside') (.program paired.line _)

/-! ### Names and methods -/

theorem PairedMachine.valueAt? {m m' : Machine} (h : PairedMachine P m m') {id id' : NodeId}
    (node : P.ids id id') (name : String) :
    Option.Rel (LikeValue P.likeness) (m.valueAt? id name) (m'.valueAt? id' name) := by
  unfold Machine.valueAt?
  rw [h.distances id id' node, h.env]
  cases m'.distances[id']? with
  | some distance => exact h.frames.getAt? m'.env distance name
  | none => exact h.frames.get? globalEnv name

theorem PairedMachine.ownerOf? {m m' : Machine} (h : PairedMachine P m m') {id id' : NodeId}
    (node : P.ids id id') (name : String) : m.ownerOf? id name = m'.ownerOf? id' name := by
  unfold Machine.ownerOf? Store.ownerAt? Store.owner?
  rw [h.distances id id' node, h.env, h.frames.binds name]

theorem lookUp_tandem {id id' : NodeId} (node : P.ids id id') {name name' : Token}
    (named : PairedToken P name name') :
    Tandem P (lookUp id name) (lookUp id' name') (LikeValue P.likeness) := by
  apply Tandem.get
  intro m m' state
  rw [← named.lexeme]
  exact orFail_tandem named.line rfl (state.valueAt? node _)

theorem assignName_tandem {id id' : NodeId} (node : P.ids id id') {name name' : Token}
    (named : PairedToken P name name') {v v' : Value} (same : LikeValue P.likeness v v') :
    Tandem P (assignName id name v) (assignName id' name' v') fun _ _ => True := by
  apply Tandem.get
  intro m m' state
  rw [← named.lexeme, state.ownerOf? node]
  cases m'.ownerOf? id' name.lexeme with
  | some frame => exact put_tandem frame _ same
  | none => exact Tandem.fail named.line _

theorem bindMethod_tandem {c c' : Class} (owner : LikeClass P.likeness c c') (object : ObjectId)
    {a b : Method} (same : LikeMethod P.likeness a b) :
    Tandem P (bindMethod c object a) (bindMethod c' object b) (LikeCallable P.likeness) := by
  cases same with
  | declared same =>
    refine (childEnv_tandem same.2.1).bind fun env env' here => ?_
    refine (defineIn_tandem here rfl (.instance owner object)).bind fun _ _ _ => ?_
    refine freshIdentity_tandem.bind fun id id' identity => ?_
    subst identity
    exact Tandem.pure (.function id ⟨same.1, here, same.2.2⟩)
  | native op =>
    refine freshIdentity_tandem.bind fun id id' identity => ?_
    subst identity
    exact Tandem.pure (.native id op (some object))

theorem getProperty_tandem {c c' : Class} (owner : LikeClass P.likeness c c') (object : ObjectId)
    {name name' : Token} (named : PairedToken P name name') :
    Tandem P (getProperty c object name) (getProperty c' object name') (LikeValue P.likeness) := by
  apply Tandem.get
  intro m m' state
  rw [← named.lexeme]
  have field := state.field? object name.lexeme
  generalize m.store.field? object name.lexeme = a at field ⊢
  generalize m'.store.field? object name.lexeme = b at field ⊢
  cases field with
  | some same => exact Tandem.pure same
  | none =>
    refine (orFail_tandem named.line rfl (owner.findMethod? _)).bind fun _ _ same => ?_
    exact (bindMethod_tandem owner object same).bind fun _ _ bound =>
      Tandem.pure (.callable bound)

theorem superMethod_tandem {id id' : NodeId} (node : P.ids id id') {keyword keyword' : Token}
    (place : PairedToken P keyword keyword') {method method' : Token}
    (named : PairedToken P method method') :
    Tandem P (superMethod id keyword method) (superMethod id' keyword' method')
      (LikeValue P.likeness) := by
  apply Tandem.get
  intro m m' state
  rw [← place.lexeme, ← named.lexeme, state.distances id id' node, state.env]
  have distances : Option.Rel Eq (m'.distances[id']?) (m'.distances[id']?) := by
    cases m'.distances[id']? with
    | none => exact .none
    | some d => exact .some rfl
  refine (orFail_tandem place.line rfl distances).bind fun distance _ here => ?_
  subst here
  refine (orFail_tandem place.line rfl (state.frames.getAt? m'.env distance _)).bind
    fun _ _ found => (orFail_tandem place.line rfl found.classOf?).bind fun _ _ parent => ?_
  have receiver := rel_bind (state.frames.getAt? m'.env (distance - 1) "this")
    fun _ _ value => value.instanceOf?
  refine (orFail_tandem place.line rfl receiver).bind fun ⟨c, object⟩ ⟨c', object'⟩ same => ?_
  obtain ⟨owner, rfl⟩ := same
  refine (orFail_tandem named.line rfl (parent.findMethod? _)).bind fun _ _ method => ?_
  exact (bindMethod_tandem owner object method).bind fun _ _ bound => Tandem.pure (.callable bound)

/-! ### Expressions -/

/-- Calls of like callables go in tandem. -/
def CallTandem (P : Pairing) (call : Invoke) : Prop :=
  ∀ {c c' : Callable} {vs vs' : List Value} {paren paren' : Token},
    LikeCallable P.likeness c c' → List.Forall₂ (LikeValue P.likeness) vs vs' →
    PairedToken P paren paren' →
    Tandem P (call c vs paren) (call c' vs' paren') (LikeValue P.likeness)

theorem applyUnary_paired (v : Value) {operator operator' : Token}
    (same : PairedToken P operator operator') : v.applyUnary operator = v.applyUnary operator' := by
  unfold Value.applyUnary
  rw [same.kind, same.lexeme]

theorem applyBinary_paired (v w : Value) {operator operator' : Token}
    (same : PairedToken P operator operator') :
    v.applyBinary operator w = v.applyBinary operator' w := by
  unfold Value.applyBinary Value.applyNumeric
  rw [same.kind, same.lexeme]

theorem decides_paired (v : Value) {operator operator' : Token}
    (same : PairedToken P operator operator') : v.decides operator = v.decides operator' := by
  unfold Value.decides
  rw [same.kind]

section Expressions

variable {call : Invoke} (h : CallTandem P call)

include h

theorem callWith_tandem {c c' : Callable} (callee : LikeCallable P.likeness c c')
    {vs vs' : List Value} (arguments : List.Forall₂ (LikeValue P.likeness) vs vs')
    {paren paren' : Token} (place : PairedToken P paren paren') :
    Tandem P (callWith call c vs paren) (callWith call c' vs' paren') (LikeValue P.likeness) := by
  unfold callWith
  rw [← callee.arity, ← arguments.length_eq]
  exact Tandem.ite Iff.rfl (h callee arguments place) (Tandem.fail place.line _)

end Expressions

mutual

theorem evaluate_tandem {call : Invoke} (h : CallTandem P call) : (e : Expr) → {e' : Expr} →
    PairedExpr P e e' → Tandem P (evaluate call e) (evaluate call e') (LikeValue P.likeness)
  | .literal _, _, .literal l => Tandem.pure (likeValue_ofLiteral _ l)
  | .group inner, _, .group same => (evaluate_tandem h inner same :)
  | .unary _ right, _, .unary symbol operand => (evaluate_tandem h right operand).bind
    fun _ v' same => applyUnary_paired v' symbol ▸
      orFault_tandem symbol.line (same.applyUnary _)
  | .binary left _ right, _, .binary first symbol second =>
    (evaluate_tandem h left first).bind fun _ v' before =>
    (evaluate_tandem h right second).bind fun _ w' same => applyBinary_paired v' w' symbol ▸
      orFault_tandem symbol.line (before.applyBinary same _)
  | .logical left _ right, _, .logical first symbol second =>
    (evaluate_tandem h left first).bind fun _ v' same => by
      rw [same.decides, decides_paired v' symbol]
      exact Tandem.ite Iff.rfl (Tandem.pure same) (evaluate_tandem h right second)
  | .variable _ _, _, .variable node named => lookUp_tandem node named
  | .assign _ _ value, _, .assign node named paired =>
    (evaluate_tandem h value paired).bind fun _ _ same =>
    (assignName_tandem node named same).bind fun _ _ _ => Tandem.pure same
  | .call callee _ arguments, _, .call called place given =>
    (evaluate_tandem h callee called).bind fun _ _ same => by
      cases same with
      | callable same =>
        exact (evaluateAll_tandem h arguments given).bind fun _ _ values =>
          callWith_tandem h same values place
      | nil | bool | number | string | «instance» => exact Tandem.fail place.line _
  | .get object _, _, .get owner named => (evaluate_tandem h object owner).bind fun _ _ same => by
    cases same with
    | «instance» same object => exact getProperty_tandem same object named
    | nil | bool | number | string | callable => exact Tandem.fail named.line _
  | .set object _ value, _, .set owner named paired =>
    (evaluate_tandem h object owner).bind fun _ _ same => by
      cases same with
      | «instance» _ object =>
        exact (evaluate_tandem h value paired).bind fun _ _ same =>
          (setField_tandem object named.lexeme same).bind fun _ _ _ => Tandem.pure same
      | nil | bool | number | string | callable => exact Tandem.fail named.line _
  | .this _ _, _, .this node place => lookUp_tandem node place
  | .super _ _ _, _, .super node place named => superMethod_tandem node place named

theorem evaluateAll_tandem {call : Invoke} (h : CallTandem P call) : (es : List Expr) →
    {es' : List Expr} → List.Forall₂ (PairedExpr P) es es' →
    Tandem P (evaluateAll call es) (evaluateAll call es') (List.Forall₂ (LikeValue P.likeness))
  | [], _, .nil => Tandem.pure .nil
  | e :: es, _, .cons first others => (evaluate_tandem h e first).bind fun _ _ same =>
    (evaluateAll_tandem h es others).bind fun _ _ values => Tandem.pure (.cons same values)

end

theorem evaluate?_tandem {call : Invoke} (h : CallTandem P call) {o o' : Option Expr}
    (same : Option.Rel (PairedExpr P) o o') :
    Tandem P (evaluate? call o) (evaluate? call o') (LikeValue P.likeness) := by
  cases same with
  | none => exact Tandem.pure .nil
  | some paired => exact evaluate_tandem h _ paired

/-! ### Statements -/

inductive LikeFlow (K : Likeness) : Flow → Flow → Prop
  | normal : LikeFlow K .normal .normal
  | break : LikeFlow K .break .break
  | return {v v' : Value} (same : LikeValue K v v') : LikeFlow K (.return v) (.return v')

theorem declareFunction_tandem {d d' : FunctionDecl} (same : PairedDecl P d d') :
    Tandem P (declareFunction d) (declareFunction d') fun _ _ => True := by
  refine freshIdentity_tandem.bind fun id _ identity => Tandem.get fun m m' state => ?_
  subst identity
  exact define_tandem same.named.lexeme (.callable (.function id ⟨same, state.env, rfl⟩))

theorem superclassLine_paired {name name' : Token} (named : PairedToken P name name')
    {e e' : Expr} (same : PairedExpr P e e') :
    P.lines (superclassLine name e) (superclassLine name' e') := by
  cases same with
  | «variable» _ superclass => exact superclass.line
  | literal | unary | binary | logical | group | assign | call | get | set | this | super =>
    exact named.line

theorem evaluateSuperclass_tandem {call : Invoke} (h : CallTandem P call) {name name' : Token}
    (named : PairedToken P name name') {o o' : Option Expr}
    (same : Option.Rel (PairedExpr P) o o') :
    Tandem P (evaluateSuperclass call name o) (evaluateSuperclass call name' o')
      (Option.Rel (LikeClass P.likeness)) := by
  cases same with
  | none => exact Tandem.pure .none
  | some paired =>
    refine (evaluate_tandem h _ paired).bind fun _ _ value => ?_
    exact (orFail_tandem (superclassLine_paired named paired) rfl value.classOf?).map
      fun _ _ parent => .some parent

theorem methodEnv_tandem {o o' : Option Class} (same : Option.Rel (LikeClass P.likeness) o o') :
    Tandem P (methodEnv o) (methodEnv o') Eq := by
  apply Tandem.get
  intro m m' state
  cases same with
  | none => exact Tandem.pure state.env
  | some parent =>
    refine (childEnv_tandem state.env).bind fun inner inner' here => ?_
    exact (defineIn_tandem here rfl (.callable (.class parent))).bind fun _ _ _ =>
      Tandem.pure here

theorem methodTable_paired {env env' : Env} (here : env = env') {ds ds' : List FunctionDecl}
    (same : List.Forall₂ (PairedDecl P) ds ds') :
    LikeMethods P.likeness (methodTable env ds) (methodTable env' ds') := by
  unfold LikeMethods methodTable
  rw [List.forall₂_reverse_iff, List.forall₂_map_left_iff, List.forall₂_map_right_iff]
  refine same.imp fun d d' paired => ⟨paired.named.lexeme, .declared ⟨paired, here, ?_⟩⟩
  exact congrArg (· == initializerName) paired.named.lexeme

theorem assignClass_tandem {name name' : Token} (named : PairedToken P name name') {c c' : Class}
    (same : LikeClass P.likeness c c') :
    Tandem P (assignClass name c) (assignClass name' c') fun _ _ => True := by
  apply Tandem.get
  intro m m' state
  have owners : m.store.owner? m.env name.lexeme = m'.store.owner? m'.env name'.lexeme := by
    unfold Store.owner?
    rw [state.frames.binds, state.env, named.lexeme]
  rw [← named.lexeme] at owners ⊢
  rw [owners]
  cases m'.store.owner? m'.env name.lexeme with
  | some frame => exact put_tandem frame _ (.callable (.class same))
  | none => exact Tandem.fail named.line _

theorem declareClass_tandem {call : Invoke} (h : CallTandem P call) {name name' : Token}
    (named : PairedToken P name name') {o o' : Option Expr}
    (parent : Option.Rel (PairedExpr P) o o') {ds ds' : List FunctionDecl}
    (same : List.Forall₂ (PairedDecl P) ds ds') :
    Tandem P (declareClass call name o ds) (declareClass call name' o' ds') fun _ _ => True := by
  refine (evaluateSuperclass_tandem h named parent).bind fun _ _ parent =>
    (define_tandem named.lexeme .nil).bind fun _ _ _ => (methodEnv_tandem parent).bind
    fun env env' here => freshIdentity_tandem.bind fun id _ identity => ?_
  subst identity
  rw [← named.lexeme]
  have methods := methodTable_paired here same
  apply assignClass_tandem named
  cases parent with
  | none => exact .base methods
  | some parent => exact .derived parent methods

theorem loop_tandem {condition condition' : Eval Value} {body body' : Eval Flow}
    (test : Tandem P condition condition' (LikeValue P.likeness))
    (lap : Tandem P body body' (LikeFlow P.likeness)) (laps : Nat) :
    Tandem P (loop condition body laps) (loop condition' body' laps) (LikeFlow P.likeness) := by
  induction laps with
  | zero => exact Tandem.throw .outOfFuel
  | succ laps ih =>
    refine test.bind fun v v' same => ?_
    rw [same.isTruthy]
    refine Tandem.ite Iff.rfl (lap.bind fun flow flow' ended => ?_) (Tandem.pure .normal)
    cases ended with
    | normal => exact ih
    | «break» => exact Tandem.pure .normal
    | «return» same => exact Tandem.pure (.return same)

mutual

theorem execute_tandem {call : Invoke} (h : CallTandem P call) (laps : Nat) : (s : Stmt) →
    {s' : Stmt} → PairedStmt P s s' →
    Tandem P (execute call laps s) (execute call laps s') (LikeFlow P.likeness)
  | .expression e, _, .expression same => (evaluate_tandem h e same).bind fun _ _ _ =>
    Tandem.pure .normal
  | .print e, _, .print same => (evaluate_tandem h e same).bind fun _ _ value =>
    (printLine_tandem value.text).bind fun _ _ _ => Tandem.pure .normal
  | .var _ _, _, .var named value => (evaluate?_tandem h value).bind fun _ _ same =>
    (define_tandem named.lexeme same).bind fun _ _ _ => Tandem.pure .normal
  | .block body, _, .block same => Tandem.get fun _ _ state =>
    (childEnv_tandem state.env).bind fun _ _ here =>
    Tandem.within here (executeAll_tandem h laps body same)
  | .ite condition thenBranch none, _, .ite test yes .none =>
    (evaluate_tandem h condition test).bind fun _ _ value =>
    Tandem.ite (by rw [value.isTruthy]) (execute_tandem h laps thenBranch yes)
      (Tandem.pure .normal)
  | .ite condition thenBranch (some elseBranch), _, .ite test yes (.some no) =>
    (evaluate_tandem h condition test).bind fun _ _ value =>
    Tandem.ite (by rw [value.isTruthy]) (execute_tandem h laps thenBranch yes)
      (execute_tandem h laps elseBranch no)
  | .while condition body, _, .while test lap =>
    loop_tandem (evaluate_tandem h condition test) (execute_tandem h laps body lap) laps
  | .break _, _, .break _ => Tandem.pure .break
  | .function _, _, .function same =>
    (declareFunction_tandem same).bind fun _ _ _ => Tandem.pure .normal
  | .return _ _, _, .return _ value => (evaluate?_tandem h value).bind fun _ _ same =>
    Tandem.pure (.return same)
  | .class _ _ _, _, .class named parent same =>
    (declareClass_tandem h named parent same).bind fun _ _ _ => Tandem.pure .normal

theorem executeAll_tandem {call : Invoke} (h : CallTandem P call) (laps : Nat) :
    (ss : List Stmt) → {ss' : List Stmt} → PairedBody P ss ss' →
    Tandem P (executeAll call laps ss) (executeAll call laps ss') (LikeFlow P.likeness)
  | [], _, .nil => Tandem.pure .normal
  | s :: ss, _, .cons first others => (execute_tandem h laps s first).bind fun _ _ ended => by
    cases ended with
    | normal => exact executeAll_tandem h laps ss others
    | «break» => exact Tandem.pure .break
    | «return» same => exact Tandem.pure (.return same)

end

/-! ### Calls -/

theorem bindParameters_tandem {env env' : Env} (here : env = env') {ps ps' : List Token}
    (named : List.Forall₂ (PairedToken P) ps ps') {vs vs' : List Value}
    (values : List.Forall₂ (LikeValue P.likeness) vs vs') :
    Tandem P (bindParameters env ps vs) (bindParameters env' ps' vs') fun _ _ => True := by
  induction named generalizing vs vs' with
  | nil => exact Tandem.pure trivial
  | cons first _ ih =>
    cases values with
    | nil => exact Tandem.pure trivial
    | cons same others =>
      exact (defineIn_tandem here first.lexeme same).bind fun _ _ _ => ih others

theorem result_tandem {c d : Closure} (same : P.likeness.function c d) {flow flow' : Flow}
    (ended : LikeFlow P.likeness flow flow') :
    Tandem P (result c flow) (result d flow') (LikeValue P.likeness) := by
  unfold result
  rw [same.2.2, same.2.1]
  refine Tandem.ite Iff.rfl (Tandem.get fun m m' state => ?_) ?_
  · have receiver := state.frames.getAt? d.env 0 "this"
    generalize m.store.getAt? d.env 0 "this" = a at receiver ⊢
    generalize m'.store.getAt? d.env 0 "this" = b at receiver ⊢
    cases receiver with
    | none => exact Tandem.pure .nil
    | some same => exact Tandem.pure same
  · cases ended with
    | «return» same => exact Tandem.pure same
    | normal | «break» => exact Tandem.pure .nil

section Calls

variable {run : List Stmt → Eval Flow} (h : ∀ {body body' : List Stmt}, PairedBody P body body' →
  Tandem P (run body) (run body') (LikeFlow P.likeness))

include h

theorem callFunction_tandem {c d : Closure} (same : P.likeness.function c d) {vs vs' : List Value}
    (values : List.Forall₂ (LikeValue P.likeness) vs vs') :
    Tandem P (callFunction run c vs) (callFunction run d vs') (LikeValue P.likeness) :=
  (childEnv_tandem same.2.1).bind fun _ _ here =>
    (bindParameters_tandem here same.1.parameters values).bind fun _ _ _ =>
    (Tandem.within here (h same.1.bodies)).bind fun _ _ ended => result_tandem same ended

theorem callMethod_tandem {c c' : Class} (owner : LikeClass P.likeness c c') (object : ObjectId)
    {a b : Method} (same : LikeMethod P.likeness a b) {vs vs' : List Value}
    (values : List.Forall₂ (LikeValue P.likeness) vs vs') {paren paren' : Token}
    (place : PairedToken P paren paren') :
    Tandem P (callMethod run c object a vs paren) (callMethod run c' object b vs' paren')
      (LikeValue P.likeness) :=
  (bindMethod_tandem owner object same).bind fun _ _ bound => by
    cases bound with
    | function id same => exact callFunction_tandem h same values
    | native id op receiver => exact callNative_tandem op receiver values place
    | «class» same => exact Tandem.pure .nil

theorem instantiate_tandem {c c' : Class} (same : LikeClass P.likeness c c') {vs vs' : List Value}
    (values : List.Forall₂ (LikeValue P.likeness) vs vs') {paren paren' : Token}
    (place : PairedToken P paren paren') :
    Tandem P (instantiate run c vs paren) (instantiate run c' vs' paren')
      (LikeValue P.likeness) := by
  refine allocate_tandem.bind fun object _ identity => ?_
  subst identity
  have initializer := same.findMethod? initializerName
  generalize c.findMethod? initializerName = a at initializer ⊢
  generalize c'.findMethod? initializerName = b at initializer ⊢
  cases initializer with
  | none => exact Tandem.pure (.instance same object)
  | some method =>
    exact (callMethod_tandem h same object method values place).bind fun _ _ _ =>
      Tandem.pure (.instance same object)

theorem apply_tandem : CallTandem P (apply run) := by
  intro c c' vs vs' paren paren' callee values place
  cases callee with
  | function id same => exact callFunction_tandem h same values
  | native id op receiver => exact callNative_tandem op receiver values place
  | «class» same => exact instantiate_tandem h same values place

end Calls

theorem invoke_tandem (fuel : Nat) : CallTandem P (invoke fuel) := by
  induction fuel with
  | zero => exact fun _ _ _ => Tandem.throw .outOfFuel
  | succ fuel ih => exact apply_tandem fun same => executeAll_tandem ih fuel _ same

theorem runAll_tandem (fuel : Nat) {ss ss' : List Stmt} (same : PairedBody P ss ss') :
    Tandem P (runAll fuel ss) (runAll fuel ss') Eq := by
  induction same with
  | nil => exact Tandem.pure rfl
  | cons first _ ih =>
    exact (execute_tandem (invoke_tandem fuel) fuel _ first).bind fun _ _ _ => ih

end Runs

end Lox
