import TanLang.Proofs.Evaluation.Effects
import TanLang.Proofs.Heap.Receivers
/-!
# Evaluation — `this` while a program runs

A task is in order if the heap is respectful, its code respects the shape of
the scopes that it runs in, and each scope in which it will come to bind a
method is expected. **Tasks in order keep the scopes that hold `this`**: what
a task calls is in order again, and whatever a task does itself makes the heap
follow the one before. Every binding of a method that a run comes to is there
at its end.
-/

namespace TanLang

open Scoping

namespace Eval

/-! ## Methods that are bound -/

/-- **A method is bound to an instance** while a task runs within a bound: the
heap in which that happens, the name, the method and the instance. -/
inductive Binds (rules : Rules) :
    Nat → Task → Machine → Heap → Text → Function → InstanceId → Prop where
  /-- It is fetched from the instance. -/
  | property {n object name m i m' f}
      (hobject : evaluate rules n object m = .done (.instanceRef i) m')
      (hmethod : m'.heap.property? i name.lexeme = some (.method f)) :
      Binds rules (n + 1) (.evaluate (.get object name)) m m'.heap name.lexeme f i
  /-- The instance is new, and the method sets it up. -/
  | init {n paren c args m f}
      (hmethod : (m.heap.newInstance c).1.method? c initName = some f) :
      Binds rules (n + 1) (.invoke paren (.classRef c) args) m (m.heap.newInstance c).1 initName f
        (m.heap.newInstance c).2
  | call {n t m t' m' h name f i} (hcall : Calls rules n t m t' m')
      (hbinds : Binds rules n t' m' h name f i) : Binds rules (n + 1) t m h name f i

/-- The same while a program runs. -/
inductive BindsDuring (rules : Rules) (bound : Nat) :
    Program Address → Machine → Heap → Text → Function → InstanceId → Prop where
  | first {s rest m h name f i} (hbinds : Binds rules bound (.execute s) m h name f i) :
      BindsDuring rules bound (s :: rest) m h name f i
  | next {s rest m c m₁ h name f i} (hdone : execute rules bound s m = .done c m₁)
      (hrest : BindsDuring rules bound rest m₁ h name f i) :
      BindsDuring rules bound (s :: rest) m h name f i

/-! ## Tasks in order -/

/-- The code of a task respects a shape; a function that is run respects the
scopes it was made in. -/
def Task.Respects (κ : Shape) (h : Heap) : Task → Prop
  | .evaluate e => ExprRespects κ e
  | .evaluateAll es => ExprsRespect κ es
  | .runFunction f _ => h.FunctionRespects f
  | .execute s => StmtRespects κ s
  | .evaluateOption e => ExprOptionRespects κ e
  | .executeOption s => StmtOptionRespects κ s
  | .executeAll ss => BodyRespects κ ss
  | .repeatWhile cond body => ExprRespects κ cond ∧ StmtOptionRespects κ body
  | .repeatFor _ _ _ => False
  | .evaluateCondition _ => False
  | .write name address _ => κ.Spares name.lexeme address
  | _ => True

/-- **A task is orderly** in a machine: the heap is respectful, and so is the
code where it runs. -/
structure Orderly (t : Task) (m : Machine) : Prop where
  heap : m.heap.Respectful
  code : ∃ κ, m.heap.Shaped κ m.active ∧ t.Respects κ m.heap

/-- **A task is in order** if it also binds methods only in scopes that are
expected. -/
structure InOrder (rules : Rules) (P : ScopeId → InstanceId → Prop) (n : Nat) (t : Task)
    (m : Machine) : Prop extends Orderly t m where
  expected : ∀ h name f i, Binds rules n t m h name f i → P (h.bind f i).2.closure i

/-- Nothing is expected. -/
theorem Orderly.inOrder {t : Task} {m : Machine} (h : Orderly t m) (rules : Rules) (n : Nat) :
    InOrder rules (fun _ _ => True) n t m :=
  ⟨h, fun _ _ _ _ _ => trivial⟩

/-- Whether a task runs what it calls in another scope. -/
def Task.shifts : Task → Bool
  | .execute (.block _ _) => true
  | .execute (.forLoop _ _ _ _ _) => true
  | .runFunction _ _ => true
  | _ => false

variable {α : Type} {rules : Rules} {P : ScopeId → InstanceId → Prop} {n : Nat} {t t' : Task}
variable {m m' m'' : Machine} {κ : Shape} {f : Function} {args : List Value} {c : ClassId}

/-! ## What single actions answer -/

theorem checkDepth_done {paren : Token} {u : Unit} (h : checkDepth rules paren m = .done u m') :
    m' = m := by
  unfold checkDepth at h
  split at h <;> cases h
  rfl

theorem expectInstance_done {token : Token} {fault : Fault} {v : Value} {i : InstanceId}
    (h : expectInstance token fault v m = .done i m') : v = .instanceRef i ∧ m' = m := by
  cases v <;> cases h
  exact ⟨rfl, rfl⟩

theorem fetchFunction_done {id : FunctionId} (h : fetchFunction id m = .done f m') :
    m.heap.function? id = some f ∧ m' = m := by
  unfold fetchFunction at h
  split at h <;> cases h
  exact ⟨‹_›, rfl⟩

theorem enterCall_done {s : ScopeId} (h : enterCall f args m = .done s m') :
    s = (m.heap.enter f args).2 ∧ m' = { m with heap := (m.heap.enter f args).1 } := by
  unfold enterCall at h
  split at h <;> cases h
  exact ⟨rfl, rfl⟩

/-! Reading, checking and using a native leave the machine alone. -/

theorem machine_liftFault (token : Token) (result : Except Fault α) (m : Machine) :
    (Action.liftFault token result m).machine = m := by
  cases result <;> rfl

theorem machine_expectInstance (token : Token) (fault : Fault) (v : Value) (m : Machine) :
    (expectInstance token fault v m).machine = m := by
  cases v <;> rfl

theorem machine_checkCall (paren : Token) (callee : Value) (given : Nat) (m : Machine) :
    (checkCall paren callee given m).machine = m := by
  unfold checkCall
  split
  · rfl
  · split <;> rfl

theorem machine_checkDepth (rules : Rules) (paren : Token) (m : Machine) :
    (checkDepth rules paren m).machine = m := by
  unfold checkDepth
  split <;> rfl

theorem machine_fetchFunction (id : FunctionId) (m : Machine) :
    (fetchFunction id m).machine = m := by
  unfold fetchFunction
  split <;> rfl

theorem machine_read (rules : Rules) (name : Token) (address : Address) (m : Machine) :
    (Action.read rules name address m).machine = m := by
  unfold Action.read
  split <;> rfl

theorem readSuperclass_done {superclass : Option (Token × Address)} {c : Option ClassId}
    (h : readSuperclass rules superclass m = .done c m') : m' = m := by
  cases superclass with
  | none =>
    cases h
    rfl
  | some named =>
    obtain ⟨name, address⟩ := named
    obtain ⟨v, m₁, hread, hclass⟩ := exists_done_of_bind h
    have hsame := machine_read rules name address m
    rw [hread] at hsame
    cases v <;> cases hclass
    exact hsame

/-- **What a class call makes first**: a new instance, and the `init` method
bound to it if the class has one. -/
theorem instantiate_eq (c : ClassId) (m : Machine) :
    instantiate c m =
      match (m.heap.newInstance c).1.method? c initName with
      | none => .done ((m.heap.newInstance c).2, none) { m with heap := (m.heap.newInstance c).1 }
      | some f => .done ((m.heap.newInstance c).2,
          some ((m.heap.newInstance c).1.bind f (m.heap.newInstance c).2).2)
          { m with heap := ((m.heap.newInstance c).1.bind f (m.heap.newInstance c).2).1 } := by
  cases hmethod : (m.heap.newInstance c).1.method? c initName with
  | none => simp only [instantiate, hmethod]
  | some f => simp only [instantiate, hmethod]

theorem instantiate_init {i : InstanceId} {init : Function}
    (h : instantiate c m = .done (i, some init) m') :
    i = (m.heap.newInstance c).2 ∧ ∃ f, (m.heap.newInstance c).1.method? c initName = some f ∧
      init = ((m.heap.newInstance c).1.bind f i).2 ∧
      m' = { m with heap := ((m.heap.newInstance c).1.bind f i).1 } := by
  rw [instantiate_eq] at h
  split at h
  · cases h
  · cases h
    exact ⟨rfl, _, ‹_›, rfl, rfl⟩

/-! ## What is called is in order -/

/-- **What a task calls runs in the same scope**, unless it is run in a new
one. -/
theorem Calls.active_eq (hcall : Calls rules n t m t' m') (hshifts : t.shifts = false) :
    m'.active = m.active := by
  cases hcall with
  | right hdone | yes hdone _ | no hdone _ | logicalRight hdone _ | assign hdone | args hdone
  | restExprs hdone | branchYes hdone _ | branchNo hdone _ | whileBody hdone _ =>
    exact Task.active_of_done (t := .evaluate _) hdone
  | restStmts hdone => exact Task.active_of_done (t := .execute _) hdone
  | forBody hdone _ => exact Task.active_of_done (t := .evaluateCondition _) hdone
  | call hcallee hargs =>
    exact (Task.active_of_done (t := .evaluateAll _) hargs).trans
      (Task.active_of_done (t := .evaluate _) hcallee)
  | field hobject hinstance =>
    obtain ⟨-, rfl⟩ := expectInstance_done hinstance
    exact Task.active_of_done (t := .evaluate _) hobject
  | apply hcall hdepth =>
    obtain ⟨rfl, -⟩ := arity?_of_checkCall hcall
    rw [checkDepth_done hdepth]
  | function hfetch => rw [(fetchFunction_done hfetch).2]
  | init hmade =>
    obtain ⟨-, f, -, -, rfl⟩ := instantiate_init hmade
    rfl
  | whileAgain hcond _ hbody =>
    exact (Task.active_of_done (t := .executeOption _) hbody).trans
      (Task.active_of_done (t := .evaluate _) hcond)
  | forStep hcond _ hbody =>
    exact (Task.active_of_done (t := .executeOption _) hbody).trans
      (Task.active_of_done (t := .evaluateCondition _) hcond)
  | forAgain hcond _ hbody hstep =>
    exact (Task.active_of_done (t := .evaluateOption _) hstep).trans
      ((Task.active_of_done (t := .executeOption _) hbody).trans
        (Task.active_of_done (t := .evaluateCondition _) hcond))
  | block | forInitial | forAfter _ | body _ | leave _ _ => cases hshifts
  | _ => rfl

/-- A function that a class call runs first respects its scopes. -/
theorem init_respects {i : InstanceId} {init : Function} (hr : m.heap.Respectful)
    (hmade : instantiate c m = .done (i, some init) m') : m'.heap.FunctionRespects init := by
  obtain ⟨rfl, f, hmethod, rfl, rfl⟩ := instantiate_init hmade
  have hnew : Heap.Follows (fun _ _ => True) m.heap (m.heap.newInstance c).1 := .newInstance c
  have hbound : Heap.Follows (fun _ _ => True) (m.heap.newInstance c).1
      ((m.heap.newInstance c).1.bind f (m.heap.newInstance c).2).1 :=
    .bind (m.heap.isSome_newInstance c) trivial
  exact ((hnew.respectful hr).method? hmethod).bind hbound.steady

/-- **What a task in order calls has code that respects its scopes.** -/
theorem Calls.code (hcall : Calls rules n t m t' m') (hr : m.heap.Respectful)
    (hshaped : m.heap.Shaped κ m.active) (hcode : t.Respects κ m.heap)
    (hsteady : m.heap.Steady m'.heap) :
    ∃ κ', m'.heap.Shaped κ' m'.active ∧ t'.Respects κ' m'.heap := by
  have hsame : t.shifts = false → m'.heap.Shaped κ m'.active := by
    intro hshifts
    rw [hcall.active_eq hshifts]
    exact hshaped.steady hsteady
  cases hcall with
  | grouping | unary | object | expr | print | loop | ret | someExpr | someStmt
  | whileAgain _ _ _ =>
    exact ⟨κ, hsame rfl, hcode⟩
  | left | cond | logicalLeft | assign _ | callee | target | firstExpr | branch | firstStmt
  | whileCond =>
    exact ⟨κ, hsame rfl, hcode.1⟩
  | right _ | logicalRight _ _ | assigned | args _ | field _ _ | restExprs _ | varDecl
  | restStmts _ | whileBody _ _ =>
    exact ⟨κ, hsame rfl, hcode.2⟩
  | yes _ _ | branchYes _ _ => exact ⟨κ, hsame rfl, hcode.2.1⟩
  | no _ _ | branchNo _ _ => exact ⟨κ, hsame rfl, hcode.2.2⟩
  | var | receiver | call _ _ | apply _ _ | superclass => exact ⟨κ, hsame rfl, trivial⟩
  | function hfetch =>
    obtain ⟨hfunction, rfl⟩ := fetchFunction_done hfetch
    exact ⟨κ, hsame rfl, hr.functions _ _ hfunction⟩
  | init hmade => exact ⟨κ, hsame rfl, init_respects hr hmade⟩
  | block => exact ⟨false :: κ, hshaped.newScope, hcode⟩
  | body henter =>
    obtain ⟨rfl, rfl⟩ := enterCall_done henter
    obtain ⟨κ', hclosure, hroutine, -⟩ := hcode
    obtain ⟨hparams, hbody⟩ := routineRespects_iff.1 hroutine
    exact ⟨false :: κ', hclosure.enter hparams, hbody⟩
  | leave henter hbody =>
    -- the scope that was active before the call is active again
    obtain ⟨rfl, rfl⟩ := enterCall_done henter
    have hactive : m'.active = m.active := by
      have hback := congrArg (fun o => o.machine.active) hbody
      exact hback.symm.trans (by simp only [Action.inScope, Outcome.machine_mapMachine])
    exact ⟨κ, hactive ▸ hshaped.steady hsteady, trivial⟩
  | forLoop | forInitial | forAfter _ | forCond | forBody _ _ | forStep _ _ _ | forAgain _ _ _ _
  | someCondition => exact hcode.elim

/-! ## What a task does itself -/

/-- **What a task does itself, it does in its own scope.** -/
theorem Acts.active_eq {x : Action α} (hacts : Acts rules n t m m' x) : m'.active = m.active := by
  cases hacts with
  | prefixed hdone | object hdone | target hdone | print hdone =>
    exact Task.active_of_done (t := .evaluate _) hdone
  | define hdone => exact Task.active_of_done (t := .evaluateOption _) hdone
  | notClass hdone => exact Task.active_of_done (n := 0) (t := .read _ _) hdone
  | combine hleft hright =>
    exact (Task.active_of_done (t := .evaluate _) hright).trans
      (Task.active_of_done (t := .evaluate _) hleft)
  | property hobject hinstance =>
    obtain ⟨-, rfl⟩ := expectInstance_done hinstance
    exact Task.active_of_done (t := .evaluate _) hobject
  | field hobject hinstance hvalue =>
    obtain ⟨-, rfl⟩ := expectInstance_done hinstance
    exact (Task.active_of_done (t := .evaluate _) hvalue).trans
      (Task.active_of_done (t := .evaluate _) hobject)
  | checkDepth hcall => rw [(arity?_of_checkCall hcall).1]
  | declareClass hsuperclass => rw [readSuperclass_done hsuperclass]
  | _ => rfl

theorem follows_readProperty {i : InstanceId} {name : Token} (hr : m.heap.Respectful)
    (hP : ∀ f, m.heap.property? i name.lexeme = some (.method f) →
      P (m.heap.bind f i).2.closure i) :
    Heap.Follows P m.heap (readProperty i name m).machine.heap := by
  unfold readProperty
  split
  · exact .refl _
  · rename_i property hproperty
    cases property with
    | field v => exact .refl _
    | method f =>
      obtain ⟨c, hmethod⟩ := Heap.exists_method?_of_property? hproperty
      have hbound : Heap.Follows P m.heap (m.heap.bind f i).1 :=
        .bind (Heap.isSome_of_property? hproperty) (hP f hproperty)
      exact hbound.trans (.newFunction fun _ => (hr.method? hmethod).bind hbound.steady)

theorem follows_instantiate (hP : ∀ f, (m.heap.newInstance c).1.method? c initName = some f →
      P ((m.heap.newInstance c).1.bind f (m.heap.newInstance c).2).2.closure
        (m.heap.newInstance c).2) :
    Heap.Follows P m.heap (instantiate c m).machine.heap := by
  have hnew : Heap.Follows P m.heap (m.heap.newInstance c).1 := .newInstance c
  rw [instantiate_eq]
  split
  · exact hnew
  · rename_i f hmethod
    exact hnew.trans (.bind (m.heap.isSome_newInstance c) (hP f hmethod))

theorem follows_declareFunction {decl : Routine (Stmt Address)} (hr : m.heap.Respectful)
    (hshaped : m.heap.Shaped κ m.active) (hname : κ.Declares decl.name.lexeme)
    (hdecl : RoutineRespects κ decl) :
    Heap.Follows P m.heap (declareFunction decl m).machine.heap := by
  have hmade : Heap.Follows P m.heap (m.heap.newFunction ⟨decl, m.active, false⟩).1 :=
    .newFunction fun _ => ⟨κ, hshaped, hdecl, nofun⟩
  exact hmade.trans (.define hname.name fun scope hscope => hr.head hshaped hname.scope hscope)

theorem follows_declareClass {name : Token} {superclass : Option ClassId}
    {methods : List (Routine (Stmt Address))} (hr : m.heap.Respectful)
    (hshaped : m.heap.Shaped κ m.active) (hname : κ.Declares name.lexeme)
    (hmethods : MethodsRespect (true :: κ) methods) :
    Heap.Follows P m.heap (declareClass name superclass methods m).machine.heap := by
  rw [declareClass_eq (hr.isSome_scope? hshaped)]
  have hfirst : Heap.Follows P m.heap (m.heap.define m.active name.lexeme .nil) :=
    .define hname.name fun scope hscope => hr.head hshaped hname.scope hscope
  have hmade : Heap.Follows P (m.heap.define m.active name.lexeme .nil)
      ((m.heap.define m.active name.lexeme .nil).newClass
        ⟨name.lexeme, superclass, methodTable m.active methods⟩).1 := by
    refine .newClass fun x fn hfn => ?_
    obtain ⟨hmem, hclosure, hinit⟩ := of_find?_methodTable hfn
    refine ⟨?_, κ, ?_, routineRespects_of_mem hmethods hmem⟩
    · rw [hinit, beq_iff_eq]
    · rw [hclosure]
      exact hshaped.steady hfirst.steady
  have hr' := hmade.respectful (hfirst.respectful hr)
  have hshaped' := (hshaped.steady hfirst.steady).steady hmade.steady
  exact (hfirst.trans hmade).trans
    (.define hname.name fun scope hscope => hr'.head hshaped' hname.scope hscope)

/-- **An assignment leaves the scopes with `this` alone**: by its distance it
finds one without, and in the globals one that binds its name. -/
theorem follows_write {name : Token} {address : Address} {v : Value}
    (hrules : rules.addressing = .distance) (hr : m.heap.Respectful)
    (hshaped : m.heap.Shaped κ m.active) (hspares : κ.Spares name.lexeme address) :
    Heap.Follows P m.heap (Action.write rules name address v m).machine.heap := by
  unfold Action.write
  split
  · rename_i s hplace
    refine .define hspares.name fun scope hscope => ?_
    cases address with
    | none =>
      -- the globals are searched for the name
      have hheld : m.heap.holder Machine.globals name.lexeme = some s := by
        simp only [Machine.place, hrules, Machine.place.held] at hplace
        split at hplace <;> cases hplace
        assumption
      exact hr.not_holds hscope (Heap.contains_of_holder hheld hscope) hspares.name
    | some d =>
      obtain ⟨t, scope', hancestor, hscope', hthis⟩ := hshaped.ancestor (hspares.scope d rfl)
      rw [place_some hrules hancestor] at hplace
      cases hplace
      cases hscope'.symm.trans hscope
      exact hthis
  · exact .refl _
  · exact .refl _

/-- **Whatever a task in order does itself**, the heap follows the one
before. -/
theorem Acts.follows {x : Action α} (hacts : Acts rules n t m m' x)
    (hrules : rules.addressing = .distance) (hr : m'.heap.Respectful)
    (hshaped : m'.heap.Shaped κ m'.active) (hcode : t.Respects κ m.heap)
    (hexpected : ∀ h name f i, Binds rules (n + 1) t m h name f i → P (h.bind f i).2.closure i) :
    Heap.Follows P m'.heap (x m').machine.heap := by
  -- most actions leave the machine alone
  have hstill : ∀ {β : Type} {y : Action β}, (y m').machine = m' →
      Heap.Follows P m'.heap (y m').machine.heap := by
    intro β y hsame
    rw [hsame]
    exact .refl _
  cases hacts with
  | prefixed _ | combine _ _ => exact hstill (machine_liftFault _ _ _)
  | object _ | target _ => exact hstill (machine_expectInstance _ _ _ _)
  | checkCall => exact hstill (machine_checkCall _ _ _ _)
  | checkDepth _ => exact hstill (machine_checkDepth _ _ _)
  | fetch => exact hstill (machine_fetchFunction _ _)
  | native =>
    obtain ⟨r, hkept⟩ := machine_callNative _ _ _ _ _
    rw [hkept]
    exact .keep r
  | read => exact hstill (machine_read _ _ _ _)
  | property hobject hinstance =>
    obtain ⟨rfl, rfl⟩ := expectInstance_done hinstance
    exact follows_readProperty hr fun f hmethod => hexpected _ _ f _ (.property hobject hmethod)
  | field _ _ _ => exact .setField _ _ _
  | instantiate => exact follows_instantiate fun f hmethod => hexpected _ _ f _ (.init hmethod)
  | enter =>
    obtain ⟨κ', -, hroutine, -⟩ := hcode
    unfold enterCall
    split
    · exact .refl _
    · exact .enter (routineRespects_iff.1 hroutine).1
  | define _ =>
    exact .define hcode.1.name fun scope hscope => hr.head hshaped hcode.1.scope hscope
  | declareFunction => exact follows_declareFunction hr hshaped hcode.1 hcode.2
  | declareClass _ => exact follows_declareClass hr hshaped hcode.1 hcode.2
  | write => exact follows_write hrules hr hshaped hcode
  | notCallable | print _ | notClass _ | leave => exact .refl _

/-- **Tasks in order keep the scopes that hold `this`.** -/
theorem inOrder_upholds (hrules : rules.addressing = .distance)
    (P : ScopeId → InstanceId → Prop) :
    Upholds rules (InOrder rules P) (Heap.Follows P) where
  refl := .refl
  trans := .trans
  opens _ := .newScope _
  calls hfine hcall hfollows := by
    obtain ⟨κ, hshaped, hcode⟩ := hfine.code
    exact ⟨⟨hfollows.respectful hfine.heap, hcall.code hfine.heap hshaped hcode hfollows.steady⟩,
      fun h name f i hbinds => hfine.expected h name f i (.call hcall hbinds)⟩
  acts hfine hacts hfollows := by
    obtain ⟨κ, hshaped, hcode⟩ := hfine.code
    refine hacts.follows hrules (hfollows.respectful hfine.heap) ?_ hcode hfine.expected
    rw [hacts.active_eq]
    exact hshaped.steady hfollows.steady
  ends := by
    intro t m hfine
    obtain ⟨κ, hshaped, hcode⟩ := hfine.code
    cases t with
    | write name address v => exact follows_write hrules hfine.heap hshaped hcode
    | read name address =>
      show Heap.Follows P m.heap (Action.read rules name address m).machine.heap
      rw [machine_read]
      exact .refl _
    | _ => exact .refl _

/-! ## Every binding stays -/

section

variable {h : Heap} {name : Text} {i : InstanceId} {bound : Nat} {p : Program Address}

/-- **A method fetched from an instance** is a new function, bound to it. -/
theorem evaluate_get {object : Expr Address} {name : Token}
    (hobject : evaluate rules n object m = .done (.instanceRef i) m')
    (hmethod : m'.heap.property? i name.lexeme = some (.method f)) :
    evaluate rules (n + 1) (.get object name) m = .done (.function ⟨m'.heap.functions.size⟩)
      { m' with heap := ((m'.heap.bind f i).1.newFunction (m'.heap.bind f i).2).1 } := by
  have hread : readProperty i name m' = .done (.function ⟨m'.heap.functions.size⟩)
      { m' with heap := ((m'.heap.bind f i).1.newFunction (m'.heap.bind f i).2).1 } := by
    simp only [readProperty, hmethod]
    rfl
  simp only [evaluate]
  rw [bind_of_done hobject]
  exact hread

/-- **A new instance whose class has an `init` method** gets it bound. -/
theorem instantiate_of_method
    (hmethod : (m.heap.newInstance c).1.method? c initName = some f) :
    instantiate c m = .done ((m.heap.newInstance c).2,
        some ((m.heap.newInstance c).1.bind f (m.heap.newInstance c).2).2)
      { m with heap := ((m.heap.newInstance c).1.bind f (m.heap.newInstance c).2).1 } := by
  rw [instantiate_eq]
  simp only [hmethod]

/-- **What becomes of a method that is bound** while a task runs: the heap
that it is bound in leads to the last one. -/
theorem Binds.leads (hrules : rules.addressing = .distance)
    (hbinds : Binds rules n t m h name f i) (hfine : InOrder rules P n t m) :
    h.MethodRespects name f ∧ (h.bind f i).1.Steady (t.run rules n m).machine.heap := by
  have hupholds := inOrder_upholds hrules P
  induction hbinds with
  | @property n object name m i m' f hobject hmethod =>
    have hrun := hupholds.run (hupholds.call hfine .object).1
    rw [show (Task.evaluate object).run rules n m = _ from hobject] at hrun
    obtain ⟨c, hfound⟩ := Heap.exists_method?_of_property? hmethod
    have hf := (hrun.respectful hfine.heap).method? hfound
    have hbound : Heap.Follows (fun _ _ => True) m'.heap (m'.heap.bind f i).1 :=
      .bind (Heap.isSome_of_property? hmethod) trivial
    have hmade : Heap.Follows (fun _ _ => True) (m'.heap.bind f i).1
        ((m'.heap.bind f i).1.newFunction (m'.heap.bind f i).2).1 :=
      .newFunction fun _ => hf.bind hbound.steady
    refine ⟨hf, ?_⟩
    rw [show (Task.evaluate (.get object name)).run rules (n + 1) m = _ from
      evaluate_get hobject hmethod]
    exact hmade.steady
  | @init n paren c args m f hmethod =>
    have hcall : Calls rules n (.invoke paren (.classRef c) args) m _ _ :=
      .init (instantiate_of_method hmethod)
    obtain ⟨hfine', -, hback⟩ := hupholds.call hfine hcall
    have hnew : Heap.Follows P m.heap (m.heap.newInstance c).1 := .newInstance c
    exact ⟨(hnew.respectful hfine.heap).method? hmethod,
      ((hupholds.run hfine').trans hback).steady⟩
  | call hcall _ ih =>
    obtain ⟨hfine', -, hback⟩ := hupholds.call hfine hcall
    obtain ⟨hf, hsteady⟩ := ih hfine'
    exact ⟨hf, hsteady.trans hback.steady⟩

/-- A program is in order that respects its scopes and binds methods where it
is expected. -/
theorem fineAll_inOrder (hr : m.heap.Respectful) (hactive : m.active = Machine.globals)
    (hbody : BodyRespects [] p)
    (hexpected : ∀ h name f i, BindsDuring rules bound p m h name f i →
      P (h.bind f i).2.closure i) :
    FineAll rules (InOrder rules P) (Heap.Follows P) bound p m := by
  induction p generalizing m with
  | nil => trivial
  | cons s rest ih =>
    refine ⟨⟨⟨hr, [], hactive ▸ .globals, hbody.1⟩, fun h name f i hbinds =>
      hexpected h name f i (.first hbinds)⟩, fun c m₁ hdone hfollows => ?_⟩
    exact ih (hfollows.respectful hr) ((Task.active_of_done (t := .execute s) hdone).trans hactive)
      hbody.2 fun h name f i hbinds => hexpected h name f i (.next hdone hbinds)

/-- **Every method that a program binds stays bound.** -/
theorem BindsDuring.leads (hrules : rules.addressing = .distance)
    (hbinds : BindsDuring rules bound p m h name f i)
    (hfine : FineAll rules (InOrder rules P) (Heap.Follows P) bound p m) :
    h.MethodRespects name f ∧
      (h.bind f i).1.Steady (interpret rules bound p m).machine.heap := by
  have hupholds := inOrder_upholds hrules P
  induction hbinds with
  | @first s rest m h name f i hbinds =>
    obtain ⟨hf, hsteady⟩ := hbinds.leads hrules hfine.1
    have hafter : Heap.Follows P (execute rules bound s m).machine.heap
        (interpret rules bound (s :: rest) m).machine.heap :=
      hupholds.after_first fun c m₁ hdone => hupholds.interpret (hupholds.fine_rest hfine hdone).2
    exact ⟨hf, hsteady.trans hafter.steady⟩
  | @next s rest m c m₁ h name f i hdone _ ih =>
    have hgoes : interpret rules bound (s :: rest) m = interpret rules bound rest m₁ :=
      bind_of_done (x := execute rules bound s) hdone
    rw [hgoes]
    exact ih (hupholds.fine_rest hfine hdone).2

end

end Eval

end TanLang
