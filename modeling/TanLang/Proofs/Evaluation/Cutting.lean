import TanLang.Proofs.Evaluation.Course
import TanLang.Proofs.Evaluation.Natives
/-!
# Evaluation — runs cut short

Two things can stop a run that is in no other way at its end: the bound on
the recursion, and the limit on nested calls. Neither is looked at anywhere
but where it stops the run. So of two runs of the same code in the same
machine, one with lower bounds than the other, **the one is the other, or
it was stopped on the way**: it ends with nothing caught and nothing
undone, and what it printed is the beginning of what the other prints.
-/

namespace TanLang

/-- Why an action gives no answer. -/
inductive Halt where
  /-- A runtime error. -/
  | raised (error : RuntimeError)
  /-- Something that had to be there is missing. -/
  | crashed
  /-- The bound on the recursion ran out. -/
  | exhausted
  deriving DecidableEq

/-- A call beyond the limit on nested calls, reported at its parenthesis. -/
def Halt.overflow (paren : Token) : Halt := .raised ⟨.stackOverflow, paren⟩

namespace Outcome

variable {α : Type}

/-- Why an outcome is no answer, if it is none. -/
def halt? : Outcome α → Option Halt
  | done _ _ => none
  | raised error _ => some (.raised error)
  | crashed _ => some .crashed
  | exhausted _ => some .exhausted

/-- The bound did not run out. -/
def Ended (o : Outcome α) : Prop := o.halt? ≠ some .exhausted

instance (o : Outcome α) : Decidable o.Ended := inferInstanceAs (Decidable (_ ≠ _))

theorem Ended.done {a : α} {m : Machine} : (Outcome.done a m).Ended :=
  Option.some_ne_none _ |>.symm

theorem Ended.raised {error : RuntimeError} {m : Machine} :
    (Outcome.raised error m : Outcome α).Ended := fun h => Halt.noConfusion (Option.some.inj h)

theorem Ended.crashed {m : Machine} : (Outcome.crashed m : Outcome α).Ended :=
  fun h => Halt.noConfusion (Option.some.inj h)

theorem done_or_halt (o : Outcome α) : (∃ a m, o = done a m) ∨ ∃ k, o.halt? = some k := by
  cases o with
  | done a m => exact .inl ⟨a, m, rfl⟩
  | raised error m => exact .inr ⟨.raised error, rfl⟩
  | crashed m => exact .inr ⟨.crashed, rfl⟩
  | exhausted m => exact .inr ⟨.exhausted, rfl⟩

theorem halt?_mapMachine (o : Outcome α) (g : Machine → Machine) :
    (o.mapMachine g).halt? = o.halt? := by
  cases o <;> rfl

theorem machine_mapMachine (o : Outcome α) (g : Machine → Machine) :
    (o.mapMachine g).machine = g o.machine := by
  cases o <;> rfl

end Outcome

namespace Eval

variable {α β : Type} {m : Machine}

/-! ## What stops an action stops what it is part of -/

section

variable {x : Action α} {f : α → Action β} {k : Halt}

/-- **Nothing comes after an action that gives no answer.** -/
theorem bind_of_halt (hx : (x m).halt? = some k) :
    ((x >>= f) m).halt? = some k ∧ ((x >>= f) m).machine = (x m).machine := by
  change (Action.andThen x f m).halt? = some k ∧ (Action.andThen x f m).machine = (x m).machine
  unfold Action.andThen
  cases hxm : x m with
  | done a m' =>
    rw [hxm] at hx
    cases hx
  | raised error m' | crashed m' | exhausted m' =>
    rw [hxm] at hx
    exact ⟨hx, rfl⟩

theorem bind_of_done {a : α} {m' : Machine} (hx : x m = .done a m') : (x >>= f) m = f a m' := by
  change Action.andThen x f m = f a m'
  unfold Action.andThen
  rw [hx]

/-- **An answer comes from the second action**, after an answer of the first. -/
theorem exists_done_of_bind {b : β} {m'' : Machine} (h : (x >>= f) m = .done b m'') :
    ∃ a m', x m = .done a m' ∧ f a m' = .done b m'' := by
  rcases (x m).done_or_halt with ⟨a, m', hdone⟩ | ⟨k, hhalt⟩
  · rw [bind_of_done hdone] at h
    exact ⟨a, m', hdone, h⟩
  · have hstops := (bind_of_halt (f := f) hhalt).1
    rw [h] at hstops
    cases hstops

/-- One action after another is stopped by what stops the first, or by what
stops the second after the first has answered. -/
theorem halt?_bind (h : ((x >>= f) m).halt? = some k) :
    (x m).halt? = some k ∨ ∃ a m', x m = .done a m' ∧ (f a m').halt? = some k := by
  rcases (x m).done_or_halt with ⟨a, m', hdone⟩ | ⟨k', hhalt⟩
  · rw [bind_of_done hdone] at h
    exact .inr ⟨a, m', hdone, h⟩
  · rw [(bind_of_halt hhalt).1] at h
    exact .inl (hhalt.trans h)

/-- What comes after an action only adds to what is printed. -/
theorem suffix_bind (hf : ∀ a m, m.printed <:+ (f a m).machine.printed) (m : Machine) :
    (x m).machine.printed <:+ ((x >>= f) m).machine.printed := by
  rcases (x m).done_or_halt with ⟨a, m', hdone⟩ | ⟨k, hhalt⟩
  · rw [bind_of_done hdone, hdone]
    exact hf a m'
  · exact ⟨[], congrArg Machine.printed (bind_of_halt hhalt).2.symm⟩

end

/-! ## Single actions -/

/-- A call beyond the limit is not what an outcome failed for. -/
def Mild : Outcome α → Prop
  | .raised error _ => error.fault ≠ .stackOverflow
  | _ => True

theorem Mild.halt? {o : Outcome α} (h : Mild o) (paren : Token) :
    o.halt? ≠ some (.overflow paren) := by
  intro hhalt
  cases o <;> cases hhalt
  exact h rfl

/-- **An action that opens no call**: it takes back nothing that was printed,
and a call beyond the limit is not what it fails for. -/
structure Plain (x : Action α) : Prop where
  adds : ∀ m, m.printed <:+ (x m).machine.printed
  mild : ∀ m, Mild (x m)

namespace Plain

variable {x : Action α} {f : α → Action β} {rules : Rules} {token : Token}

/-- An action that answers, or fails for something else, and prints
nothing. -/
theorem of_outcome (h : ∀ m, (x m).machine.printed = m.printed ∧ Mild (x m)) : Plain x where
  adds m := ⟨[], (h m).1.symm⟩
  mild m := (h m).2

theorem bind (hx : Plain x) (hf : ∀ a, Plain (f a)) : Plain (x >>= f) where
  adds m := (hx.adds m).trans (suffix_bind (fun a => (hf a).adds) m)
  mild m := by
    have hfirst := hx.mild m
    change Mild (Action.andThen x f m)
    unfold Action.andThen
    cases hxm : x m with
    | done a m' => exact (hf a).mild m'
    | raised error m' =>
      rw [hxm] at hfirst
      exact hfirst
    | crashed m' | exhausted m' => trivial

theorem pure (a : α) : Plain (Pure.pure a : Action α) :=
  of_outcome fun _ => ⟨rfl, trivial⟩

theorem stop : Plain (Action.stop : Action α) :=
  of_outcome fun _ => ⟨rfl, trivial⟩

theorem raise (fault : Fault) (h : fault ≠ .stackOverflow) :
    Plain (Action.raise token fault : Action α) :=
  of_outcome fun _ => ⟨rfl, h⟩

theorem liftFault {r : Except Fault α} (h : r ≠ .error .stackOverflow) :
    Plain (Action.liftFault token r) := by
  cases r with
  | ok a => exact pure a
  | error fault => exact raise fault fun heq => h (by rw [heq])

theorem prefixed (op : Token) (v : Value) : Plain (Action.liftFault op (v.prefixed op)) := by
  refine liftFault ?_
  unfold Value.prefixed
  split <;> try split
  all_goals simp

theorem combine (op : Token) (l r : Value) :
    Plain (Action.liftFault op (Value.combine op l r)) := by
  refine liftFault ?_
  unfold Value.combine
  split
  · simp
  · simp
  · unfold Value.sum
    split <;> simp
  · split
    · unfold Value.numeric
      split <;> try split
      all_goals simp
    · simp

theorem print (v : Value) : Plain (Action.print v) where
  adds _ := List.suffix_cons _ _
  mild _ := trivial

theorem define (name : Text) (v : Value) : Plain (Action.define name v) :=
  of_outcome fun _ => ⟨rfl, trivial⟩

theorem read (address : Address) : Plain (Action.read rules token address) := by
  refine of_outcome fun m => ?_
  unfold Action.read
  split
  · exact ⟨rfl, trivial⟩
  · exact ⟨rfl, nofun⟩
  · exact ⟨rfl, trivial⟩

theorem write (address : Address) (v : Value) : Plain (Action.write rules token address v) := by
  refine of_outcome fun m => ?_
  unfold Action.write
  split
  · exact ⟨rfl, trivial⟩
  · exact ⟨rfl, nofun⟩
  · exact ⟨rfl, trivial⟩

theorem expectInstance (fault : Fault) (v : Value) (h : fault ≠ .stackOverflow) :
    Plain (expectInstance token fault v) := by
  cases v with
  | instanceRef i => exact pure i
  | _ => exact raise fault h

theorem readProperty (i : InstanceId) : Plain (readProperty i token) := by
  refine of_outcome fun m => ?_
  unfold Eval.readProperty
  split
  · exact ⟨rfl, nofun⟩
  · exact ⟨rfl, trivial⟩

theorem writeField (i : InstanceId) (v : Value) : Plain (writeField i token v) :=
  of_outcome fun _ => ⟨rfl, trivial⟩

theorem declareFunction (decl : Routine (Stmt Address)) : Plain (declareFunction decl) :=
  of_outcome fun _ => ⟨rfl, trivial⟩

theorem declareClass (superclass : Option ClassId) (methods : List (Routine (Stmt Address))) :
    Plain (declareClass token superclass methods) := by
  refine of_outcome fun m => ?_
  unfold Eval.declareClass
  simp only
  split
  · exact ⟨rfl, trivial⟩
  · exact ⟨rfl, nofun⟩

theorem readSuperclass (superclass : Option (Token × Address)) :
    Plain (readSuperclass rules superclass) := by
  cases superclass with
  | none => exact pure none
  | some named =>
    refine (read _).bind fun v => ?_
    cases v with
    | classRef c => exact pure (some c)
    | _ => exact raise .superclassNotClass nofun

theorem checkCall (callee : Value) (given : Nat) : Plain (checkCall token callee given) := by
  refine of_outcome fun m => ?_
  unfold Eval.checkCall
  split
  · exact ⟨rfl, nofun⟩
  · split
    · exact ⟨rfl, trivial⟩
    · exact ⟨rfl, nofun⟩

theorem callNative (i : NativeId) (args : List Value) :
    Plain (callNative rules token i args) := by
  refine of_outcome fun m => ?_
  refine callNative_cases (fun _ => ?_) (fun _ _ _ _ => ?_) fun _ _ _ _ => ?_
  · exact ⟨rfl, trivial⟩
  · exact ⟨rfl, trivial⟩
  · exact ⟨rfl, nofun⟩

theorem instantiate (c : ClassId) : Plain (instantiate c) := by
  refine of_outcome fun m => ?_
  unfold Eval.instantiate
  simp only
  split
  all_goals exact ⟨rfl, trivial⟩

theorem fetchFunction (i : FunctionId) : Plain (fetchFunction i) := by
  refine of_outcome fun m => ?_
  unfold Eval.fetchFunction
  split
  all_goals exact ⟨rfl, trivial⟩

theorem enterCall (fn : Function) (args : List Value) : Plain (enterCall fn args) := by
  refine of_outcome fun m => ?_
  unfold Eval.enterCall
  split
  all_goals exact ⟨rfl, trivial⟩

theorem leaveCall (fn : Function) (c : Completion) : Plain (leaveCall fn c) :=
  of_outcome fun _ => ⟨rfl, trivial⟩

end Plain

/-! ## One run and a longer one -/

/-- **An outcome is another one cut short** for a reason of a kind: it is the
same, or the run was stopped and had printed what the other one prints
first. The last line printed is the first of the list. -/
def Shortened (cut : Halt → Prop) (o o' : Outcome α) : Prop :=
  o = o' ∨ ∃ k, o.halt? = some k ∧ cut k ∧ o.machine.printed <:+ o'.machine.printed

/-- **An action is another one, cut short** wherever it is not the same; the
longer one takes back nothing that was printed. -/
structure Curtails (cut : Halt → Prop) (x x' : Action α) : Prop where
  adds : ∀ m, m.printed <:+ (x' m).machine.printed
  shortened : ∀ m, Shortened cut (x m) (x' m)

namespace Curtails

variable {cut : Halt → Prop} {x x' : Action α} {f : α → Action β}

/-- An action that opens no call is the same in both runs. -/
theorem of_plain (hx : Plain x) : Curtails cut x x where
  adds := hx.adds
  shortened _ := .inl rfl

theorem pure (a : α) : Curtails cut (Pure.pure a : Action α) (Pure.pure a) := of_plain (.pure a)

/-- A bound that has run out cuts everything short. -/
theorem stop (hcut : cut .exhausted) (hadds : ∀ m, m.printed <:+ (x' m).machine.printed) :
    Curtails cut Action.stop x' where
  adds := hadds
  shortened m := .inr ⟨.exhausted, rfl, hcut, hadds m⟩

/-- The machine set up before a run and put back after it, which leaves alone
what is printed. -/
theorem around {g b : Machine → Machine} (hset : ∀ m, (g m).printed = m.printed)
    (hback : ∀ m, (b m).printed = m.printed) {m : Machine} (hx : Curtails cut x x') :
    m.printed <:+ ((x' (g m)).mapMachine b).machine.printed ∧
      Shortened cut ((x (g m)).mapMachine b) ((x' (g m)).mapMachine b) := by
  have hadds := hx.adds (g m)
  rw [hset] at hadds
  refine ⟨?_, ?_⟩
  · rw [Outcome.machine_mapMachine, hback]
    exact hadds
  · rcases hx.shortened (g m) with hsame | ⟨k, hk, hcut, hprinted⟩
    · exact .inl (by rw [hsame])
    · refine .inr ⟨k, by rw [Outcome.halt?_mapMachine, hk], hcut, ?_⟩
      simpa only [Outcome.machine_mapMachine, hback] using hprinted

theorem inScope {s : ScopeId} (hx : Curtails cut x x') :
    Curtails cut (Action.inScope s x) (Action.inScope s x') where
  adds m := (hx.around (g := fun m => { m with active := s })
    (b := fun m' => { m' with active := m.active }) (fun _ => rfl) (fun _ => rfl)).1
  shortened m := (hx.around (g := fun m => { m with active := s })
    (b := fun m' => { m' with active := m.active }) (fun _ => rfl) (fun _ => rfl)).2

theorem inNewScope (hx : Curtails cut x x') :
    Curtails cut (Action.inNewScope x) (Action.inNewScope x') where
  adds m := hx.inScope.adds { m with heap := (m.heap.newScope (some m.active)).1 }
  shortened m := hx.inScope.shortened { m with heap := (m.heap.newScope (some m.active)).1 }

theorem counted (hx : Curtails cut x x') :
    Curtails cut (Action.counted x) (Action.counted x') where
  adds _ := (hx.around (g := fun m => { m with depth := m.depth + 1 })
    (b := fun m => { m with depth := m.depth - 1 }) (fun _ => rfl) (fun _ => rfl)).1
  shortened _ := (hx.around (g := fun m => { m with depth := m.depth + 1 })
    (b := fun m => { m with depth := m.depth - 1 }) (fun _ => rfl) (fun _ => rfl)).2

/-- **One action after another.** If the first is cut short, the second comes
only in the longer run, and adds to what that printed. -/
theorem bind {g : α → Action β} (hx : Curtails cut x x') (hf : ∀ a, Curtails cut (f a) (g a)) :
    Curtails cut (x >>= f) (x' >>= g) where
  adds m := (hx.adds m).trans (suffix_bind (fun a => (hf a).adds) m)
  shortened m := by
    rcases hx.shortened m with hsame | ⟨k, hk, hcut, hprinted⟩
    · change Shortened cut (Action.andThen x f m) (Action.andThen x' g m)
      unfold Action.andThen
      rw [hsame]
      cases x' m with
      | done a m' => exact (hf a).shortened m'
      | raised error m' | crashed m' | exhausted m' => exact .inl rfl
    · obtain ⟨hhalt, hmachine⟩ := bind_of_halt (f := f) hk
      refine .inr ⟨k, hhalt, hcut, ?_⟩
      rw [hmachine]
      exact hprinted.trans (suffix_bind (fun a => (hf a).adds) m)

end Curtails

/-! ## Code

The shorter run goes by rules and a bound, the longer one by another limit
on nested calls and another bound. -/

/-- **What code does within a bound, cut short** where it is not what the
code does within another bound and limit. -/
structure CurtailsWithin (cut : Halt → Prop) (rules : Rules) (limit n n' : Nat) : Prop where
  evaluate : ∀ e, Curtails cut (evaluate rules n e)
    (evaluate { rules with maxDepth := limit } n' e)
  evaluateAll : ∀ es, Curtails cut (evaluateAll rules n es)
    (evaluateAll { rules with maxDepth := limit } n' es)
  apply : ∀ paren callee args, Curtails cut (apply rules n paren callee args)
    (apply { rules with maxDepth := limit } n' paren callee args)
  invoke : ∀ paren callee args, Curtails cut (invoke rules n paren callee args)
    (invoke { rules with maxDepth := limit } n' paren callee args)
  runFunction : ∀ f args, Curtails cut (runFunction rules n f args)
    (runFunction { rules with maxDepth := limit } n' f args)
  execute : ∀ s, Curtails cut (execute rules n s) (execute { rules with maxDepth := limit } n' s)
  evaluateOption : ∀ e, Curtails cut (evaluateOption rules n e)
    (evaluateOption { rules with maxDepth := limit } n' e)
  executeOption : ∀ s, Curtails cut (executeOption rules n s)
    (executeOption { rules with maxDepth := limit } n' s)
  executeAll : ∀ ss, Curtails cut (executeAll rules n ss)
    (executeAll { rules with maxDepth := limit } n' ss)
  repeatWhile : ∀ cond body, Curtails cut (repeatWhile rules n cond body)
    (repeatWhile { rules with maxDepth := limit } n' cond body)
  repeatFor : ∀ cond step body, Curtails cut (repeatFor rules n cond step body)
    (repeatFor { rules with maxDepth := limit } n' cond step body)
  evaluateCondition : ∀ e, Curtails cut (evaluateCondition rules n e)
    (evaluateCondition { rules with maxDepth := limit } n' e)

/-- **Where the limits matter**: they are the same, or the lower one may cut
a run short. -/
structure Limited (cut : Halt → Prop) (limit limit' : Nat) : Prop where
  le : limit ≤ limit'
  overflow : limit < limit' → ∀ paren, cut (.overflow paren)

section

variable {cut : Halt → Prop} {rules : Rules} {limit n n' : Nat}

/-- With fewer calls open than the lower limit, both runs go on. With more,
the one stops here, and the other may go on. -/
theorem checkDepth_curtails (hlimit : Limited cut rules.maxDepth limit) (paren : Token) :
    Curtails cut (checkDepth rules paren) (checkDepth { rules with maxDepth := limit } paren) where
  adds m := by
    unfold checkDepth
    split
    all_goals exact List.suffix_refl _
  shortened m := by
    have hle := hlimit.le
    unfold checkDepth
    by_cases hfull : limit ≤ m.depth
    · rw [if_pos (Nat.le_trans hle hfull), if_pos hfull]
      exact .inl rfl
    · rw [if_neg hfull]
      by_cases hcut : rules.maxDepth ≤ m.depth
      · rw [if_pos hcut]
        exact .inr ⟨_, rfl, hlimit.overflow (by omega) paren, List.suffix_refl _⟩
      · rw [if_neg hcut]
        exact .inl rfl

variable (hlimit : Limited cut rules.maxDepth limit) (ih : CurtailsWithin cut rules limit n n')

section

include ih

theorem evaluate_curtails (e : Expr Address) : Curtails cut (evaluate rules (n + 1) e)
    (evaluate { rules with maxDepth := limit } (n' + 1) e) := by
  cases e <;> simp only [evaluate]
  case literal token value => exact .pure _
  case grouping paren inner => exact ih.evaluate inner
  case unary op operand => exact (ih.evaluate operand).bind fun v => .of_plain (.prefixed op v)
  case binary left op right =>
    refine (ih.evaluate left).bind fun l => ?_
    exact (ih.evaluate right).bind fun r => .of_plain (.combine op l r)
  case ternary cond mark yes no =>
    refine (ih.evaluate cond).bind fun c => ?_
    split
    · exact ih.evaluate yes
    · exact ih.evaluate no
  case logical left op right =>
    refine (ih.evaluate left).bind fun l => ?_
    split
    · exact .pure l
    · exact ih.evaluate right
  case var name address => exact .of_plain (.read address)
  case receiver keyword address => exact .of_plain (.read address)
  case assign name address value =>
    refine (ih.evaluate value).bind fun v => ?_
    exact .of_plain ((Plain.write address v).bind fun _ => .pure v)
  case call callee paren args =>
    refine (ih.evaluate callee).bind fun f => ?_
    exact (ih.evaluateAll args).bind fun vs => ih.apply paren f vs
  case get object name =>
    refine (ih.evaluate object).bind fun o => ?_
    exact .of_plain ((Plain.expectInstance .noProperties o nofun).bind fun i => .readProperty i)
  case set object name value =>
    refine (ih.evaluate object).bind fun o => ?_
    refine (Curtails.of_plain (.expectInstance .noFields o nofun)).bind fun i => ?_
    refine (ih.evaluate value).bind fun v => ?_
    exact .of_plain ((Plain.writeField i v).bind fun _ => .pure v)

theorem evaluateAll_curtails (es : List (Expr Address)) :
    Curtails cut (evaluateAll rules (n + 1) es)
      (evaluateAll { rules with maxDepth := limit } (n' + 1) es) := by
  cases es <;> simp only [evaluateAll]
  case nil => exact .pure _
  case cons e rest =>
    refine (ih.evaluate e).bind fun v => ?_
    exact (ih.evaluateAll rest).bind fun vs => .pure _

theorem invoke_curtails (paren : Token) (callee : Value) (args : List Value) :
    Curtails cut (invoke rules (n + 1) paren callee args)
      (invoke { rules with maxDepth := limit } (n' + 1) paren callee args) := by
  cases callee <;> simp only [invoke]
  case function i =>
    exact (Curtails.of_plain (.fetchFunction i)).bind fun f => ih.runFunction f args
  case native i => exact .of_plain (.callNative i args)
  case classRef c =>
    refine (Curtails.of_plain (.instantiate c)).bind fun made => ?_
    obtain ⟨i, init⟩ := made
    cases init with
    | none => exact .pure _
    | some init => exact (ih.runFunction init args).bind fun _ => .pure _
  all_goals exact .of_plain (.raise .notCallable nofun)

theorem runFunction_curtails (f : Function) (args : List Value) :
    Curtails cut (runFunction rules (n + 1) f args)
      (runFunction { rules with maxDepth := limit } (n' + 1) f args) := by
  simp only [runFunction]
  refine (Curtails.of_plain (.enterCall f args)).bind fun s => ?_
  exact (ih.executeAll f.decl.body).inScope.bind fun c => .of_plain (.leaveCall f c)

theorem execute_curtails (s : Stmt Address) : Curtails cut (execute rules (n + 1) s)
    (execute { rules with maxDepth := limit } (n' + 1) s) := by
  cases s <;> simp only [execute]
  case expr e => exact (ih.evaluate e).bind fun _ => .pure _
  case print keyword value =>
    refine (ih.evaluate value).bind fun v => ?_
    exact .of_plain ((Plain.print v).bind fun _ => .pure _)
  case varDecl name initial =>
    refine (ih.evaluateOption initial).bind fun v => ?_
    exact .of_plain ((Plain.define name.lexeme v).bind fun _ => .pure _)
  case block brace body => exact (ih.executeAll body).inNewScope
  case branch keyword cond yes no =>
    refine (ih.evaluate cond).bind fun c => ?_
    split
    · exact ih.execute yes
    · exact ih.executeOption no
  case loop keyword cond body => exact ih.repeatWhile cond body
  case forLoop keyword initial cond step body =>
    cases initial with
    | none => exact ih.repeatFor cond step body
    | some initial =>
      exact ((ih.execute initial).bind fun _ => ih.repeatFor cond step body).inNewScope
  case function decl => exact .of_plain ((Plain.declareFunction decl).bind fun _ => .pure _)
  case ret keyword value => exact (ih.evaluateOption value).bind fun v => .pure _
  case classDecl name superclass methods =>
    refine .of_plain ((Plain.readSuperclass superclass).bind fun c => ?_)
    exact (Plain.declareClass c methods).bind fun _ => .pure _

theorem evaluateOption_curtails (e : Option (Expr Address)) :
    Curtails cut (evaluateOption rules (n + 1) e)
      (evaluateOption { rules with maxDepth := limit } (n' + 1) e) := by
  cases e <;> simp only [evaluateOption]
  case none => exact .pure _
  case some e => exact ih.evaluate e

theorem executeOption_curtails (s : Option (Stmt Address)) :
    Curtails cut (executeOption rules (n + 1) s)
      (executeOption { rules with maxDepth := limit } (n' + 1) s) := by
  cases s <;> simp only [executeOption]
  case none => exact .pure _
  case some s => exact ih.execute s

theorem executeAll_curtails (ss : List (Stmt Address)) :
    Curtails cut (executeAll rules (n + 1) ss)
      (executeAll { rules with maxDepth := limit } (n' + 1) ss) := by
  cases ss <;> simp only [executeAll]
  case nil => exact .pure _
  case cons s rest =>
    refine (ih.execute s).bind fun c => ?_
    cases c with
    | returning v => exact .pure _
    | normal => exact ih.executeAll rest

theorem repeatWhile_curtails (cond : Expr Address) (body : Option (Stmt Address)) :
    Curtails cut (repeatWhile rules (n + 1) cond body)
      (repeatWhile { rules with maxDepth := limit } (n' + 1) cond body) := by
  simp only [repeatWhile]
  refine (ih.evaluate cond).bind fun c => ?_
  split
  · refine (ih.executeOption body).bind fun c => ?_
    cases c with
    | returning v => exact .pure _
    | normal => exact ih.repeatWhile cond body
  · exact .pure _

theorem repeatFor_curtails (cond step : Option (Expr Address)) (body : Option (Stmt Address)) :
    Curtails cut (repeatFor rules (n + 1) cond step body)
      (repeatFor { rules with maxDepth := limit } (n' + 1) cond step body) := by
  simp only [repeatFor]
  refine (ih.evaluateCondition cond).bind fun c => ?_
  split
  · refine (ih.executeOption body).bind fun c => ?_
    cases c with
    | returning v => exact .pure _
    | normal => exact (ih.evaluateOption step).bind fun _ => ih.repeatFor cond step body
  · exact .pure _

theorem evaluateCondition_curtails (e : Option (Expr Address)) :
    Curtails cut (evaluateCondition rules (n + 1) e)
      (evaluateCondition { rules with maxDepth := limit } (n' + 1) e) := by
  cases e <;> simp only [evaluateCondition]
  case none => exact .pure _
  case some e => exact ih.evaluate e

end

include hlimit ih

theorem apply_curtails (paren : Token) (callee : Value) (args : List Value) :
    Curtails cut (apply rules (n + 1) paren callee args)
      (apply { rules with maxDepth := limit } (n' + 1) paren callee args) := by
  simp only [apply]
  refine (Curtails.of_plain (.checkCall callee args.length)).bind fun _ => ?_
  exact (checkDepth_curtails hlimit paren).bind fun _ => (ih.invoke paren callee args).counted

/-- **One step more in both runs.** -/
theorem CurtailsWithin.succ : CurtailsWithin cut rules limit (n + 1) (n' + 1) where
  evaluate := evaluate_curtails ih
  evaluateAll := evaluateAll_curtails ih
  apply := apply_curtails hlimit ih
  invoke := invoke_curtails ih
  runFunction := runFunction_curtails ih
  execute := execute_curtails ih
  evaluateOption := evaluateOption_curtails ih
  executeOption := executeOption_curtails ih
  executeAll := executeAll_curtails ih
  repeatWhile := repeatWhile_curtails ih
  repeatFor := repeatFor_curtails ih
  evaluateCondition := evaluateCondition_curtails ih

omit ih

/-- **Code cut short by a lower limit**, within the same bound. -/
theorem curtailsWithin : ∀ n, CurtailsWithin cut rules limit n n
  | 0 =>
    { evaluate := fun _ => .of_plain .stop
      evaluateAll := fun _ => .of_plain .stop
      apply := fun _ _ _ => .of_plain .stop
      invoke := fun _ _ _ => .of_plain .stop
      runFunction := fun _ _ => .of_plain .stop
      execute := fun _ => .of_plain .stop
      evaluateOption := fun _ => .of_plain .stop
      executeOption := fun _ => .of_plain .stop
      executeAll := fun _ => .of_plain .stop
      repeatWhile := fun _ _ => .of_plain .stop
      repeatFor := fun _ _ _ => .of_plain .stop
      evaluateCondition := fun _ => .of_plain .stop }
  | n + 1 => (curtailsWithin n).succ hlimit

/-- **Code cut short by a lower limit and a lower bound.** -/
theorem curtailsWithin_add (hcut : cut .exhausted) (k : Nat) :
    ∀ n, CurtailsWithin cut rules limit n (n + k)
  | 0 => by
    rw [Nat.zero_add]
    have hsame := curtailsWithin hlimit k
    exact
    { evaluate := fun e => .stop hcut (hsame.evaluate e).adds
      evaluateAll := fun es => .stop hcut (hsame.evaluateAll es).adds
      apply := fun paren callee args => .stop hcut (hsame.apply paren callee args).adds
      invoke := fun paren callee args => .stop hcut (hsame.invoke paren callee args).adds
      runFunction := fun f args => .stop hcut (hsame.runFunction f args).adds
      execute := fun s => .stop hcut (hsame.execute s).adds
      evaluateOption := fun e => .stop hcut (hsame.evaluateOption e).adds
      executeOption := fun s => .stop hcut (hsame.executeOption s).adds
      executeAll := fun ss => .stop hcut (hsame.executeAll ss).adds
      repeatWhile := fun cond body => .stop hcut (hsame.repeatWhile cond body).adds
      repeatFor := fun cond step body => .stop hcut (hsame.repeatFor cond step body).adds
      evaluateCondition := fun e => .stop hcut (hsame.evaluateCondition e).adds }
  | n + 1 => by
    rw [Nat.add_right_comm]
    exact (curtailsWithin_add hcut k n).succ hlimit

end

/-- A program cut short. -/
theorem interpret_curtails {cut : Halt → Prop} {rules : Rules} {limit n n' : Nat}
    (hwithin : CurtailsWithin cut rules limit n n') (p : Program Address) :
    Curtails cut (interpret rules n p) (interpret { rules with maxDepth := limit } n' p) := by
  induction p with
  | nil => exact .pure ()
  | cons s rest ih =>
    exact (hwithin.execute s).bind (f := fun _ => interpret rules n rest)
      (g := fun _ => interpret { rules with maxDepth := limit } n' rest) fun _ => ih

/-! ## More of the bound -/

section

variable {rules : Rules} {n n' : Nat}

/-- Where only the bound cuts a run short, a run that has ended is the same
in every longer one. -/
theorem Curtails.eq_of_ended {x x' : Action α} (hx : Curtails (· = .exhausted) x x')
    (hended : (x m).Ended) : x' m = x m := by
  rcases hx.shortened m with hsame | ⟨k, hk, rfl, -⟩
  · exact hsame.symm
  · exact absurd hk hended

/-- **A higher bound changes nothing in a run that has ended**, whatever part
of a program was run. -/
theorem curtailsWithin_of_le (hle : n ≤ n') :
    CurtailsWithin (· = .exhausted) rules rules.maxDepth n n' := by
  obtain ⟨k, rfl⟩ := Nat.exists_eq_add_of_le hle
  have hlimit : Limited (· = .exhausted) rules.maxDepth rules.maxDepth :=
    ⟨Nat.le_refl _, fun hlt => absurd hlt (Nat.lt_irrefl _)⟩
  exact curtailsWithin_add hlimit rfl k n

/-- The same for a program. -/
theorem interpret_of_le {p : Program Address} (hle : n ≤ n')
    (hended : (interpret rules n p m).Ended) :
    interpret rules n' p m = interpret rules n p m :=
  (interpret_curtails (curtailsWithin_of_le hle) p).eq_of_ended hended

end

end Eval

end TanLang
