import TanLang.Proofs.Evaluation.Cutting
/-!
# Evaluation — what a task is made of

A task runs the tasks it calls, one after the other, and does single things
itself in between. `Calls` says which tasks it calls; `Acts` says what it
does itself, and in which machine. **That is all a task does** (`Made`), so
what stops a run comes from one such action, and stops every task on the way
to it.
-/

namespace TanLang

namespace Eval

/-- What a task answers with. -/
def Task.Answer : Task → Type
  | .evaluateAll _ => List Value
  | .execute _ => Completion
  | .executeOption _ => Completion
  | .executeAll _ => Completion
  | .repeatWhile _ _ => Completion
  | .repeatFor _ _ _ => Completion
  | .write _ _ _ => Unit
  | _ => Value

/-- A task run within a bound. -/
def Task.run (rules : Rules) (n : Nat) : (t : Task) → Action t.Answer
  | .evaluate e => Eval.evaluate rules n e
  | .evaluateAll es => Eval.evaluateAll rules n es
  | .apply paren callee args => Eval.apply rules n paren callee args
  | .invoke paren callee args => Eval.invoke rules n paren callee args
  | .runFunction f args => Eval.runFunction rules n f args
  | .leaveCall f c => Eval.leaveCall f c
  | .execute s => Eval.execute rules n s
  | .evaluateOption e => Eval.evaluateOption rules n e
  | .executeOption s => Eval.executeOption rules n s
  | .executeAll ss => Eval.executeAll rules n ss
  | .repeatWhile cond body => Eval.repeatWhile rules n cond body
  | .repeatFor cond step body => Eval.repeatFor rules n cond step body
  | .evaluateCondition e => Eval.evaluateCondition rules n e
  | .read name address => Action.read rules name address
  | .write name address v => Action.write rules name address v

/-- **What a task does itself**, and in which machine. The task runs with the
bound `n + 1`, what it calls with the bound `n`. -/
inductive Acts (rules : Rules) (n : Nat) :
    Task → Machine → Machine → {α : Type} → Action α → Prop where
  | prefixed {op operand m v m'} (hoperand : evaluate rules n operand m = .done v m') :
      Acts rules n (.evaluate (.unary op operand)) m m' (Action.liftFault op (v.prefixed op))
  | combine {left op right m l m' r m''} (hleft : evaluate rules n left m = .done l m')
      (hright : evaluate rules n right m' = .done r m'') :
      Acts rules n (.evaluate (.binary left op right)) m m''
        (Action.liftFault op (Value.combine op l r))
  | object {object name m o m'} (hobject : evaluate rules n object m = .done o m') :
      Acts rules n (.evaluate (.get object name)) m m' (expectInstance name .noProperties o)
  | property {object name m o m' i m''} (hobject : evaluate rules n object m = .done o m')
      (hinstance : expectInstance name .noProperties o m' = .done i m'') :
      Acts rules n (.evaluate (.get object name)) m m'' (readProperty i name)
  | target {object name value m o m'} (hobject : evaluate rules n object m = .done o m') :
      Acts rules n (.evaluate (.set object name value)) m m' (expectInstance name .noFields o)
  | field {object name value m o m' i m₁ v m''} (hobject : evaluate rules n object m = .done o m')
      (hinstance : expectInstance name .noFields o m' = .done i m₁)
      (hvalue : evaluate rules n value m₁ = .done v m'') :
      Acts rules n (.evaluate (.set object name value)) m m'' (writeField i name v)
  | checkCall {paren callee args m} :
      Acts rules n (.apply paren callee args) m m (checkCall paren callee args.length)
  | checkDepth {paren callee args m m'}
      (hcall : checkCall paren callee args.length m = .done () m') :
      Acts rules n (.apply paren callee args) m m' (checkDepth rules paren)
  | fetch {paren f args m} :
      Acts rules n (.invoke paren (.function f) args) m m (fetchFunction f)
  | native {paren f args m} :
      Acts rules n (.invoke paren (.native f) args) m m (callNative rules paren f args)
  | instantiate {paren c args m} :
      Acts rules n (.invoke paren (.classRef c) args) m m (instantiate c)
  | notCallable {paren callee args m} :
      Acts rules n (.invoke paren callee args) m m (Action.raise paren .notCallable : Action Value)
  | enter {f args m} : Acts rules n (.runFunction f args) m m (enterCall f args)
  | print {keyword value m v m'} (hvalue : evaluate rules n value m = .done v m') :
      Acts rules n (.execute (.print keyword value)) m m' (Action.print v)
  | define {name initial m v m'} (hvalue : evaluateOption rules n initial m = .done v m') :
      Acts rules n (.execute (.varDecl name initial)) m m' (Action.define name.lexeme v)
  | declareFunction {decl m} :
      Acts rules n (.execute (.function decl)) m m (declareFunction decl)
  | notClass {name sup address methods m v m'}
      (hread : Action.read rules sup address m = .done v m') :
      Acts rules n (.execute (.classDecl name (some (sup, address)) methods)) m m'
        (Action.raise sup .superclassNotClass : Action (Option ClassId))
  | declareClass {name superclass methods m c m'}
      (hsuperclass : readSuperclass rules superclass m = .done c m') :
      Acts rules n (.execute (.classDecl name superclass methods)) m m'
        (declareClass name c methods)
  | read {name address m} :
      Acts rules n (.read name address) m m (Action.read rules name address)
  | write {name address v m} :
      Acts rules n (.write name address v) m m (Action.write rules name address v)
  | leave {f c m} : Acts rules n (.leaveCall f c) m m (leaveCall f c)

/-- **An action is made of what a task calls and does itself**, from a machine
on; and which tasks are called on the way, in which machines. -/
inductive Made (rules : Rules) (n : Nat) (t : Task) (m : Machine) :
    Machine → {α : Type} → Action α → (Task → Machine → Prop) → Prop where
  | result {m' α} (a : α) : Made rules n t m m' (pure a : Action α) fun _ _ => False
  | call {m' t'} (hcall : Calls rules n t m t' m') :
      Made rules n t m m' (t'.run rules n) fun t'' m'' => t'' = t' ∧ m'' = m'
  | act {m' α} {x : Action α} (hacts : Acts rules n t m m' x) :
      Made rules n t m m' x fun _ _ => False
  | bind {m' α β} {x : Action α} {f : α → Action β} {V : Task → Machine → Prop}
      {W : α → Machine → Task → Machine → Prop} (hx : Made rules n t m m' x V)
      (hf : ∀ a m'', x m' = .done a m'' → Made rules n t m m'' (f a) (W a m'')) :
      Made rules n t m m' (x >>= f) fun t' m₁ =>
        V t' m₁ ∨ ∃ a m'', x m' = .done a m'' ∧ W a m'' t' m₁
  | choice {m' α} {c : Bool} {x y : Action α} {V W : Task → Machine → Prop}
      (hyes : c = true → Made rules n t m m' x V) (hno : c = false → Made rules n t m m' y W) :
      Made rules n t m m' (if c = true then x else y) fun t' m₁ =>
        c = true ∧ V t' m₁ ∨ c = false ∧ W t' m₁
  | inScope {m' s α} {x : Action α} {V : Task → Machine → Prop}
      (hx : Made rules n t m { m' with active := s } x V) :
      Made rules n t m m' (Action.inScope s x) V
  | inNewScope {α} {x : Action α} {V : Task → Machine → Prop}
      (hx : Made rules n t m (entered m) x V) : Made rules n t m m (Action.inNewScope x) V
  | counted {m' α} {x : Action α} {V : Task → Machine → Prop}
      (hx : Made rules n t m { m' with depth := m'.depth + 1 } x V) :
      Made rules n t m m' (Action.counted x) V
  /-- Some of the tasks on the way may be left out. -/
  | fewer {m' α} {x : Action α} {V W : Task → Machine → Prop} (hx : Made rules n t m m' x V)
      (hfewer : ∀ t' m'', W t' m'' → V t' m'') : Made rules n t m m' x W

variable {α β : Type} {rules : Rules} {n : Nat} {t t' : Task} {m m' : Machine} {k : Halt}

theorem evaluate_made (e : Expr Address) (m : Machine) :
    Made rules n (.evaluate e) m m (evaluate rules (n + 1) e) (Calls rules n (.evaluate e) m) := by
  cases e <;> simp only [evaluate]
  case literal token value => exact .fewer (.result _) fun t' m' h => by cases h
  case grouping paren inner =>
    refine .fewer (.call .grouping) fun t' m' h => ?_
    cases h
    exact ⟨rfl, rfl⟩
  case unary op operand =>
    refine .fewer (.bind (.call .unary) fun v m₁ hv => .act (.prefixed hv)) fun t' m' h => ?_
    cases h
    exact .inl ⟨rfl, rfl⟩
  case binary left op right =>
    refine .fewer (.bind (.call .left) fun l m₁ hl => .bind (.call (.right hl)) fun r m₂ hr =>
      .act (.combine hl hr)) fun t' m' h => ?_
    cases h with
    | left => exact .inl ⟨rfl, rfl⟩
    | right hl => exact .inr ⟨_, _, hl, .inl ⟨rfl, rfl⟩⟩
  case ternary cond mark yes no =>
    refine .fewer (.bind (.call .cond) fun c m₁ hc =>
      .choice (fun htruthy => .call (.yes hc htruthy)) fun htruthy => .call (.no hc htruthy))
      fun t' m' h => ?_
    cases h with
    | cond => exact .inl ⟨rfl, rfl⟩
    | yes hc htruthy => exact .inr ⟨_, _, hc, .inl ⟨htruthy, rfl, rfl⟩⟩
    | no hc htruthy => exact .inr ⟨_, _, hc, .inr ⟨htruthy, rfl, rfl⟩⟩
  case logical left op right =>
    refine .fewer (.bind (.call .logicalLeft) fun l m₁ hl => .choice (fun _ => .result l)
      fun hdecides => .call (.logicalRight hl hdecides)) fun t' m' h => ?_
    cases h with
    | logicalLeft => exact .inl ⟨rfl, rfl⟩
    | logicalRight hl hdecides => exact .inr ⟨_, _, hl, .inr ⟨hdecides, rfl, rfl⟩⟩
  case var name address =>
    refine .fewer (.call .var) fun t' m' h => ?_
    cases h
    exact ⟨rfl, rfl⟩
  case receiver keyword address =>
    refine .fewer (.call .receiver) fun t' m' h => ?_
    cases h
    exact ⟨rfl, rfl⟩
  case assign name address value =>
    refine .fewer (.bind (.call .assigned) fun v m₁ hv => .bind (.call (.assign hv)) fun _ _ _ =>
      .result v) fun t' m' h => ?_
    cases h with
    | assigned => exact .inl ⟨rfl, rfl⟩
    | assign hv => exact .inr ⟨_, _, hv, .inl ⟨rfl, rfl⟩⟩
  case call callee paren args =>
    refine .fewer (.bind (.call .callee) fun f m₁ hf => .bind (.call (.args hf)) fun vs m₂ hvs =>
      .call (.call hf hvs)) fun t' m' h => ?_
    cases h with
    | callee => exact .inl ⟨rfl, rfl⟩
    | args hf => exact .inr ⟨_, _, hf, .inl ⟨rfl, rfl⟩⟩
    | call hf hvs => exact .inr ⟨_, _, hf, .inr ⟨_, _, hvs, rfl, rfl⟩⟩
  case get object name =>
    refine .fewer (.bind (.call .object) fun o m₁ ho => .bind (.act (.object ho)) fun i m₂ hi =>
      .act (.property ho hi)) fun t' m' h => ?_
    cases h
    exact .inl ⟨rfl, rfl⟩
  case set object name value =>
    refine .fewer (.bind (.call .target) fun o m₁ ho => .bind (.act (.target ho)) fun i m₂ hi =>
      .bind (.call (.field ho hi)) fun v m₃ hv => .bind (.act (.field ho hi hv)) fun _ _ _ =>
        .result v) fun t' m' h => ?_
    cases h with
    | target => exact .inl ⟨rfl, rfl⟩
    | field ho hi => exact .inr ⟨_, _, ho, .inr ⟨_, _, hi, .inl ⟨rfl, rfl⟩⟩⟩

theorem invoke_made (paren : Token) (callee : Value) (args : List Value) (m : Machine) :
    Made rules n (.invoke paren callee args) m m (invoke rules (n + 1) paren callee args)
      (Calls rules n (.invoke paren callee args) m) := by
  cases callee <;> simp only [invoke]
  case function f =>
    refine .fewer (.bind (.act .fetch) fun fn m₁ hfn => .call (.function hfn)) fun t' m' h => ?_
    cases h with
    | function hfn => exact .inr ⟨_, _, hfn, rfl, rfl⟩
  case native f => exact .fewer (.act .native) fun t' m' h => by cases h
  case classRef c =>
    -- the instance is the answer, with or without an `init` method to run
    let visited : InstanceId × Option Function → Machine → Task → Machine → Prop :=
      fun made m₁ t' m' => ∃ init, made.2 = some init ∧ t' = .runFunction init args ∧ m' = m₁
    refine .fewer (.bind (W := visited) (.act .instantiate) fun made m₁ hmade => ?_)
      fun t' m' h => ?_
    · obtain ⟨i, init⟩ := made
      cases init with
      | none => exact .fewer (.result _) fun t' m' h => by obtain ⟨_, ⟨⟩, _⟩ := h
      | some init =>
        refine .fewer (.bind (.call (.init hmade)) fun _ _ _ => .result _) fun t' m' h => ?_
        obtain ⟨_, hinit, rfl, rfl⟩ := h
        obtain rfl := Option.some.inj hinit
        exact .inl ⟨rfl, rfl⟩
    · cases h with
      | init hmade => exact .inr ⟨_, _, hmade, _, rfl, rfl, rfl⟩
  all_goals exact .fewer (.act .notCallable) fun t' m' h => by cases h

theorem classDecl_made (name : Token) (superclass : Option (Token × Address))
    (methods : List (Routine (Stmt Address))) (m : Machine) :
    Made rules n (.execute (.classDecl name superclass methods)) m m
      (execute rules (n + 1) (.classDecl name superclass methods))
      (Calls rules n (.execute (.classDecl name superclass methods)) m) := by
  simp only [execute]
  have hrest : ∀ c m₁, readSuperclass rules superclass m = .done c m₁ →
      Made rules n (.execute (.classDecl name superclass methods)) m m₁
        (declareClass name c methods >>= fun _ => pure Completion.normal) fun _ _ => False :=
    fun c m₁ hc => .fewer (.bind (W := fun _ _ _ _ => False) (.act (.declareClass hc))
      fun _ _ _ => .result _) fun t' m' h => h.elim
  cases superclass with
  | none =>
    refine .fewer (.bind (.result none) hrest) fun t' m' h => ?_
    cases h
  | some named =>
    obtain ⟨sup, address⟩ := named
    refine .fewer (.bind (V := fun t' m' => t' = .read sup address ∧ m' = m) ?_ hrest)
      fun t' m' h => ?_
    · refine .fewer (.bind (W := fun _ _ _ _ => False) (.call .superclass) fun v m₁ hv => ?_)
        fun t' m' h => .inl h
      cases v with
      | classRef c => exact .result _
      | _ => exact .act (.notClass hv)
    · cases h
      exact .inl ⟨rfl, rfl⟩

theorem execute_made (s : Stmt Address) (m : Machine) :
    Made rules n (.execute s) m m (execute rules (n + 1) s) (Calls rules n (.execute s) m) := by
  cases s
  case classDecl name superclass methods => exact classDecl_made name superclass methods m
  all_goals simp only [execute]
  case expr e =>
    refine .fewer (.bind (.call .expr) fun _ _ _ => .result _) fun t' m' h => ?_
    cases h
    exact .inl ⟨rfl, rfl⟩
  case print keyword value =>
    refine .fewer (.bind (.call .print) fun v m₁ hv => .bind (.act (.print hv)) fun _ _ _ =>
      .result _) fun t' m' h => ?_
    cases h
    exact .inl ⟨rfl, rfl⟩
  case varDecl name initial =>
    refine .fewer (.bind (.call .varDecl) fun v m₁ hv => .bind (.act (.define hv)) fun _ _ _ =>
      .result _) fun t' m' h => ?_
    cases h
    exact .inl ⟨rfl, rfl⟩
  case block brace body =>
    refine .fewer (.inNewScope (.call .block)) fun t' m' h => ?_
    cases h
    exact ⟨rfl, rfl⟩
  case branch keyword cond yes no =>
    refine .fewer (.bind (.call .branch) fun c m₁ hc =>
      .choice (fun htruthy => .call (.branchYes hc htruthy))
        fun htruthy => .call (.branchNo hc htruthy)) fun t' m' h => ?_
    cases h with
    | branch => exact .inl ⟨rfl, rfl⟩
    | branchYes hc htruthy => exact .inr ⟨_, _, hc, .inl ⟨htruthy, rfl, rfl⟩⟩
    | branchNo hc htruthy => exact .inr ⟨_, _, hc, .inr ⟨htruthy, rfl, rfl⟩⟩
  case loop keyword cond body =>
    refine .fewer (.call .loop) fun t' m' h => ?_
    cases h
    exact ⟨rfl, rfl⟩
  case forLoop keyword initial cond step body =>
    cases initial with
    | none =>
      refine .fewer (.call .forLoop) fun t' m' h => ?_
      cases h
      exact ⟨rfl, rfl⟩
    | some initial =>
      refine .fewer (.inNewScope (.bind (.call .forInitial) fun c m₁ hc => .call (.forAfter hc)))
        fun t' m' h => ?_
      cases h with
      | forInitial => exact .inl ⟨rfl, rfl⟩
      | forAfter hc => exact .inr ⟨_, _, hc, rfl, rfl⟩
  case function decl =>
    refine .fewer (.bind (.act .declareFunction) fun _ _ _ => .result _) fun t' m' h => ?_
    cases h
  case ret keyword value =>
    refine .fewer (.bind (.call .ret) fun _ _ _ => .result _) fun t' m' h => ?_
    cases h
    exact .inl ⟨rfl, rfl⟩

theorem executeAll_made (ss : List (Stmt Address)) (m : Machine) :
    Made rules n (.executeAll ss) m m (executeAll rules (n + 1) ss)
      (Calls rules n (.executeAll ss) m) := by
  cases ss <;> simp only [executeAll]
  case nil => exact .fewer (.result _) fun t' m' h => by cases h
  case cons s rest =>
    refine .fewer (.bind
      (W := fun c m₁ t' m' => c = .normal ∧ t' = .executeAll rest ∧ m' = m₁) (.call .firstStmt)
      fun c m₁ hc => ?_) fun t' m' h => ?_
    · cases c with
      | returning v => exact .fewer (.result _) fun t' m' h => by obtain ⟨⟨⟩, _⟩ := h
      | normal => exact .fewer (.call (.restStmts hc)) fun t' m' h => h.2
    · cases h with
      | firstStmt => exact .inl ⟨rfl, rfl⟩
      | restStmts hc => exact .inr ⟨_, _, hc, rfl, rfl, rfl⟩

theorem repeatWhile_made (cond : Expr Address) (body : Option (Stmt Address)) (m : Machine) :
    Made rules n (.repeatWhile cond body) m m (repeatWhile rules (n + 1) cond body)
      (Calls rules n (.repeatWhile cond body) m) := by
  simp only [repeatWhile]
  refine .fewer (.bind (.call .whileCond) fun c m₁ hc =>
    .choice (fun htruthy => .bind
      (W := fun c m₂ t' m' => c = .normal ∧ t' = .repeatWhile cond body ∧ m' = m₂)
      (.call (.whileBody hc htruthy)) fun c' m₂ hbody => ?_) fun _ => .result _) fun t' m' h => ?_
  · cases c' with
    | returning v => exact .fewer (.result _) fun t' m' h => by obtain ⟨⟨⟩, _⟩ := h
    | normal => exact .fewer (.call (.whileAgain hc htruthy hbody)) fun t' m' h => h.2
  · cases h with
    | whileCond => exact .inl ⟨rfl, rfl⟩
    | whileBody hc htruthy => exact .inr ⟨_, _, hc, .inl ⟨htruthy, .inl ⟨rfl, rfl⟩⟩⟩
    | whileAgain hc htruthy hbody =>
      exact .inr ⟨_, _, hc, .inl ⟨htruthy, .inr ⟨_, _, hbody, rfl, rfl, rfl⟩⟩⟩

theorem repeatFor_made (cond step : Option (Expr Address)) (body : Option (Stmt Address))
    (m : Machine) :
    Made rules n (.repeatFor cond step body) m m (repeatFor rules (n + 1) cond step body)
      (Calls rules n (.repeatFor cond step body) m) := by
  simp only [repeatFor]
  refine .fewer (.bind (.call .forCond) fun c m₁ hc =>
    .choice (fun htruthy => .bind
      (W := fun c m₂ t' m' => c = .normal ∧ (t' = .evaluateOption step ∧ m' = m₂ ∨
        ∃ v m₃, evaluateOption rules n step m₂ = .done v m₃ ∧
          t' = .repeatFor cond step body ∧ m' = m₃))
      (.call (.forBody hc htruthy)) fun c' m₂ hbody => ?_) fun _ => .result _) fun t' m' h => ?_
  · cases c' with
    | returning v => exact .fewer (.result _) fun t' m' h => by obtain ⟨⟨⟩, _⟩ := h
    | normal =>
      refine .fewer (.bind (.call (.forStep hc htruthy hbody)) fun v m₃ hstep =>
        .call (.forAgain hc htruthy hbody hstep)) fun t' m' h => h.2
  · cases h with
    | forCond => exact .inl ⟨rfl, rfl⟩
    | forBody hc htruthy => exact .inr ⟨_, _, hc, .inl ⟨htruthy, .inl ⟨rfl, rfl⟩⟩⟩
    | forStep hc htruthy hbody =>
      exact .inr ⟨_, _, hc, .inl ⟨htruthy, .inr ⟨_, _, hbody, rfl, .inl ⟨rfl, rfl⟩⟩⟩⟩
    | forAgain hc htruthy hbody hstep =>
      exact .inr ⟨_, _, hc, .inl ⟨htruthy,
        .inr ⟨_, _, hbody, rfl, .inr ⟨_, _, hstep, rfl, rfl⟩⟩⟩⟩

/-- **A task is made of what it calls and what it does itself**, and all that
it calls is on the way. -/
theorem Task.made (t : Task) (m : Machine) :
    Made rules n t m m (t.run rules (n + 1)) (Calls rules n t m) := by
  cases t with
  | evaluate e => exact evaluate_made e m
  | invoke paren callee args => exact invoke_made paren callee args m
  | execute s => exact execute_made s m
  | executeAll ss => exact executeAll_made ss m
  | repeatWhile cond body => exact repeatWhile_made cond body m
  | repeatFor cond step body => exact repeatFor_made cond step body m
  | read name address => exact .fewer (.act .read) fun t' m' h => by cases h
  | write name address v => exact .fewer (.act .write) fun t' m' h => by cases h
  | leaveCall f c => exact .fewer (.act .leave) fun t' m' h => by cases h
  | evaluateAll es =>
    cases es <;> simp only [Task.run, Eval.evaluateAll]
    case nil => exact .fewer (.result _) fun t' m' h => by cases h
    case cons e rest =>
      refine .fewer (.bind (.call .firstExpr) fun v m₁ hv => .bind (.call (.restExprs hv))
        fun _ _ _ => .result _) fun t' m' h => ?_
      cases h with
      | firstExpr => exact .inl ⟨rfl, rfl⟩
      | restExprs hv => exact .inr ⟨_, _, hv, .inl ⟨rfl, rfl⟩⟩
  | apply paren callee args =>
    simp only [Task.run, Eval.apply]
    refine .fewer (.bind (.act .checkCall) fun _ m₁ hcall => .bind (.act (.checkDepth hcall))
      fun _ m₂ hdepth => .counted (.call (.apply hcall hdepth))) fun t' m' h => ?_
    cases h with
    | apply hcall hdepth => exact .inr ⟨_, _, hcall, .inr ⟨_, _, hdepth, rfl, rfl⟩⟩
  | runFunction f args =>
    simp only [Task.run, Eval.runFunction]
    refine .fewer (.bind (.act .enter) fun s m₁ henter => .bind (.inScope (.call (.body henter)))
      fun c m₂ hbody => .call (.leave henter hbody)) fun t' m' h => ?_
    cases h with
    | body henter => exact .inr ⟨_, _, henter, .inl ⟨rfl, rfl⟩⟩
    | leave henter hbody => exact .inr ⟨_, _, henter, .inr ⟨_, _, hbody, rfl, rfl⟩⟩
  | evaluateOption e =>
    cases e <;> simp only [Task.run, Eval.evaluateOption]
    case none => exact .fewer (.result _) fun t' m' h => by cases h
    case some e =>
      refine .fewer (.call .someExpr) fun t' m' h => ?_
      cases h
      exact ⟨rfl, rfl⟩
  | executeOption s =>
    cases s <;> simp only [Task.run, Eval.executeOption]
    case none => exact .fewer (.result _) fun t' m' h => by cases h
    case some s =>
      refine .fewer (.call .someStmt) fun t' m' h => ?_
      cases h
      exact ⟨rfl, rfl⟩
  | evaluateCondition e =>
    cases e <;> simp only [Task.run, Eval.evaluateCondition]
    case none => exact .fewer (.result _) fun t' m' h => by cases h
    case some e =>
      refine .fewer (.call .someCondition) fun t' m' h => ?_
      cases h
      exact ⟨rfl, rfl⟩

/-! ## What stops a run -/

/-- Why a task gives no answer, if it gives none. -/
def Task.halt? (rules : Rules) (n : Nat) (m : Machine) (t : Task) : Option Halt :=
  (t.run rules n m).halt?

section

variable {x : Action α} {f : α → Action β}

theorem halt_first (hx : (x m).halt? = some k) : ((x >>= f) m).halt? = some k :=
  (bind_of_halt hx).1

theorem halt_second {a : α} (hx : x m = .done a m') (hf : (f a m').halt? = some k) :
    ((x >>= f) m).halt? = some k := by
  rw [bind_of_done hx]
  exact hf

@[simp]
theorem halt?_inScope (s : ScopeId) :
    (Action.inScope s x m).halt? = (x { m with active := s }).halt? :=
  Outcome.halt?_mapMachine _ _

@[simp]
theorem halt?_inNewScope : (Action.inNewScope x m).halt? = (x (entered m)).halt? :=
  Outcome.halt?_mapMachine _ _

@[simp]
theorem halt?_counted :
    (Action.counted x m).halt? = (x { m with depth := m.depth + 1 }).halt? :=
  Outcome.halt?_mapMachine _ _

end

section

variable {x : Action α} {V : Task → Machine → Prop} {m'' : Machine}

/-- What stops a task on the way stops the action. -/
theorem Made.halt? (h : Made rules n t m m' x V) (hvisited : V t' m'')
    (hhalt : t'.halt? rules n m'' = some k) : (x m').halt? = some k := by
  induction h with
  | result a => exact hvisited.elim
  | act hacts => exact hvisited.elim
  | call hcall =>
    obtain ⟨rfl, rfl⟩ := hvisited
    exact hhalt
  | bind _ _ ihx ihf =>
    rcases hvisited with hvisited | ⟨a, m₁, hdone, hvisited⟩
    · exact halt_first (ihx hvisited)
    · exact halt_second hdone (ihf a m₁ hdone hvisited)
  | choice _ _ ihyes ihno =>
    rcases hvisited with ⟨rfl, hvisited⟩ | ⟨rfl, hvisited⟩
    · exact ihyes rfl hvisited
    · exact ihno rfl hvisited
  | inScope _ ih =>
    rw [halt?_inScope]
    exact ih hvisited
  | inNewScope _ ih =>
    rw [halt?_inNewScope]
    exact ih hvisited
  | counted _ ih =>
    rw [halt?_counted]
    exact ih hvisited
  | fewer _ hfewer ih => exact ih (hfewer _ _ hvisited)

/-- **What stops a task stops the task that called it.** -/
theorem Calls.halt? (hcall : Calls rules n t m t' m') (hhalt : t'.halt? rules n m' = some k) :
    t.halt? rules (n + 1) m = some k :=
  (t.made m).halt? hcall hhalt

/-- A task that is called is stopped by something. -/
def CalleeHalts (rules : Rules) (n : Nat) (t : Task) (m : Machine) (k : Halt) : Prop :=
  ∃ t' m', Calls rules n t m t' m' ∧ t'.halt? rules n m' = some k

/-- Something that the task does itself is stopped. -/
def ActHalts (rules : Rules) (n : Nat) (t : Task) (m : Machine) (k : Halt) : Prop :=
  ∃ (m' : Machine) (α : Type) (y : Action α), Acts rules n t m m' y ∧ (y m').halt? = some k

theorem Made.act_or_callee (h : Made rules n t m m' x V) (hhalt : (x m').halt? = some k) :
    ActHalts rules n t m k ∨ CalleeHalts rules n t m k := by
  induction h with
  | result a => cases hhalt
  | act hacts => exact .inl ⟨_, _, _, hacts, hhalt⟩
  | call hcall => exact .inr ⟨_, _, hcall, hhalt⟩
  | bind _ _ ihx ihf =>
    rcases halt?_bind hhalt with hfirst | ⟨a, m₁, hdone, hrest⟩
    · exact ihx hfirst
    · exact ihf a m₁ hdone hrest
  | @choice m' α c x y V W _ _ ihyes ihno =>
    cases c with
    | true => exact ihyes rfl hhalt
    | false => exact ihno rfl hhalt
  | inScope _ ih => exact ih ((halt?_inScope _).symm.trans hhalt)
  | inNewScope _ ih => exact ih (halt?_inNewScope.symm.trans hhalt)
  | counted _ ih => exact ih (halt?_counted.symm.trans hhalt)
  | fewer _ _ ih => exact ih hhalt

/-- **What stops a task is something it does itself or something it calls.** -/
theorem Task.act_or_callee (hhalt : t.halt? rules (n + 1) m = some k) :
    ActHalts rules n t m k ∨ CalleeHalts rules n t m k :=
  (t.made m).act_or_callee hhalt

end

/-! ## The way to a moment -/

/-- A call is checked without a change to the machine. -/
theorem arity?_of_checkCall {paren : Token} {callee : Value} {given : Nat} {u : Unit}
    (h : checkCall paren callee given m = .done u m') :
    m' = m ∧ m.heap.arity? callee = some given := by
  unfold checkCall at h
  split at h
  · cases h
  · rename_i expected hexpected
    split at h
    · rename_i hgiven
      cases h
      exact ⟨rfl, by rw [hexpected, hgiven]⟩
    · cases h

section

variable {bound : Nat} {p : Program Address}

/-- A task that is reached is the first one, or one that is reached calls
it. -/
theorem Reaches.last (h : Reaches rules n t m t' m') :
    t' = t ∧ m' = m ∨ ∃ n' t₁ m₁, Reaches rules n t m t₁ m₁ ∧ Calls rules n' t₁ m₁ t' m' := by
  induction h with
  | here => exact .inl ⟨rfl, rfl⟩
  | call hcall _ ih =>
    refine .inr ?_
    rcases ih with ⟨rfl, rfl⟩ | ⟨n', t₁, m₁, hreach, hlast⟩
    · exact ⟨_, _, _, .here, hcall⟩
    · exact ⟨n', t₁, m₁, .call hcall hreach, hlast⟩

theorem During.last (h : During rules bound p m t m') :
    (∃ s, t = .execute s) ∨
      ∃ n' t₁ m₁, During rules bound p m t₁ m₁ ∧ Calls rules n' t₁ m₁ t m' := by
  induction h with
  | first hreach =>
    rcases hreach.last with ⟨rfl, rfl⟩ | ⟨n', t₁, m₁, hreach', hlast⟩
    · exact .inl ⟨_, rfl⟩
    · exact .inr ⟨n', t₁, m₁, .first hreach', hlast⟩
  | next hdone _ ih =>
    refine ih.imp_right ?_
    rintro ⟨n', t₁, m₁, hduring, hlast⟩
    exact ⟨n', t₁, m₁, .next hdone hduring, hlast⟩

/-- **What stops a run is something that a task does itself**, one that the
run reaches, unless it is the bound. -/
theorem exists_act_of_halt (hk : k ≠ .exhausted) (hhalt : t.halt? rules n m = some k) :
    ∃ n' t' m', Reaches rules n t m t' m' ∧ ActHalts rules n' t' m' k := by
  induction n generalizing t m with
  | zero =>
    -- with no bound left nothing is called, but a name may be used
    cases t
    case read name address => exact ⟨0, _, m, .here, m, _, _, .read, hhalt⟩
    case write name address v => exact ⟨0, _, m, .here, m, _, _, .write, hhalt⟩
    case leaveCall f c => cases hhalt
    all_goals exact absurd (Option.some.inj hhalt).symm hk
  | succ n ih =>
    rcases Task.act_or_callee hhalt with hact | ⟨t', m', hcall, hhalt'⟩
    · exact ⟨n, t, m, .here, hact⟩
    · obtain ⟨n', t'', m'', hreach, hact⟩ := ih hhalt'
      exact ⟨n', t'', m'', .call hcall hreach, hact⟩

theorem exists_act_of_interpret_halt (hk : k ≠ .exhausted)
    (hhalt : (interpret rules bound p m).halt? = some k) :
    ∃ n' t m', During rules bound p m t m' ∧ ActHalts rules n' t m' k := by
  induction p generalizing m with
  | nil => cases hhalt
  | cons s rest ih =>
    rcases halt?_bind (f := fun _ => interpret rules bound rest) hhalt with
      hfirst | ⟨c, m₁, hdone, hrest⟩
    · obtain ⟨n', t, m', hreach, hact⟩ := exists_act_of_halt (t := .execute s) hk hfirst
      exact ⟨n', t, m', .first hreach, hact⟩
    · obtain ⟨n', t, m', hduring, hact⟩ := ih hrest
      exact ⟨n', t, m', .next hdone hduring, hact⟩

/-- **What stops a task that is reached stops the run**, unless the bound
does. -/
theorem Reaches.halt? (hreach : Reaches rules n t m t' m')
    (h : ∀ n, t'.halt? rules n m' = some k ∨ t'.halt? rules n m' = some .exhausted) :
    t.halt? rules n m = some k ∨ t.halt? rules n m = some .exhausted := by
  induction hreach with
  | here => exact h _
  | call hcall _ ih => exact (ih h).imp hcall.halt? hcall.halt?

theorem During.halt? (hduring : During rules bound p m t m')
    (h : ∀ n, t.halt? rules n m' = some k ∨ t.halt? rules n m' = some .exhausted) :
    (interpret rules bound p m).halt? = some k ∨
      (interpret rules bound p m).halt? = some .exhausted := by
  induction hduring with
  | @first s rest m t m' hreach =>
    exact (hreach.halt? h).imp (halt_first (f := fun _ => interpret rules bound rest))
      (halt_first (f := fun _ => interpret rules bound rest))
  | @next s rest m c m₁ t m' hdone _ ih =>
    exact (ih h).imp (halt_second (f := fun _ => interpret rules bound rest) hdone)
      (halt_second (f := fun _ => interpret rules bound rest) hdone)

end

end Eval

end TanLang
