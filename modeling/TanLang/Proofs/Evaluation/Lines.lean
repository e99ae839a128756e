import TanLang.Session
import TanLang.Proofs.Heap.Lines
/-!
# Evaluation — the same code on other lines

A run never looks at the lines of the code or at what was printed before.
With the code on other lines, in the program as in the heap, and with more
printed before it, **a run does the same**: it ends in the same way, prints
the same, and leaves the same heap but for the lines. Only the token of a
runtime error shows the difference.
-/

namespace TanLang

section

variable (f : Int → Int) (earlier : List Text)

/-- The error at a token on another line. -/
def RuntimeError.reline (e : RuntimeError) : RuntimeError := ⟨e.fault, e.token.reline f⟩

/-- The machine with its code on other lines, and with more printed before. -/
def Machine.moved (m : Machine) : Machine :=
  { m with heap := m.heap.reline f, printed := m.printed ++ earlier }

/-- The outcome with its code on other lines, and with more printed before. -/
def Outcome.moved {α β : Type} (move : α → β) : Outcome α → Outcome β
  | .done a m => .done (move a) (m.moved f earlier)
  | .raised e m => .raised (e.reline f) (m.moved f earlier)
  | .crashed m => .crashed (m.moved f earlier)
  | .exhausted m => .exhausted (m.moved f earlier)

end

namespace Eval

variable {α β γ δ : Type} {f : Int → Int} {earlier : List Text}

/-- **An action does on other lines what another one does.** -/
def Echoes (f : Int → Int) (earlier : List Text) (move : α → β) (x : Action α) (x' : Action β) :
    Prop :=
  ∀ m, x' (m.moved f earlier) = (x m).moved f earlier move

namespace Echoes

variable {move : α → β} {move' : γ → δ} {x : Action α} {x' : Action β}

theorem pure (move : α → β) (a : α) : Echoes f earlier move (Pure.pure a) (Pure.pure (move a)) :=
  fun _ => rfl

/-- One action after another. -/
theorem bind {k : α → Action γ} {k' : β → Action δ} (hx : Echoes f earlier move x x')
    (hk : ∀ a, Echoes f earlier move' (k a) (k' (move a))) :
    Echoes f earlier move' (x >>= k) (x' >>= k') := by
  intro m
  change Action.andThen x' k' (m.moved f earlier) = (Action.andThen x k m).moved f earlier move'
  unfold Action.andThen
  rw [hx m]
  cases x m with
  | done a m' => exact hk a m'
  | raised e m' => rfl
  | crashed m' => rfl
  | exhausted m' => rfl

theorem stop : Echoes f earlier move Action.stop Action.stop := fun _ => rfl

theorem raise (t : Token) (fault : Fault) :
    Echoes f earlier move (Action.raise t fault) (Action.raise (t.reline f) fault) := fun _ => rfl

theorem liftFault (t : Token) (r : Except Fault α) :
    Echoes f earlier id (Action.liftFault t r) (Action.liftFault (t.reline f) r) := by
  cases r with
  | ok a => exact pure id a
  | error fault => exact raise t fault

theorem inScope (s : ScopeId) (hx : Echoes f earlier move x x') :
    Echoes f earlier move (Action.inScope s x) (Action.inScope s x') := by
  intro m
  have hinner : x' { m.moved f earlier with active := s } =
      (x { m with active := s }).moved f earlier move := hx { m with active := s }
  simp only [Action.inScope, hinner]
  cases x { m with active := s } <;> rfl

theorem inNewScope (hx : Echoes f earlier move x x') :
    Echoes f earlier move (Action.inNewScope x) (Action.inNewScope x') := fun m =>
  hx.inScope (m.heap.newScope (some m.active)).2
    { m with heap := (m.heap.newScope (some m.active)).1 }

theorem counted (hx : Echoes f earlier move x x') :
    Echoes f earlier move (Action.counted x) (Action.counted x') := by
  intro m
  have hinner : x' { m.moved f earlier with depth := m.depth + 1 } =
      (x { m with depth := m.depth + 1 }).moved f earlier move := hx { m with depth := m.depth + 1 }
  unfold Action.counted
  rw [show (m.moved f earlier).depth = m.depth from rfl, hinner]
  cases x { m with depth := m.depth + 1 } <;> rfl

theorem print (v : Value) : Echoes f earlier id (Action.print v) (Action.print v) := by
  intro m
  -- the last line printed comes first, so what was printed before stays behind it
  simp only [Action.print, Machine.moved, Heap.text_reline, Outcome.moved, List.cons_append, id]

theorem define (x : Text) (v : Value) :
    Echoes f earlier id (Action.define x v) (Action.define x v) := fun _ => rfl

end Echoes

/-! ## Uses of names -/

theorem place_moved (rules : Rules) (m : Machine) (x : Text) (address : Address) :
    (m.moved f earlier).place rules x address = m.place rules x address := by
  unfold Machine.place Machine.place.held
  simp only [Machine.moved, Heap.holder_reline, Heap.ancestor_reline]

theorem read_echoes (rules : Rules) (name : Token) (address : Address) :
    Echoes f earlier id (Action.read rules name address)
      (Action.read rules (name.reline f) address) := by
  intro m
  simp only [Action.read, Token.reline_lexeme, place_moved]
  cases m.place rules name.lexeme address <;> rfl

theorem write_echoes (rules : Rules) (name : Token) (address : Address) (v : Value) :
    Echoes f earlier id (Action.write rules name address v)
      (Action.write rules (name.reline f) address v) := by
  intro m
  simp only [Action.write, Token.reline_lexeme, place_moved]
  cases m.place rules name.lexeme address <;> rfl

/-! ## The other actions -/

theorem expectInstance_echoes (t : Token) (fault : Fault) (v : Value) :
    Echoes f earlier id (expectInstance t fault v) (expectInstance (t.reline f) fault v) := by
  cases v <;> exact fun _ => rfl

theorem readProperty_echoes (i : InstanceId) (name : Token) :
    Echoes f earlier id (readProperty i name) (readProperty i (name.reline f)) := by
  intro m
  have hproperty : (m.moved f earlier).heap.property? i name.lexeme =
      (m.heap.property? i name.lexeme).map (Property.reline f) := Heap.property?_reline f m.heap i _
  simp only [readProperty, Token.reline_lexeme, hproperty]
  cases m.heap.property? i name.lexeme with
  | none => rfl
  | some p =>
    have hfetch : (m.moved f earlier).heap.fetch i (p.reline f) =
        ((m.heap.fetch i p).1.reline f, (m.heap.fetch i p).2) := Heap.fetch_reline f m.heap i p
    simp only [Option.map_some, hfetch]
    rfl

theorem writeField_echoes (i : InstanceId) (name : Token) (v : Value) :
    Echoes f earlier id (writeField i name v) (writeField i (name.reline f) v) := fun _ => rfl

theorem declareFunction_echoes (decl : Routine (Stmt Address)) :
    Echoes f earlier id (declareFunction decl) (declareFunction (Stmt.relineRoutine f decl)) := by
  intro m
  have hnew : (m.moved f earlier).heap.newFunction ⟨Stmt.relineRoutine f decl, m.active, false⟩ =
      ((m.heap.newFunction ⟨decl, m.active, false⟩).1.reline f,
        (m.heap.newFunction ⟨decl, m.active, false⟩).2) :=
    Heap.newFunction_reline f m.heap ⟨decl, m.active, false⟩
  unfold declareFunction
  rw [Stmt.name_relineRoutine, show (m.moved f earlier).active = m.active from rfl, hnew]
  rfl

theorem methodTable_reline (scope : ScopeId) (methods : List (Routine (Stmt Address))) :
    methodTable scope (Stmt.relineMethods f methods) =
      (methodTable scope methods).map (Function.reline f) := by
  have hfold : ∀ (methods : List (Routine (Stmt Address))) (table : Table Function),
      (Stmt.relineMethods f methods).foldl (fun table decl =>
        table.insert decl.name.lexeme ⟨decl, scope, decl.name.lexeme == initName⟩)
        (table.map (Function.reline f)) =
      (methods.foldl (fun table decl =>
        table.insert decl.name.lexeme ⟨decl, scope, decl.name.lexeme == initName⟩)
        table).map (Function.reline f) := by
    intro methods
    induction methods with
    | nil => exact fun _ => rfl
    | cons decl rest ih =>
      intro table
      simp only [Stmt.relineMethods, List.foldl_cons]
      rw [← ih, Table.map_insert, Stmt.name_relineRoutine]
      rfl
  exact hfold methods .empty

theorem declareClass_echoes (name : Token) (superclass : Option ClassId)
    (methods : List (Routine (Stmt Address))) :
    Echoes f earlier id (declareClass name superclass methods)
      (declareClass (name.reline f) superclass (Stmt.relineMethods f methods)) := by
  intro m
  let heap := m.heap.define m.active name.lexeme .nil
  let cls : Class := ⟨name.lexeme, superclass, methodTable m.active methods⟩
  have hnew : (heap.reline f).newClass ⟨name.lexeme, superclass,
        (methodTable m.active methods).map (Function.reline f)⟩ =
      ((heap.newClass cls).1.reline f, (heap.newClass cls).2) := Heap.newClass_reline f heap cls
  have hdefined : (m.moved f earlier).heap.define m.active name.lexeme .nil = heap.reline f := rfl
  unfold declareClass
  simp only [Token.reline_lexeme, methodTable_reline]
  rw [show (m.moved f earlier).active = m.active from rfl, hdefined, hnew]
  simp only [Heap.holder_reline]
  cases (heap.newClass cls).1.holder m.active name.lexeme <;> rfl

theorem readSuperclass_echoes (rules : Rules) (superclass : Option (Token × Address)) :
    Echoes f earlier id (readSuperclass rules superclass)
      (readSuperclass rules (superclass.map fun s => (s.1.reline f, s.2))) := by
  cases superclass with
  | none => exact .pure id none
  | some named =>
    refine (read_echoes rules named.1 named.2).bind fun v => ?_
    cases v <;> exact fun _ => rfl

theorem checkCall_echoes (paren : Token) (callee : Value) (given : Nat) :
    Echoes f earlier id (checkCall paren callee given)
      (checkCall (paren.reline f) callee given) := by
  intro m
  have harity : (m.moved f earlier).heap.arity? callee = m.heap.arity? callee :=
    Heap.arity?_reline f m.heap callee
  simp only [checkCall, harity]
  cases m.heap.arity? callee with
  | none => rfl
  | some expected =>
    simp only
    split <;> rfl

theorem checkDepth_echoes (rules : Rules) (paren : Token) :
    Echoes f earlier id (checkDepth rules paren) (checkDepth rules (paren.reline f)) := by
  intro m
  simp only [checkDepth, show (m.moved f earlier).depth = m.depth from rfl]
  split <;> rfl

theorem callNative_echoes (rules : Rules) (paren : Token) (i : NativeId) (args : List Value) :
    Echoes f earlier id (callNative rules paren i args)
      (callNative rules (paren.reline f) i args) := by
  intro m
  have hargs : args.map (m.moved f earlier).heap.argument = args.map m.heap.argument :=
    List.map_congr_left fun v _ => Heap.argument_reline f m.heap v
  simp only [callNative, hargs, show (m.moved f earlier).heap.native? i = m.heap.native? i from rfl,
    show (m.moved f earlier).world rules = m.world rules from rfl]
  cases m.heap.native? i with
  | none => rfl
  | some native =>
    simp only
    cases native.run (m.world rules) (args.map m.heap.argument) <;> rfl

theorem instantiate_echoes (c : ClassId) :
    Echoes f earlier (fun made => (made.1, made.2.map (Function.reline f))) (instantiate c)
      (instantiate c) := by
  intro m
  have hnew : (m.moved f earlier).heap.newInstance c =
      ((m.heap.newInstance c).1.reline f, (m.heap.newInstance c).2) := rfl
  simp only [instantiate, hnew, Heap.method?_reline]
  cases (m.heap.newInstance c).1.method? c initName with
  | none => rfl
  | some method => rfl

theorem fetchFunction_echoes (i : FunctionId) :
    Echoes f earlier (Function.reline f) (fetchFunction i) (fetchFunction i) := by
  intro m
  have hfunction : (m.moved f earlier).heap.function? i =
      (m.heap.function? i).map (Function.reline f) := Heap.function?_reline f m.heap i
  simp only [fetchFunction, hfunction]
  cases m.heap.function? i <;> rfl

theorem enterCall_echoes (fn : Function) (args : List Value) :
    Echoes f earlier id (enterCall fn args) (enterCall (fn.reline f) args) := by
  intro m
  have henter : (m.moved f earlier).heap.enter (fn.reline f) args =
      ((m.heap.enter fn args).1.reline f, (m.heap.enter fn args).2) :=
    Heap.enter_reline f m.heap fn args
  simp only [enterCall, henter, Function.reline_params, List.length_map]
  split <;> rfl

theorem leaveCall_echoes (fn : Function) (c : Completion) :
    Echoes f earlier id (leaveCall fn c) (leaveCall (fn.reline f) c) := fun _ => rfl

/-! ## Running code -/

section

variable (rules : Rules) (f : Int → Int) (earlier : List Text)

/-- **What is run within a bound is the same on other lines.** -/
structure Alike (n : Nat) : Prop where
  evaluate : ∀ e, Echoes f earlier id (evaluate rules n e) (evaluate rules n (e.reline f))
  evaluateAll : ∀ es, Echoes f earlier id (evaluateAll rules n es)
    (evaluateAll rules n (Expr.relineAll f es))
  apply : ∀ paren callee args, Echoes f earlier id (apply rules n paren callee args)
    (apply rules n (paren.reline f) callee args)
  invoke : ∀ paren callee args, Echoes f earlier id (invoke rules n paren callee args)
    (invoke rules n (paren.reline f) callee args)
  runFunction : ∀ fn args, Echoes f earlier id (runFunction rules n fn args)
    (runFunction rules n (fn.reline f) args)
  execute : ∀ s, Echoes f earlier id (execute rules n s) (execute rules n (s.reline f))
  evaluateOption : ∀ e, Echoes f earlier id (evaluateOption rules n e)
    (evaluateOption rules n (e.map (Expr.reline f)))
  executeOption : ∀ s, Echoes f earlier id (executeOption rules n s)
    (executeOption rules n (Stmt.relineOption f s))
  executeAll : ∀ ss, Echoes f earlier id (executeAll rules n ss)
    (executeAll rules n (Stmt.relineAll f ss))
  repeatWhile : ∀ cond body, Echoes f earlier id (repeatWhile rules n cond body)
    (repeatWhile rules n (cond.reline f) (Stmt.relineOption f body))
  repeatFor : ∀ cond step body, Echoes f earlier id (repeatFor rules n cond step body)
    (repeatFor rules n (cond.map (Expr.reline f)) (step.map (Expr.reline f))
      (Stmt.relineOption f body))
  evaluateCondition : ∀ e, Echoes f earlier id (evaluateCondition rules n e)
    (evaluateCondition rules n (e.map (Expr.reline f)))

end

section

variable {rules : Rules} {n : Nat} (ih : Alike rules f earlier n)

include ih

theorem evaluate_echoes (e : Expr Address) :
    Echoes f earlier id (evaluate rules (n + 1) e) (evaluate rules (n + 1) (e.reline f)) := by
  cases e <;> simp only [Expr.reline, evaluate]
  case literal token value => exact .pure id _
  case grouping paren inner => exact ih.evaluate inner
  case unary op operand => exact (ih.evaluate operand).bind fun v => .liftFault op _
  case binary left op right =>
    refine (ih.evaluate left).bind fun l => ?_
    exact (ih.evaluate right).bind fun r => .liftFault op _
  case ternary cond mark yes no =>
    refine (ih.evaluate cond).bind fun c => ?_
    cases hc : c.truthy with
    | true => simpa only [id, hc, if_true] using ih.evaluate yes
    | false => simpa only [id, hc, Bool.false_eq_true, if_false] using ih.evaluate no
  case logical left op right =>
    refine (ih.evaluate left).bind fun l => ?_
    have hdecides : l.decides (op.reline f) = l.decides op := rfl
    cases hl : l.decides op with
    | true => simpa only [id, hdecides, hl, if_true] using Echoes.pure id l
    | false =>
      simpa only [id, hdecides, hl, Bool.false_eq_true, if_false] using ih.evaluate right
  case var name address => exact read_echoes rules name address
  case receiver keyword address => exact read_echoes rules keyword address
  case assign name address value =>
    refine (ih.evaluate value).bind fun v => ?_
    exact (write_echoes rules name address v).bind fun _ => .pure id v
  case call callee paren args =>
    refine (ih.evaluate callee).bind fun c => ?_
    exact (ih.evaluateAll args).bind fun vs => ih.apply paren c vs
  case get object name =>
    refine (ih.evaluate object).bind fun o => ?_
    exact (expectInstance_echoes name _ o).bind fun i => readProperty_echoes i name
  case set object name value =>
    refine (ih.evaluate object).bind fun o => ?_
    refine (expectInstance_echoes name _ o).bind fun i => ?_
    refine (ih.evaluate value).bind fun v => ?_
    exact (writeField_echoes i name v).bind fun _ => .pure id v

theorem evaluateAll_echoes (es : List (Expr Address)) :
    Echoes f earlier id (evaluateAll rules (n + 1) es)
      (evaluateAll rules (n + 1) (Expr.relineAll f es)) := by
  cases es <;> simp only [Expr.relineAll, evaluateAll]
  case nil => exact .pure id []
  case cons e rest =>
    refine (ih.evaluate e).bind fun v => ?_
    exact (ih.evaluateAll rest).bind fun vs => .pure id (v :: vs)

theorem apply_echoes (paren : Token) (callee : Value) (args : List Value) :
    Echoes f earlier id (apply rules (n + 1) paren callee args)
      (apply rules (n + 1) (paren.reline f) callee args) := by
  simp only [apply]
  refine (checkCall_echoes paren callee args.length).bind fun _ => ?_
  exact (checkDepth_echoes rules paren).bind fun _ => (ih.invoke paren callee args).counted

theorem invoke_echoes (paren : Token) (callee : Value) (args : List Value) :
    Echoes f earlier id (invoke rules (n + 1) paren callee args)
      (invoke rules (n + 1) (paren.reline f) callee args) := by
  cases callee <;> simp only [invoke]
  case function i => exact (fetchFunction_echoes i).bind fun fn => ih.runFunction fn args
  case native i => exact callNative_echoes rules paren i args
  case classRef c =>
    refine (instantiate_echoes c).bind fun made => ?_
    obtain ⟨i, init⟩ := made
    cases init with
    | none => exact .pure id _
    | some init => exact (ih.runFunction init args).bind fun _ => .pure id _
  all_goals exact .raise paren _

theorem runFunction_echoes (fn : Function) (args : List Value) :
    Echoes f earlier id (runFunction rules (n + 1) fn args)
      (runFunction rules (n + 1) (fn.reline f) args) := by
  simp only [runFunction, Function.reline_body]
  refine (enterCall_echoes fn args).bind fun s => ?_
  exact ((ih.executeAll fn.decl.body).inScope s).bind fun c => leaveCall_echoes fn c

theorem execute_echoes (s : Stmt Address) :
    Echoes f earlier id (execute rules (n + 1) s) (execute rules (n + 1) (s.reline f)) := by
  cases s <;> simp only [Stmt.reline, execute]
  case expr e => exact (ih.evaluate e).bind fun _ => .pure id _
  case print keyword value =>
    refine (ih.evaluate value).bind fun v => ?_
    exact (Echoes.print v).bind fun _ => .pure id _
  case varDecl name initial =>
    refine (ih.evaluateOption initial).bind fun v => ?_
    exact (Echoes.define name.lexeme v).bind fun _ => .pure id _
  case block brace body => exact (ih.executeAll body).inNewScope
  case branch keyword cond yes no =>
    refine (ih.evaluate cond).bind fun c => ?_
    cases hc : c.truthy with
    | true => simpa only [id, hc, if_true] using ih.execute yes
    | false => simpa only [id, hc, Bool.false_eq_true, if_false] using ih.executeOption no
  case loop keyword cond body => exact ih.repeatWhile cond body
  case forLoop keyword initial cond step body =>
    cases initial with
    | none => exact ih.repeatFor cond step body
    | some initial =>
      exact Echoes.inNewScope ((ih.execute initial).bind fun _ => ih.repeatFor cond step body)
  case function decl => exact (declareFunction_echoes decl).bind fun _ => .pure id _
  case ret keyword value =>
    exact (ih.evaluateOption value).bind fun v => .pure id _
  case classDecl name superclass methods =>
    refine (readSuperclass_echoes rules superclass).bind fun c => ?_
    exact (declareClass_echoes name c methods).bind fun _ => .pure id _

theorem executeAll_echoes (ss : List (Stmt Address)) :
    Echoes f earlier id (executeAll rules (n + 1) ss)
      (executeAll rules (n + 1) (Stmt.relineAll f ss)) := by
  cases ss <;> simp only [Stmt.relineAll, executeAll]
  case nil => exact .pure id _
  case cons s rest =>
    refine (ih.execute s).bind fun c => ?_
    cases c with
    | returning v => exact .pure id _
    | normal => exact ih.executeAll rest

theorem repeatWhile_echoes (cond : Expr Address) (body : Option (Stmt Address)) :
    Echoes f earlier id (repeatWhile rules (n + 1) cond body)
      (repeatWhile rules (n + 1) (cond.reline f) (Stmt.relineOption f body)) := by
  simp only [repeatWhile]
  refine (ih.evaluate cond).bind fun v => ?_
  cases hv : v.truthy with
  | false =>
    simpa only [id, hv, Bool.false_eq_true, if_false] using Echoes.pure id Completion.normal
  | true =>
    simp only [id, hv, if_true]
    refine (ih.executeOption body).bind fun c => ?_
    cases c with
    | returning v => exact .pure id _
    | normal => exact ih.repeatWhile cond body

theorem repeatFor_echoes (cond step : Option (Expr Address)) (body : Option (Stmt Address)) :
    Echoes f earlier id (repeatFor rules (n + 1) cond step body)
      (repeatFor rules (n + 1) (cond.map (Expr.reline f)) (step.map (Expr.reline f))
        (Stmt.relineOption f body)) := by
  simp only [repeatFor]
  refine (ih.evaluateCondition cond).bind fun v => ?_
  cases hv : v.truthy with
  | false =>
    simpa only [id, hv, Bool.false_eq_true, if_false] using Echoes.pure id Completion.normal
  | true =>
    simp only [id, hv, if_true]
    refine (ih.executeOption body).bind fun c => ?_
    cases c with
    | returning v => exact .pure id _
    | normal => exact (ih.evaluateOption step).bind fun _ => ih.repeatFor cond step body

end

/-- **Running code does the same on other lines**, whatever the bound. -/
theorem alike (rules : Rules) (f : Int → Int) (earlier : List Text) :
    ∀ n, Alike rules f earlier n
  | 0 =>
    { evaluate := fun _ => .stop
      evaluateAll := fun _ => .stop
      apply := fun _ _ _ => .stop
      invoke := fun _ _ _ => .stop
      runFunction := fun _ _ => .stop
      execute := fun _ => .stop
      evaluateOption := fun _ => .stop
      executeOption := fun _ => .stop
      executeAll := fun _ => .stop
      repeatWhile := fun _ _ => .stop
      repeatFor := fun _ _ _ => .stop
      evaluateCondition := fun _ => .stop }
  | n + 1 =>
    have ih := alike rules f earlier n
    { evaluate := evaluate_echoes ih
      evaluateAll := evaluateAll_echoes ih
      apply := apply_echoes ih
      invoke := invoke_echoes ih
      runFunction := runFunction_echoes ih
      execute := execute_echoes ih
      evaluateOption := fun
        | none => .pure id _
        | some e => ih.evaluate e
      executeOption := fun
        | none => .pure id _
        | some s => ih.execute s
      executeAll := executeAll_echoes ih
      repeatWhile := repeatWhile_echoes ih
      repeatFor := repeatFor_echoes ih
      evaluateCondition := fun
        | none => .pure id _
        | some e => ih.evaluate e }

/-- **A program does the same on other lines** and after other output. -/
theorem interpret_echoes (rules : Rules) (bound : Nat) (p : Program Address) :
    Echoes f earlier id (interpret rules bound p) (interpret rules bound (Stmt.relineAll f p)) := by
  induction p with
  | nil => exact .pure id ()
  | cons s rest ih => exact ((alike rules f earlier bound).execute s).bind fun _ => ih

/-- One program after another. -/
theorem interpret_append (rules : Rules) (bound : Nat) (p q : Program Address) (m : Machine) :
    interpret rules bound (p ++ q) m =
      (interpret rules bound p >>= fun _ => interpret rules bound q) m := by
  induction p generalizing m with
  | nil => rfl
  | cons s rest ih =>
    show (execute rules bound s >>= fun _ => interpret rules bound (rest ++ q)) m =
      ((execute rules bound s >>= fun _ => interpret rules bound rest) >>=
        fun _ => interpret rules bound q) m
    -- binding associates to the right only where the first action answers
    change Action.andThen _ _ m = Action.andThen (Action.andThen _ _) _ m
    unfold Action.andThen
    cases execute rules bound s m with
    | done c m' => exact ih m'
    | raised e m' => rfl
    | crashed m' => rfl
    | exhausted m' => rfl

end Eval

end TanLang
