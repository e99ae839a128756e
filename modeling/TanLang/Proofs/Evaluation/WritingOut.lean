import TanLang.Proofs.Evaluation.Conduct
import TanLang.Proofs.Evaluation.Meeting
/-!
# Evaluation — `for` loops and `while` loops

Code with `for` loops and the same code with its loops written out are run
side by side. **Where one comes to an end the other does, too**, with the
same answer or error and the same output; the one with the loops written out
has made extra scopes on the way, and it needs more of the bound.

Names are found by their distance here. The distances differ where they lead
through an extra scope, and so they lead to scopes that are paired.
-/

namespace TanLang

open Heap (Matches Paired Widens FunctionWrittenOut ClassWrittenOut)

namespace Eval

variable {α : Type} {σ : Pairing} {layers : Layers} {m m' : Machine} {rules : Rules} {n : Nat}

/-! ## Uses of names -/

/-- **A use and its twin take place in paired scopes**, or both take place
nowhere. -/
theorem place_paired (hrules : rules.addressing = .distance) (hbeside : Beside σ m m')
    (hpaired : Paired σ m.heap m'.heap layers m.active m'.active) {x : Text} {a a' : Address}
    (ha : Option.Rel layers.Apart a a') :
    (∃ s, m.place rules x a = .scope s ∧ m'.place rules x a' = .scope (σ s) ∧
      (m.heap.scope? s).isSome = true) ∨
    (m.place rules x a = .unbound ∧ m'.place rules x a' = .unbound) := by
  simp only [Machine.place, hrules]
  cases ha with
  | none =>
    -- without a distance there is nothing but the globals
    obtain ⟨hholder, honly⟩ := hbeside.heap.holder_globals x
    simp only [Machine.place.held, hholder]
    cases hheld : m.heap.holder Machine.globals x with
    | none => exact .inr ⟨rfl, rfl⟩
    | some s =>
      obtain rfl := honly s hheld
      exact .inl ⟨_, rfl, congrArg Place.scope hbeside.heap.globals.symm,
        hbeside.heap.left.isSome⟩
  | some hd =>
    obtain ⟨t, ht, ht', hsome⟩ := hpaired.ancestor hd
    simp only [ht, ht']
    exact .inl ⟨t, rfl, rfl, hsome⟩

theorem read_pairs (hrules : rules.addressing = .distance) (name : Token) {a a' : Address}
    (ha : Option.Rel layers.Apart a a') :
    Pairs layers (Action.read rules name a) (Action.read rules name a') := by
  intro σ m m' hbeside hpaired
  unfold Action.read
  rcases place_paired hrules hbeside hpaired (x := name.lexeme) ha with
    ⟨s, hs, hs', hsome⟩ | ⟨hs, hs'⟩
  · simp only [hs, hs', hbeside.heap.boundIn hsome]
    exact .done _ (.refl hbeside)
  · simp only [hs, hs']
    exact .raised _ (.refl hbeside)

theorem write_pairs (hrules : rules.addressing = .distance) (name : Token) (v : Value)
    {a a' : Address} (ha : Option.Rel layers.Apart a a') :
    Pairs layers (Action.write rules name a v) (Action.write rules name a' v) := by
  intro σ m m' hbeside hpaired
  unfold Action.write
  rcases place_paired hrules hbeside hpaired (x := name.lexeme) ha with
    ⟨s, hs, hs', hsome⟩ | ⟨hs, hs'⟩
  · simp only [hs, hs']
    exact .done () (.of_heap hbeside (.of_keeps (.define _ _ _) (.define _ _ _))
      (hbeside.heap.define hsome name.lexeme v))
  · simp only [hs, hs']
    exact .raised _ (.refl hbeside)

/-! ## Declarations -/

/-- **A name bound in the active scope**, where something can be declared. -/
theorem define_pairs (hown : layers.Own) (x : Text) (v : Value) :
    Pairs layers (Action.define x v) (Action.define x v) := by
  intro σ m m' hbeside hpaired
  obtain ⟨hactive, hsome⟩ := hbeside.heap.eq_of_own hpaired hown
  have hdefine := hbeside.heap.define hsome x v
  rw [← hactive] at hdefine
  exact .done () (.of_heap hbeside (.of_keeps (.define _ _ _) (.define _ _ _)) hdefine)

theorem declareFunction_pairs (hown : layers.Own) {decl decl' : Routine (Stmt Address)}
    (hdecl : Stmt.WrittenOutRoutine layers decl decl') :
    Pairs layers (declareFunction decl) (declareFunction decl') := by
  intro σ m m' hbeside hpaired
  have hfn : FunctionWrittenOut σ m.heap m'.heap [] ⟨decl, m.active, false⟩
      ⟨decl', m'.active, false⟩ := ⟨⟨layers, hpaired, hown, hdecl⟩, rfl⟩
  have hmade : Widens σ m.heap m'.heap σ (m.heap.newFunction ⟨decl, m.active, false⟩).1
      (m'.heap.newFunction ⟨decl', m'.active, false⟩).1 :=
    .of_keeps (.of_scopes_eq rfl) (.of_scopes_eq rfl)
  obtain ⟨hnew, hid⟩ := hbeside.heap.newFunction hfn
  obtain ⟨hactive, hsome⟩ := hnew.eq_of_own (hpaired.widen hmade) hown
  have hdefine := hnew.define hsome decl.name.lexeme
    (.function (m.heap.newFunction ⟨decl, m.active, false⟩).2)
  rw [← hactive] at hdefine
  unfold declareFunction
  simp only [hdecl.name, hid]
  exact .done () (.of_heap hbeside (hmade.trans (.of_keeps (.define _ _ _) (.define _ _ _)))
    hdefine)

/-- The methods of a class differ by their loops, name by name. -/
theorem methodTable_writtenOut {h h' : Heap} {scope scope' : ScopeId}
    {methods methods' : List (Routine (Stmt Address))}
    (hpaired : Paired σ h h' layers scope scope') (hown : layers.Own)
    (hmethods : Stmt.WrittenOutMethods (false :: layers) methods methods') (x : Text) :
    Option.Rel (FunctionWrittenOut σ h h' [false]) ((methodTable scope methods).find? x)
      ((methodTable scope' methods').find? x) := by
  -- the tables are filled in step, so they correspond at every moment
  have hfold : ∀ (methods methods' : List (Routine (Stmt Address))) (t t' : Table Function),
      Stmt.WrittenOutMethods (false :: layers) methods methods' →
      (∀ x, Option.Rel (FunctionWrittenOut σ h h' [false]) (t.find? x) (t'.find? x)) →
      Option.Rel (FunctionWrittenOut σ h h' [false])
        ((methods.foldl (fun table decl => table.insert decl.name.lexeme
          ⟨decl, scope, decl.name.lexeme == initName⟩) t).find? x)
        ((methods'.foldl (fun table decl => table.insert decl.name.lexeme
          ⟨decl, scope', decl.name.lexeme == initName⟩) t').find? x) := by
    intro methods
    induction methods with
    | nil =>
      intro methods' t t' hmethods htables
      cases hmethods
      exact htables x
    | cons decl rest ih =>
      intro methods' t t' hmethods htables
      cases hmethods with
      | @cons _ _ decl' _ rest' hdecl hrest =>
        simp only [List.foldl_cons]
        refine ih rest' _ _ hrest fun y => ?_
        have hfn : ∀ isInit, FunctionWrittenOut σ h h' [false] ⟨decl, scope, isInit⟩
            ⟨decl', scope', isInit⟩ :=
          fun isInit => ⟨⟨layers, hpaired, hown, hdecl⟩, rfl⟩
        rw [hdecl.name]
        by_cases hy : y = decl.name.lexeme
        · subst hy
          rw [Table.find?_insert_self, Table.find?_insert_self]
          exact .some (hfn _)
        · rw [Table.find?_insert_of_ne _ _ hy, Table.find?_insert_of_ne _ _ hy]
          exact htables y
  exact hfold methods methods' .empty .empty hmethods fun _ => .none

theorem declareClass_pairs (hown : layers.Own) {name : Token} {superclass : Option ClassId}
    {methods methods' : List (Routine (Stmt Address))}
    (hmethods : Stmt.WrittenOutMethods (false :: layers) methods methods') :
    Pairs layers (declareClass name superclass methods)
      (declareClass name superclass methods') := by
  intro σ m m' hbeside hpaired
  obtain ⟨hactive, hsome⟩ := hbeside.heap.eq_of_own hpaired hown
  have hsome' : (m'.heap.scope? m'.active).isSome = true := by
    rw [hactive]
    exact hbeside.heap.isSome_right hsome
  rw [declareClass_eq hsome, declareClass_eq hsome', hbeside.heap.classCount]
  -- the name is bound, the class is made, and the name is bound to it
  have hfirst : Widens σ m.heap m'.heap σ (m.heap.define m.active name.lexeme .nil)
      (m'.heap.define m'.active name.lexeme .nil) := .of_keeps (.define _ _ _) (.define _ _ _)
  have hdefine := hbeside.heap.define hsome name.lexeme .nil
  rw [← hactive] at hdefine
  have hcls : ClassWrittenOut σ (m.heap.define m.active name.lexeme .nil)
      (m'.heap.define m'.active name.lexeme .nil)
      ⟨name.lexeme, superclass, methodTable m.active methods⟩
      ⟨name.lexeme, superclass, methodTable m'.active methods'⟩ :=
    ⟨rfl, rfl, methodTable_writtenOut (hpaired.widen hfirst) hown hmethods⟩
  have hmade : Widens σ (m.heap.define m.active name.lexeme .nil)
      (m'.heap.define m'.active name.lexeme .nil) σ
      ((m.heap.define m.active name.lexeme .nil).newClass
        ⟨name.lexeme, superclass, methodTable m.active methods⟩).1
      ((m'.heap.define m'.active name.lexeme .nil).newClass
        ⟨name.lexeme, superclass, methodTable m'.active methods'⟩).1 :=
    .of_keeps (.of_scopes_eq rfl) (.of_scopes_eq rfl)
  have hlast := (hdefine.newClass hcls).1.define
    ((hfirst.trans hmade).left.isSome hsome) name.lexeme (.classRef ⟨m.heap.classes.size⟩)
  rw [← hactive] at hlast
  exact .done () (.of_heap hbeside
    ((hfirst.trans hmade).trans (.of_keeps (.define _ _ _) (.define _ _ _))) hlast)

theorem readSuperclass_pairs (hrules : rules.addressing = .distance)
    {superclass superclass' : Option (Token × Address)}
    (h : Stmt.SuperclassVaries Layers.variation layers superclass superclass') :
    Meets layers n (fun _ => readSuperclass rules superclass)
      (fun _ => readSuperclass rules superclass') := by
  cases h with
  | none => exact .pure none
  | some huse =>
    obtain ⟨rfl, ha⟩ := huse
    refine (Meets.of_pairs (read_pairs hrules _ ha)).bind fun v => ?_
    cases v with
    | classRef c => exact .pure (some c)
    | _ => exact .raise _ _

/-! ## Objects and calls -/

theorem print_pairs (v : Value) : Pairs layers (Action.print v) (Action.print v) := by
  intro σ m m' hbeside _
  refine .done () ⟨.refl _ _ _, ⟨hbeside.heap, hbeside.depth, ?_⟩, rfl, rfl⟩
  simp only [hbeside.heap.text v, hbeside.printed]

theorem expectInstance_meets (token : Token) (fault : Fault) (v : Value) :
    Meets layers n (fun _ => expectInstance token fault v)
      (fun _ => expectInstance token fault v) := by
  cases v with
  | instanceRef i => exact .pure i
  | _ => exact .raise token fault

/-- A method that is fetched is bound on both sides. -/
theorem readProperty_pairs (i : InstanceId) (name : Token) :
    Pairs layers (readProperty i name) (readProperty i name) := by
  intro σ m m' hbeside _
  unfold readProperty Heap.property?
  simp only [Heap.instance?, hbeside.heap.instances]
  cases m.heap.instances[i.index]? with
  | none => exact .raised _ (.refl hbeside)
  | some inst =>
    simp only
    cases inst.fields.find? name.lexeme with
    | some v => exact .done v (.refl hbeside)
    | none =>
      simp only
      rcases eq_of_rel (hbeside.heap.method? inst.classOf name.lexeme) with
        ⟨hf, hf'⟩ | ⟨fn, fn', hf, hf', hfn⟩
      · rw [hf, hf']
        exact .raised _ (.refl hbeside)
      · simp only [hf, hf', Option.map_some]
        obtain ⟨σ₁, hwidens, hbind, hbound⟩ := hbeside.heap.bind hfn i
        obtain ⟨hnew, hid⟩ := hbind.newFunction hbound
        simp only [Heap.fetch, hid]
        exact .done _ (.of_heap hbeside
          (hwidens.trans (.of_keeps (.of_scopes_eq rfl) (.of_scopes_eq rfl))) hnew)

theorem writeField_pairs (i : InstanceId) (name : Token) (v : Value) :
    Pairs layers (writeField i name v) (writeField i name v) := by
  intro σ m m' hbeside _
  exact .done () (.of_heap hbeside (.of_keeps (.of_scopes_eq rfl) (.of_scopes_eq rfl))
    (hbeside.heap.setField i name.lexeme v))

theorem checkCall_pairs (paren : Token) (callee : Value) (given : Nat) :
    Pairs layers (checkCall paren callee given) (checkCall paren callee given) := by
  intro σ m m' hbeside _
  unfold checkCall
  rw [hbeside.heap.arity?]
  cases m.heap.arity? callee with
  | none => exact .raised _ (.refl hbeside)
  | some expected =>
    simp only
    split
    · exact .done () (.refl hbeside)
    · exact .raised _ (.refl hbeside)

theorem checkDepth_pairs (rules : Rules) (paren : Token) :
    Pairs layers (checkDepth rules paren) (checkDepth rules paren) := by
  intro σ m m' hbeside _
  unfold checkDepth
  rw [hbeside.depth]
  split
  · exact .raised _ (.refl hbeside)
  · exact .done () (.refl hbeside)

theorem callNative_pairs (rules : Rules) (paren : Token) (i : NativeId) (args : List Value) :
    Pairs layers (callNative rules paren i args) (callNative rules paren i args) := by
  intro σ m m' hbeside _
  have hargs : args.map m'.heap.argument = args.map m.heap.argument :=
    List.map_congr_left fun v _ => hbeside.heap.argument v
  have hworld : m'.world rules = m.world rules :=
    congrArg (World.mk rules.clock) hbeside.heap.registry
  simp only [callNative, Heap.native?, hbeside.heap.natives, hargs, hworld]
  cases m.heap.natives[i.index]? with
  | none => exact .crashed (.refl hbeside)
  | some native =>
    let kept := native.leaves (m.world rules) (args.map m.heap.argument)
    have hwidens : Widens σ m.heap m'.heap σ (m.heap.keep kept) (m'.heap.keep kept) :=
      .of_keeps (.of_scopes_eq rfl) (.of_scopes_eq rfl)
    have hbrought := Brought.of_heap hbeside hwidens (hbeside.heap.keep kept)
    simp only
    cases native.run (m.world rules) (args.map m.heap.argument) with
    | ok v => exact .done v hbrought
    | error message => exact .raised _ hbrought

/-! ## Loops written out

What a block or a `while` loop does on the way to its parts only takes more
of the bound. -/

section

variable (rules)

theorem steady_evaluate (e : Expr Address) : Steady fun i => evaluate rules i e :=
  fun _ _ hle => (curtailsWithin_of_le hle).evaluate e

theorem steady_execute (s : Stmt Address) : Steady fun i => execute rules i s :=
  fun _ _ hle => (curtailsWithin_of_le hle).execute s

theorem steady_executeOption (s : Option (Stmt Address)) :
    Steady fun i => executeOption rules i s :=
  fun _ _ hle => (curtailsWithin_of_le hle).executeOption s

theorem steady_executeAll (ss : List (Stmt Address)) : Steady fun i => executeAll rules i ss :=
  fun _ _ hle => (curtailsWithin_of_le hle).executeAll ss

theorem steady_repeatWhile (cond : Expr Address) (body : Option (Stmt Address)) :
    Steady fun i => repeatWhile rules i cond body :=
  fun _ _ hle => (curtailsWithin_of_le hle).repeatWhile cond body

theorem bind_bind {β γ : Type} (x : Action α) (f : α → Action β) (g : β → Action γ) :
    x >>= f >>= g = x >>= fun a => f a >>= g := by
  funext m
  change Action.andThen (Action.andThen x f) g m = Action.andThen x _ m
  unfold Action.andThen
  cases x m <;> rfl

/-- One statement after another, unless a `return` was met. -/
def unlessReturning (x : Action Completion) : Completion → Action Completion
  | .returning v => return .returning v
  | .normal => x

theorem unlessReturning_normal (x : Action Completion) :
    x >>= unlessReturning (pure .normal) = x := by
  funext m
  change Action.andThen x _ m = x m
  unfold Action.andThen
  cases x m with
  | done c k => cases c <;> rfl
  | raised e k | crashed k | exhausted k => rfl

/-- An expression evaluated for its effect. -/
def effect (n : Nat) (e : Expr Address) : Action Completion := do
  let _ ← evaluate rules n e
  return .normal

theorem steady_unlessReturning {x : Nat → Action Completion} (hx : Steady x) (c : Completion) :
    Steady fun i => unlessReturning (x i) c := by
  cases c with
  | returning v => exact .pure _
  | normal => exact hx

theorem later_unlessReturning {x x' : Nat → Action Completion} (hx : Later x' x)
    (c : Completion) :
    Later (fun i => unlessReturning (x' i) c) (fun i => unlessReturning (x i) c) := by
  cases c with
  | returning v => exact .refl (.pure _)
  | normal => exact hx

theorem steady_effect (e : Expr Address) : Steady fun i => effect rules i e :=
  (steady_evaluate rules e).bind fun _ => .pure _

theorem executeAll_cons (n : Nat) (s : Stmt Address) (rest : List (Stmt Address)) :
    executeAll rules (n + 1) (s :: rest) =
      execute rules n s >>= unlessReturning (executeAll rules n rest) := by
  rw [executeAll]
  rfl

theorem later_expr (e : Expr Address) :
    Later (fun i => execute rules i (.expr e)) (fun i => effect rules i e) :=
  .succ (steady_effect rules e) rfl fun k => by rw [execute, effect]

theorem later_loop (keyword : Token) (cond : Expr Address) (body : Option (Stmt Address)) :
    Later (fun i => execute rules i (.loop keyword cond body))
      (fun i => repeatWhile rules i cond body) :=
  .succ (steady_repeatWhile rules cond body) rfl fun k => by rw [execute]

theorem later_someStmt (s : Stmt Address) :
    Later (fun i => executeOption rules i (some s)) (fun i => execute rules i s) :=
  .succ (steady_execute rules s) rfl fun k => by rw [executeOption]

/-- One statement in a row is that statement. -/
theorem later_single (s : Stmt Address) :
    Later (fun i => executeAll rules i [s]) (fun i => execute rules i s) := by
  have hnil : Later (fun i => executeAll rules i []) (fun _ => pure .normal) :=
    .succ (.pure _) rfl fun k => by rw [executeAll]
  have hrest : Later (fun i => execute rules i s >>= unlessReturning (executeAll rules i []))
      (fun i => execute rules i s >>= unlessReturning (pure .normal)) :=
    (Later.refl (steady_execute rules s)).bind (later_unlessReturning hnil)
  have hcons : Later (fun i => executeAll rules i [s])
      (fun i => execute rules i s >>= unlessReturning (executeAll rules i [])) := by
    refine .succ ((steady_execute rules s).bind ?_) rfl fun k => executeAll_cons rules k s []
    exact steady_unlessReturning (steady_executeAll rules [])
  have h := hcons.trans hrest
  simpa only [unlessReturning_normal] using h

/-- Two statements in a row. -/
theorem later_pair (s t : Stmt Address) :
    Later (fun i => executeAll rules i [s, t])
      (fun i => execute rules i s >>= unlessReturning (execute rules i t)) := by
  have hcons : Later (fun i => executeAll rules i [s, t])
      (fun i => execute rules i s >>= unlessReturning (executeAll rules i [t])) := by
    refine .succ ((steady_execute rules s).bind ?_) rfl fun k => executeAll_cons rules k s [t]
    exact steady_unlessReturning (steady_executeAll rules [t])
  exact hcons.trans ((Later.refl (steady_execute rules s)).bind
    (later_unlessReturning (later_single rules t)))

/-- **One round of a `for` loop**: the body, and then the step. -/
def round (n : Nat) (step : Option (Expr Address)) (body : Option (Stmt Address)) :
    Action Completion :=
  executeOption rules n body >>=
    unlessReturning (evaluateOption rules n step >>= fun _ => pure .normal)

theorem repeatFor_succ (n : Nat) (cond step : Option (Expr Address))
    (body : Option (Stmt Address)) :
    repeatFor rules (n + 1) cond step body = evaluateCondition rules n cond >>= fun c =>
      if c.truthy then
        round rules n step body >>= unlessReturning (repeatFor rules n cond step body)
      else pure .normal := by
  rw [repeatFor]
  congr 1
  funext c
  split
  · rw [round, bind_bind]
    congr 1
    funext c
    cases c with
    | returning v => rfl
    | normal =>
      simp only [unlessReturning, bind_bind]
      rfl
  · rfl

theorem repeatWhile_succ (n : Nat) (cond : Expr Address) (body : Option (Stmt Address)) :
    repeatWhile rules (n + 1) cond body = evaluate rules n cond >>= fun c =>
      if c.truthy then
        executeOption rules n body >>= unlessReturning (repeatWhile rules n cond body)
      else pure .normal := by
  rw [repeatWhile]
  rfl

/-- A round with no step is the body. -/
theorem later_round_none (body : Option (Stmt Address)) :
    Later (fun i => round rules i none body) (fun i => executeOption rules i body) := by
  have hnone : Later (fun i => evaluateOption rules i none >>= fun _ => pure .normal)
      (fun _ => (pure .normal : Action Completion)) :=
    .succ (.pure _) rfl fun k => by
      rw [evaluateOption]
      rfl
  have h := (Later.refl (steady_executeOption rules body)).bind (later_unlessReturning hnone)
  simpa only [unlessReturning_normal, round] using h

/-- A round with no body is the step. -/
theorem later_round_step (step : Expr Address) :
    Later (fun i => round rules i (some step) none) (fun i => effect rules i step) :=
  .succ (steady_effect rules step) rfl fun k => by
    rw [round, executeOption, evaluateOption]
    rfl

/-- A round with both. -/
theorem later_round_both (step : Expr Address) (body : Stmt Address) :
    Later (fun i => round rules i (some step) (some body))
      (fun i => execute rules i body >>= unlessReturning (effect rules i step)) :=
  .succ ((steady_execute rules body).bind (steady_unlessReturning (steady_effect rules step)))
    rfl fun k => by
      rw [round, executeOption, evaluateOption]
      rfl

/-- The block that a round is written out as. -/
theorem later_block (keyword : Token) (step : Expr Address) (body : Stmt Address) :
    Later (fun i => executeOption rules i (some (.block keyword [body, .expr step])))
      (fun i => Action.inNewScope
        (execute rules i body >>= unlessReturning (effect rules i step))) := by
  have hpair : Later (fun i => executeAll rules i [body, .expr step])
      (fun i => execute rules i body >>= unlessReturning (effect rules i step)) :=
    (later_pair rules body (.expr step)).trans ((Later.refl (steady_execute rules body)).bind
      (later_unlessReturning (later_expr rules step)))
  have hsteady : Steady fun i => Action.inNewScope (executeAll rules i [body, .expr step]) :=
    fun n k hle => (steady_executeAll rules [body, .expr step] n k hle).inNewScope
  have hblock : Later (fun i => execute rules i (.block keyword [body, .expr step]))
      (fun i => Action.inNewScope (executeAll rules i [body, .expr step])) :=
    .succ hsteady rfl fun k => by rw [execute]
  exact (later_someStmt rules _).trans (hblock.trans hpair.inNewScope)

end

/-! ## Running code -/

/-- **What is run within a bound meets the same code written out.** -/
structure MeetsWithin (rules : Rules) (n : Nat) : Prop where
  evaluate : ∀ {layers e e'}, Expr.WrittenOut layers e e' →
    Meets layers n (fun i => evaluate rules i e) (fun i => evaluate rules i e')
  evaluateAll : ∀ {layers es es'}, Expr.WrittenOutAll layers es es' →
    Meets layers n (fun i => evaluateAll rules i es) (fun i => evaluateAll rules i es')
  apply : ∀ {layers} paren callee args, Meets layers n (fun i => apply rules i paren callee args)
    (fun i => apply rules i paren callee args)
  invoke : ∀ {layers} paren callee args,
    Meets layers n (fun i => invoke rules i paren callee args)
      (fun i => invoke rules i paren callee args)
  runFunction : ∀ {σ m m' fn fn'} args, Beside σ m m' →
    FunctionWrittenOut σ m.heap m'.heap [] fn fn' →
    Meet σ m m' n (fun i => runFunction rules i fn args) (fun i => runFunction rules i fn' args)
  execute : ∀ {layers s s'}, Stmt.WrittenOut layers s s' →
    Meets layers n (fun i => execute rules i s) (fun i => execute rules i s')
  evaluateOption : ∀ {layers e e'}, Expr.WrittenOutOption layers e e' →
    Meets layers n (fun i => evaluateOption rules i e) (fun i => evaluateOption rules i e')
  executeOption : ∀ {layers s s'}, Stmt.WrittenOutOption layers s s' →
    Meets layers n (fun i => executeOption rules i s) (fun i => executeOption rules i s')
  executeAll : ∀ {layers ss ss'}, Stmt.WrittenOutAll layers ss ss' →
    Meets layers n (fun i => executeAll rules i ss) (fun i => executeAll rules i ss')
  repeatFor : ∀ {layers keyword cond cond' step body rounds},
    Expr.WrittenOutCond layers keyword cond cond' →
    Stmt.WrittenOutRounds layers keyword step body rounds →
    Meets layers n (fun i => repeatFor rules i cond step body)
      (fun i => repeatWhile rules i cond' rounds)
  repeatWhile : ∀ {layers cond cond' body body'}, Expr.WrittenOut layers cond cond' →
    Stmt.WrittenOutOption layers body body' →
    Meets layers n (fun i => repeatWhile rules i cond body)
      (fun i => repeatWhile rules i cond' body')

section

variable (hrules : rules.addressing = .distance) (ih : MeetsWithin rules n)

include ih

include hrules in
theorem evaluate_meets {e e' : Expr Address} (h : e.WrittenOut layers e') :
    Meets layers (n + 1) (fun i => evaluate rules i e) (fun i => evaluate rules i e') := by
  refine .succ ?_
  cases h <;> simp only [evaluate]
  case literal token value => exact .pure _
  case grouping h => exact ih.evaluate h
  case unary op h => exact (ih.evaluate h).bind fun v => .liftFault op _
  case binary op hleft hright =>
    refine (ih.evaluate hleft).bind fun l => ?_
    exact (ih.evaluate hright).bind fun r => .liftFault op _
  case ternary mark hcond hyes hno =>
    refine (ih.evaluate hcond).bind fun c => ?_
    split
    · exact ih.evaluate hyes
    · exact ih.evaluate hno
  case logical op hleft hright =>
    refine (ih.evaluate hleft).bind fun l => ?_
    split
    · exact .pure l
    · exact ih.evaluate hright
  case var huse =>
    obtain ⟨rfl, ha⟩ := huse
    exact .of_pairs (read_pairs hrules _ ha)
  case receiver ha => exact .of_pairs (read_pairs hrules _ ha)
  case assign huse hvalue =>
    obtain ⟨rfl, ha⟩ := huse
    refine (ih.evaluate hvalue).bind fun v => ?_
    exact (Meets.of_pairs (write_pairs hrules _ v ha)).bind fun _ => .pure v
  case call paren hcallee hargs =>
    refine (ih.evaluate hcallee).bind fun c => ?_
    exact (ih.evaluateAll hargs).bind fun vs => ih.apply paren c vs
  case get name h =>
    refine (ih.evaluate h).bind fun o => ?_
    exact (expectInstance_meets name _ o).bind fun i => .of_pairs (readProperty_pairs i name)
  case set name hobject hvalue =>
    refine (ih.evaluate hobject).bind fun o => ?_
    refine (expectInstance_meets name _ o).bind fun i => ?_
    refine (ih.evaluate hvalue).bind fun v => ?_
    exact (Meets.of_pairs (writeField_pairs i name v)).bind fun _ => .pure v

theorem evaluateAll_meets {es es' : List (Expr Address)} (h : Expr.WrittenOutAll layers es es') :
    Meets layers (n + 1) (fun i => evaluateAll rules i es) (fun i => evaluateAll rules i es') := by
  refine .succ ?_
  cases h <;> simp only [evaluateAll]
  case nil => exact .pure []
  case cons h hrest =>
    refine (ih.evaluate h).bind fun v => ?_
    exact (ih.evaluateAll hrest).bind fun vs => .pure (v :: vs)

theorem apply_meets (paren : Token) (callee : Value) (args : List Value) :
    Meets layers (n + 1) (fun i => apply rules i paren callee args)
      (fun i => apply rules i paren callee args) := by
  refine .succ ?_
  simp only [apply]
  refine (Meets.of_pairs (checkCall_pairs paren callee args.length)).bind fun _ => ?_
  refine (Meets.of_pairs (checkDepth_pairs rules paren)).bind fun _ => ?_
  exact (ih.invoke paren callee args).counted

/-- A function that is called is fetched on both sides. -/
theorem invoke_function_meets (paren : Token) (f : FunctionId) (args : List Value) :
    Meets layers (n + 1) (fun i => invoke rules i paren (.function f) args)
      (fun i => invoke rules i paren (.function f) args) := by
  refine .succ fun σ m m' hbeside _ => ?_
  simp only [invoke]
  rcases eq_of_rel (hbeside.heap.functions f) with ⟨hf, hf'⟩ | ⟨fn, fn', hf, hf', hfn⟩
  · have hcrash : ∀ {k : Machine}, k.heap.function? f = none → fetchFunction f k = .crashed k :=
      fun h => by rw [fetchFunction, h]
    refine (Meet.of_matched ?_).bind fun fn _ _ _ _ hdone => ?_
    · rw [hcrash hf, hcrash hf']
      exact .crashed (.refl hbeside)
    · obtain ⟨-, hdone⟩ := hdone
      rw [hcrash hf] at hdone
      cases hdone
  · have hfetch : ∀ {k : Machine} {fn : Function}, k.heap.function? f = some fn →
        fetchFunction f k = .done fn k := fun h => by rw [fetchFunction, h]
    exact (ih.runFunction args hbeside hfn).after (.refl hbeside)
      (fun _ => bind_of_done (hfetch hf)) fun _ => bind_of_done (hfetch hf')

/-- A class that is called makes an instance on both sides, and its `init`
method is bound to it. -/
theorem invoke_class_meets (paren : Token) (c : ClassId) (args : List Value) :
    Meets layers (n + 1) (fun i => invoke rules i paren (.classRef c) args)
      (fun i => invoke rules i paren (.classRef c) args) := by
  refine .succ fun σ m m' hbeside _ => ?_
  simp only [invoke]
  obtain ⟨hmade, hid⟩ := hbeside.heap.newInstance c
  have hwidens : Widens σ m.heap m'.heap σ (m.heap.newInstance c).1 (m'.heap.newInstance c).1 :=
    .of_keeps (.of_scopes_eq rfl) (.of_scopes_eq rfl)
  rcases eq_of_rel (hmade.method? c initName) with ⟨hf, hf'⟩ | ⟨fn, fn', hf, hf', hfn⟩
  · have hnone : ∀ {k : Machine}, (k.heap.newInstance c).1.method? c initName = none →
        instantiate c k = .done ((k.heap.newInstance c).2, none)
          { k with heap := (k.heap.newInstance c).1 } :=
      fun h => by simp only [instantiate, h]
    have hbrought := Brought.of_heap hbeside hwidens hmade
    have hpure : Meet σ _ _ n (fun _ => pure (Value.instanceRef (m.heap.newInstance c).2))
        (fun _ => pure (Value.instanceRef (m.heap.newInstance c).2)) :=
      .of_matched (.done _ (.refl hbrought.beside))
    refine hpure.after hbrought (fun _ => bind_of_done (hnone hf)) fun _ => ?_
    rw [bind_of_done (hnone hf'), hid]
  · have hsome : ∀ {k : Machine} {fn : Function},
        (k.heap.newInstance c).1.method? c initName = some fn →
        instantiate c k = .done ((k.heap.newInstance c).2,
            some ((k.heap.newInstance c).1.bind fn (k.heap.newInstance c).2).2)
          { k with heap := ((k.heap.newInstance c).1.bind fn (k.heap.newInstance c).2).1 } :=
      fun h => by simp only [instantiate, h]
    obtain ⟨σ₁, hbinds, hbind, hbound⟩ := hmade.bind hfn (m.heap.newInstance c).2
    have hbrought := Brought.of_heap hbeside (hwidens.trans hbinds) hbind
    have hrun := (ih.runFunction args hbrought.beside hbound).bind
      (f := fun _ _ => pure (Value.instanceRef (m.heap.newInstance c).2))
      (g := fun _ _ => pure (Value.instanceRef (m.heap.newInstance c).2))
      fun _ _ _ _ hled _ => .of_matched (.done _ (.refl hled.beside))
    refine hrun.after hbrought (fun _ => bind_of_done (hsome hf)) fun _ => ?_
    rw [bind_of_done (hsome hf'), hid]

theorem invoke_meets (paren : Token) (callee : Value) (args : List Value) :
    Meets layers (n + 1) (fun i => invoke rules i paren callee args)
      (fun i => invoke rules i paren callee args) := by
  cases callee
  case function f => exact invoke_function_meets ih paren f args
  case classRef c => exact invoke_class_meets ih paren c args
  all_goals
    refine .succ ?_
    simp only [invoke]
  case native f => exact .of_pairs (callNative_pairs rules paren f args)
  all_goals exact .raise paren _

/-- **A call runs in a new scope on both sides**, and answers the same. -/
theorem runFunction_meet {fn fn' : Function} (args : List Value) (hbeside : Beside σ m m')
    (hfn : FunctionWrittenOut σ m.heap m'.heap [] fn fn') :
    Meet σ m m' (n + 1) (fun i => runFunction rules i fn args)
      (fun i => runFunction rules i fn' args) := by
  refine .succ ?_
  simp only [runFunction]
  by_cases hfew : args.length < fn.decl.params.length
  · have hfew' : args.length < fn'.decl.params.length := by rwa [hfn.params]
    have hcrash : ∀ {k : Machine} {fn : Function}, args.length < fn.decl.params.length →
        enterCall fn args k = .crashed k := fun h => by rw [enterCall, if_pos h]
    refine (Meet.of_matched ?_).bind fun _ _ _ _ _ hdone => ?_
    · rw [hcrash hfew, hcrash hfew']
      exact .crashed (.refl hbeside)
    · obtain ⟨-, hdone⟩ := hdone
      rw [hcrash hfew] at hdone
      cases hdone
  · have hargs : fn.decl.params.length ≤ args.length := Nat.not_lt.1 hfew
    have hargs' : fn'.decl.params.length ≤ args.length := by rwa [hfn.params]
    obtain ⟨σ₁, inner, hwidens, henter, hinside, hbody⟩ := hbeside.heap.enter hfn args
    have hbrought := Brought.of_heap hbeside hwidens henter
    have hrun : Meet σ₁ { m with heap := (m.heap.enter fn args).1 }
        { m' with heap := (m'.heap.enter fn' args).1 } n
        (fun i => Action.inScope (m.heap.enter fn args).2 (executeAll rules i fn.decl.body))
        (fun i => Action.inScope (m'.heap.enter fn' args).2
          (executeAll rules i fn'.decl.body)) :=
      Meet.inScope (ih.executeAll hbody _ _ _ ⟨henter, hbeside.depth, hbeside.printed⟩ hinside)
    have hleave := hrun.bind (f := fun _ => leaveCall fn) (g := fun _ => leaveCall fn')
      fun c σ₂ k k' hled _ => by
        have hfn₂ := (hfn.widen hwidens).widen hled.widens
        refine .of_matched ?_
        unfold leaveCall
        rw [hled.beside.heap.answer hfn₂]
        exact .done _ (.refl hled.beside)
    exact hleave.after hbrought (fun _ => bind_of_done (enterCall_eq hargs))
      fun _ => bind_of_done (enterCall_eq hargs')

/-- What a loop repeats. -/
theorem rounds_meet {keyword : Token} {step : Option (Expr Address)}
    {body rounds : Option (Stmt Address)}
    (h : Stmt.WrittenOutRounds layers keyword step body rounds) :
    Meets layers n (fun i => round rules i step body) (fun i => executeOption rules i rounds) := by
  have heffect : ∀ {layers : Layers} {e e' : Expr Address}, e.WrittenOut layers e' →
      Meets layers n (fun i => effect rules i e) (fun i => effect rules i e') :=
    fun he => (ih.evaluate he).bind fun _ => .pure _
  cases h with
  | bodyOnly h =>
    exact (ih.executeOption h).later (later_round_none rules _)
      (.refl (steady_executeOption rules _))
  | @stepOnly _ _ _ step' h =>
    exact (heffect h).later (later_round_step rules _)
      ((later_someStmt rules (.expr step')).trans (later_expr rules step'))
  | both hbody hstep =>
    refine Meets.later (.inExtraScope ?_) (later_round_both rules _ _) (later_block rules _ _ _)
    refine (ih.execute hbody).bind fun c => ?_
    cases c with
    | returning v => exact .pure _
    | normal => exact heffect hstep

/-- The condition of a loop. -/
theorem cond_meets {keyword : Token} {cond : Option (Expr Address)} {cond' : Expr Address}
    (h : Expr.WrittenOutCond layers keyword cond cond') :
    Meets layers n (fun i => evaluateCondition rules i cond) (fun i => evaluate rules i cond') := by
  cases h with
  | always =>
    refine Meets.later (.pure (Value.bool true)) ?_ ?_
    · exact .succ (.pure _) rfl fun k => by rw [evaluateCondition]
    · exact .succ (.pure _) rfl fun k => by
        rw [evaluate]
        rfl
  | @given e _ h =>
    refine (ih.evaluate h).later ?_ (.refl (steady_evaluate rules _))
    exact .succ (steady_evaluate rules e) rfl fun k => by rw [evaluateCondition]

/-- **A `for` loop and the `while` loop it is written out as.** -/
theorem repeatFor_meets {keyword : Token} {cond step : Option (Expr Address)}
    {cond' : Expr Address} {body rounds : Option (Stmt Address)}
    (hcond : Expr.WrittenOutCond layers keyword cond cond')
    (hrounds : Stmt.WrittenOutRounds layers keyword step body rounds) :
    Meets layers (n + 1) (fun i => repeatFor rules i cond step body)
      (fun i => repeatWhile rules i cond' rounds) := by
  refine .succ ?_
  simp only [repeatFor_succ, repeatWhile_succ]
  refine (cond_meets ih hcond).bind fun c => ?_
  split
  · refine (rounds_meet ih hrounds).bind fun c => ?_
    cases c with
    | returning v => exact .pure _
    | normal => exact ih.repeatFor hcond hrounds
  · exact .pure _

theorem repeatWhile_meets {cond cond' : Expr Address} {body body' : Option (Stmt Address)}
    (hcond : cond.WrittenOut layers cond') (hbody : Stmt.WrittenOutOption layers body body') :
    Meets layers (n + 1) (fun i => repeatWhile rules i cond body)
      (fun i => repeatWhile rules i cond' body') := by
  refine .succ ?_
  simp only [repeatWhile_succ]
  refine (ih.evaluate hcond).bind fun c => ?_
  split
  · refine (ih.executeOption hbody).bind fun c => ?_
    cases c with
    | returning v => exact .pure _
    | normal => exact ih.repeatWhile hcond hbody
  · exact .pure _

omit ih in
/-- What a loop may start with runs to its end. -/
theorem returns_of_opens {s : Stmt Address} (h : s.opens = true) : s.returns = false := by
  cases s with
  | expr | varDecl => rfl
  | _ => cases h

/-- **A `for` loop with a scope of its own.** What it starts with runs to its
end, so the loop comes next on both sides. -/
theorem forScope_meets {keyword : Token} {initial initial' : Stmt Address}
    {cond step : Option (Expr Address)} {cond' : Expr Address}
    {body rounds : Option (Stmt Address)} (hopens : initial.opens = true)
    (hinitial : Stmt.WrittenOut (false :: layers) initial initial')
    (hcond : Expr.WrittenOutCond (false :: layers) keyword cond cond')
    (hrounds : Stmt.WrittenOutRounds (false :: layers) keyword step body rounds) :
    Meets (false :: layers) n
      (fun i => execute rules i initial >>= fun _ => repeatFor rules i cond step body)
      (fun i => executeAll rules i [initial', .loop keyword cond' rounds]) := by
  have hpair : Later (fun i => executeAll rules i [initial', .loop keyword cond' rounds])
      (fun i => execute rules i initial' >>=
        unlessReturning (repeatWhile rules i cond' rounds)) :=
    (later_pair rules initial' _).trans ((Later.refl (steady_execute rules initial')).bind
      (later_unlessReturning (later_loop rules keyword cond' rounds)))
  have hsteady : Steady fun i => execute rules i initial >>= fun _ =>
      repeatFor rules i cond step body :=
    (steady_execute rules initial).bind fun _ => fun _ _ hle =>
      (curtailsWithin_of_le hle).repeatFor cond step body
  refine Meets.later (fun σ m m' hbeside hpaired => ?_) (.refl hsteady) hpair
  refine (ih.execute hinitial σ m m' hbeside hpaired).bind fun c σ₁ k k' hbrought hdone => ?_
  obtain ⟨i, hdone⟩ := hdone
  have hwithin : BehavesWithin (fun _ => True) rules i := behavesWithin rules i
  have hnormal := (hwithin.execute fun _ _ => trivial).of_eq_done (.of_true m.heap) hdone
  obtain rfl : c = .normal := hnormal.2 (returns_of_opens hopens)
  exact ih.repeatFor hcond hrounds σ₁ k k' hbrought.beside (hbrought.paired hpaired)

include hrules in
theorem execute_meets {s s' : Stmt Address} (h : s.WrittenOut layers s') :
    Meets layers (n + 1) (fun i => execute rules i s) (fun i => execute rules i s') := by
  refine .succ ?_
  cases h <;> simp only [execute]
  case expr h => exact (ih.evaluate h).bind fun _ => .pure _
  case print keyword h =>
    refine (ih.evaluate h).bind fun v => ?_
    exact (Meets.of_pairs (print_pairs v)).bind fun _ => .pure _
  case varDecl name hown h =>
    refine (ih.evaluateOption h).bind fun v => ?_
    exact (Meets.of_pairs (define_pairs hown name.lexeme v)).bind fun _ => .pure _
  case block brace h => exact (ih.executeAll h).inNewScope
  case branch keyword hcond hyes hno =>
    refine (ih.evaluate hcond).bind fun c => ?_
    split
    · exact ih.execute hyes
    · exact ih.executeOption hno
  case loop keyword hcond hbody => exact ih.repeatWhile hcond hbody
  case forLoop hcond hrounds => exact ih.repeatFor hcond hrounds
  case forScope hopens hinitial hcond hrounds =>
    exact (forScope_meets ih hopens hinitial hcond hrounds).inNewScope
  case function hown h =>
    exact (Meets.of_pairs (declareFunction_pairs hown h)).bind fun _ => .pure _
  case ret keyword h => exact (ih.evaluateOption h).bind fun v => .pure _
  case classDecl name hown hsuperclass hmethods =>
    refine (readSuperclass_pairs hrules hsuperclass).bind fun c => ?_
    exact (Meets.of_pairs (declareClass_pairs hown hmethods)).bind fun _ => .pure _

theorem executeAll_meets {ss ss' : List (Stmt Address)} (h : Stmt.WrittenOutAll layers ss ss') :
    Meets layers (n + 1) (fun i => executeAll rules i ss) (fun i => executeAll rules i ss') := by
  refine .succ ?_
  cases h with
  | nil =>
    simp only [executeAll]
    exact .pure _
  | cons h hrest =>
    simp only [executeAll_cons]
    refine (ih.execute h).bind fun c => ?_
    cases c with
    | returning v => exact .pure _
    | normal => exact ih.executeAll hrest

theorem evaluateOption_meets {e e' : Option (Expr Address)}
    (h : Expr.WrittenOutOption layers e e') :
    Meets layers (n + 1) (fun i => evaluateOption rules i e)
      (fun i => evaluateOption rules i e') := by
  refine .succ ?_
  cases h <;> simp only [evaluateOption]
  case none => exact .pure _
  case some h => exact ih.evaluate h

theorem executeOption_meets {s s' : Option (Stmt Address)}
    (h : Stmt.WrittenOutOption layers s s') :
    Meets layers (n + 1) (fun i => executeOption rules i s)
      (fun i => executeOption rules i s') := by
  refine .succ ?_
  cases h <;> simp only [executeOption]
  case none => exact .pure _
  case some h => exact ih.execute h

end

/-- **Code meets the same code with its `for` loops written out**, whatever
the bound. -/
theorem meetsWithin (hrules : rules.addressing = .distance) : ∀ n, MeetsWithin rules n
  | 0 =>
    { evaluate := fun _ => .zero rfl rfl
      evaluateAll := fun _ => .zero rfl rfl
      apply := fun _ _ _ => .zero rfl rfl
      invoke := fun _ _ _ => .zero rfl rfl
      runFunction := fun _ _ _ hended => by rcases hended with h | h <;> exact absurd rfl h
      execute := fun _ => .zero rfl rfl
      evaluateOption := fun _ => .zero rfl rfl
      executeOption := fun _ => .zero rfl rfl
      executeAll := fun _ => .zero rfl rfl
      repeatFor := fun _ _ => .zero rfl rfl
      repeatWhile := fun _ _ => .zero rfl rfl }
  | n + 1 =>
    have ih := meetsWithin hrules n
    { evaluate := evaluate_meets hrules ih
      evaluateAll := evaluateAll_meets ih
      apply := apply_meets ih
      invoke := invoke_meets ih
      runFunction := runFunction_meet ih
      execute := execute_meets hrules ih
      evaluateOption := evaluateOption_meets ih
      executeOption := executeOption_meets ih
      executeAll := executeAll_meets ih
      repeatFor := repeatFor_meets ih
      repeatWhile := repeatWhile_meets ih }

/-- **A program meets the same program with its `for` loops written out.** -/
theorem interpret_meets (hrules : rules.addressing = .distance) (n : Nat)
    {p p' : Program Address} (h : Stmt.WrittenOutAll [] p p') :
    Meets [] n (fun i => interpret rules i p) (fun i => interpret rules i p') := by
  induction p generalizing p' with
  | nil =>
    cases h
    exact .pure ()
  | cons s rest ih =>
    cases h with
    | @cons _ _ s' _ rest' h hrest =>
      exact ((meetsWithin hrules n).execute h).bind (f := fun i _ => interpret rules i rest)
        (g := fun i _ => interpret rules i rest') fun _ => ih hrest

end Eval

end TanLang
