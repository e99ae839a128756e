import TanLang.Proofs.Evaluation.Conduct
import TanLang.Proofs.Evaluation.Cutting
/-!
# Evaluation — code without loops ends

Without loops there are two ways for evaluation to go on: into a part of the
code at hand, and by a call into code that is somewhere in the heap. The
parts get smaller, and the calls that may still be opened get fewer. If all
the code in the heap is without loops and of a bounded extent, **a bound on
the recursion that makes room for one extent in each open call is never
reached**, whatever is called.

Nothing is asked of the names or of the values: a call that fails, for want
of room or anything else, has ended.
-/

namespace TanLang

/-! ## The extent of code -/

namespace Expr

variable {α : Type}

mutual

/-- How deep evaluation can go in an expression itself. -/
def extent : Expr α → Nat
  | literal _ _ => 1
  | grouping _ inner => extent inner + 1
  | unary _ operand => extent operand + 1
  | binary left _ right => extent left + extent right + 1
  | ternary cond _ yes no => extent cond + extent yes + extent no + 1
  | logical left _ right => extent left + extent right + 1
  | var _ _ => 1
  | assign _ _ value => extent value + 1
  | call callee _ args => extent callee + extentAll args + 1
  | get object _ => extent object + 1
  | set object _ value => extent object + extent value + 1
  | receiver _ _ => 1

/-- The same for expressions in a row. -/
def extentAll : List (Expr α) → Nat
  | [] => 1
  | e :: rest => extent e + extentAll rest + 1

end

/-- The same for an expression that may be missing. -/
def extentOption : Option (Expr α) → Nat
  | none => 1
  | some e => extent e + 1

theorem extent_pos (e : Expr α) : 0 < e.extent := by
  cases e <;> rw [extent] <;> omega

theorem extentAll_pos (es : List (Expr α)) : 0 < extentAll es := by
  cases es <;> rw [extentAll] <;> omega

theorem extentOption_pos (e : Option (Expr α)) : 0 < extentOption e := by
  cases e <;> rw [extentOption] <;> omega

end Expr

namespace Stmt

variable {α : Type}

mutual

/-- How deep evaluation can go in a statement itself, the bodies of the
functions in it included. -/
def extent : Stmt α → Nat
  | block _ body => extentAll body + 1
  | expr e => e.extent + 1
  | print _ value => value.extent + 1
  | varDecl _ initial => Expr.extentOption initial + 1
  | branch _ cond yes no => cond.extent + extent yes + extentOption no + 1
  | loop _ cond body => cond.extent + extentOption body + 1
  | forLoop _ initial cond step body => extentOption initial + Expr.extentOption cond +
      Expr.extentOption step + extentOption body + 1
  | function decl => extentRoutine decl + 1
  | ret _ value => Expr.extentOption value + 1
  | classDecl _ _ methods => extentMethods methods + 1

/-- The same for statements in a row. -/
def extentAll : List (Stmt α) → Nat
  | [] => 1
  | s :: rest => extent s + extentAll rest + 1

/-- The same for a statement that may be missing. -/
def extentOption : Option (Stmt α) → Nat
  | none => 1
  | some s => extent s + 1

/-- The same for the body of a function. -/
def extentRoutine : Routine (Stmt α) → Nat
  | ⟨_, _, body⟩ => extentAll body

/-- The same for the methods of a class. -/
def extentMethods : List (Routine (Stmt α)) → Nat
  | [] => 1
  | m :: rest => extentRoutine m + extentMethods rest + 1

end

theorem extent_pos (s : Stmt α) : 0 < s.extent := by
  cases s <;> rw [extent] <;> omega

theorem extentAll_pos (ss : List (Stmt α)) : 0 < extentAll ss := by
  cases ss <;> rw [extentAll] <;> omega

theorem extentOption_pos (s : Option (Stmt α)) : 0 < extentOption s := by
  cases s <;> rw [extentOption] <;> omega

mutual

/-- Whether there is no loop in a statement, nor in a function in it. -/
def loopless : Stmt α → Bool
  | block _ body => looplessAll body
  | branch _ _ yes no => loopless yes && looplessOption no
  | loop _ _ _ => false
  | forLoop _ _ _ _ _ => false
  | function decl => looplessRoutine decl
  | classDecl _ _ methods => looplessMethods methods
  | expr _ => true
  | print _ _ => true
  | varDecl _ _ => true
  | ret _ _ => true

/-- The same for statements in a row. -/
def looplessAll : List (Stmt α) → Bool
  | [] => true
  | s :: rest => loopless s && looplessAll rest

/-- The same for a statement that may be missing. -/
def looplessOption : Option (Stmt α) → Bool
  | none => true
  | some s => loopless s

/-- The same for the body of a function. -/
def looplessRoutine : Routine (Stmt α) → Bool
  | ⟨_, _, body⟩ => looplessAll body

/-- The same for the methods of a class. -/
def looplessMethods : List (Routine (Stmt α)) → Bool
  | [] => true
  | m :: rest => looplessRoutine m && looplessMethods rest

end

/-- A function without loops whose body is of an extent at most. -/
def Brief (most : Nat) (decl : Routine (Stmt α)) : Prop :=
  looplessRoutine decl = true ∧ extentRoutine decl ≤ most

theorem Brief.body {most : Nat} {decl : Routine (Stmt α)} (h : Brief most decl) :
    looplessAll decl.body = true ∧ extentAll decl.body ≤ most := by
  obtain ⟨name, params, body⟩ := decl
  exact h

/-- The methods of a class are no larger than the class. -/
theorem Brief.of_mem {most : Nat} {methods : List (Routine (Stmt α))}
    (hloopless : looplessMethods methods = true) (hextent : extentMethods methods ≤ most)
    {decl : Routine (Stmt α)} (hdecl : decl ∈ methods) : Brief most decl := by
  induction methods with
  | nil => cases hdecl
  | cons m rest ih =>
    simp only [looplessMethods, Bool.and_eq_true] at hloopless
    rw [extentMethods] at hextent
    rcases List.mem_cons.1 hdecl with rfl | hdecl
    · exact ⟨hloopless.1, by omega⟩
    · exact ih hloopless.2 (by omega) hdecl

end Stmt

namespace Eval

/-! ## Actions that end -/

variable {α β : Type} {rules : Rules} {most calls : Nat}

/-- **How an action ends**: the bound did not run out, as many calls are open
as before, and the code in the heap is still brief. What else holds of an
answer. -/
structure Settled (most depth : Nat) (Then : α → Prop) (o : Outcome α) : Prop where
  ended : o.Ended
  depth : o.machine.depth = depth
  brief : o.machine.heap.Holds (Stmt.Brief most)
  answer : ∀ a m', o = .done a m' → Then a

/-- **An action ends** in every machine with brief code in which so many
calls, or fewer, may still be opened. -/
def Settles (rules : Rules) (most calls : Nat) (x : Action α) (Then : α → Prop) : Prop :=
  ∀ m : Machine, m.heap.Holds (Stmt.Brief most) → rules.maxDepth ≤ m.depth + calls →
    Settled most m.depth Then (x m)

/-- The machine set up before a run and put back after it. -/
theorem Settled.around {depth depth' : Nat} {Then : α → Prop} {o : Outcome α}
    {g : Machine → Machine} (h : Settled most depth' Then o)
    (hheap : (g o.machine).heap = o.machine.heap) (hdepth : (g o.machine).depth = depth) :
    Settled most depth Then (o.mapMachine g) where
  ended := by
    rw [Outcome.Ended, Outcome.halt?_mapMachine]
    exact h.ended
  depth := by
    rw [Outcome.machine_mapMachine]
    exact hdepth
  brief := by
    rw [Outcome.machine_mapMachine, hheap]
    exact h.brief
  answer a m'' hdone := by
    cases o with
    | done b m₁ =>
      cases hdone
      exact h.answer a m₁ rfl
    | raised error m₁ | crashed m₁ | exhausted m₁ => cases hdone

namespace Settles

variable {x : Action α} {f : α → Action β} {Then : α → Prop} {After : β → Prop}

/-- **One action after another.** -/
theorem bind (hx : Settles rules most calls x Then)
    (hf : ∀ a, Then a → Settles rules most calls (f a) After) :
    Settles rules most calls (x >>= f) After := by
  intro m hbrief hroom
  have hfirst := hx m hbrief hroom
  rcases (x m).done_or_halt with ⟨a, m', hdone⟩ | ⟨k, hhalt⟩
  · have hthen := hfirst.answer a m' hdone
    rw [hdone] at hfirst
    have hdepth : m'.depth = m.depth := hfirst.depth
    have hsecond := hf a hthen m' hfirst.brief (by omega)
    rw [bind_of_done hdone]
    exact ⟨hsecond.ended, hsecond.depth.trans hdepth, hsecond.brief, hsecond.answer⟩
  · obtain ⟨hsame, hmachine⟩ := bind_of_halt (f := f) hhalt
    refine ⟨?_, ?_, ?_, fun b m' hdone => ?_⟩
    · rw [Outcome.Ended, hsame, ← hhalt]
      exact hfirst.ended
    · rw [hmachine]
      exact hfirst.depth
    · rw [hmachine]
      exact hfirst.brief
    · rw [hdone] at hsame
      cases hsame

/-- An action that leaves alone the code in the heap and the count of open
calls. -/
theorem of_quiet (h : ∀ m, (x m).Ended ∧ (x m).machine.depth = m.depth ∧
    (x m).machine.heap.functions = m.heap.functions ∧
    (x m).machine.heap.classes = m.heap.classes) : Settles rules most calls x Whatever := by
  intro m hbrief _
  obtain ⟨hended, hdepth, hfunctions, hclasses⟩ := h m
  exact ⟨hended, hdepth, hbrief.of_eq hfunctions hclasses, fun _ _ _ => trivial⟩

theorem pure {a : α} (h : Then a) : Settles rules most calls (Pure.pure a) Then := by
  intro m hbrief _
  refine ⟨.done, rfl, hbrief, ?_⟩
  rintro _ _ ⟨⟩
  exact h

theorem raise {token : Token} {fault : Fault} :
    Settles rules most calls (Action.raise token fault : Action α) Then :=
  fun _ hbrief _ => ⟨.raised, rfl, hbrief, fun _ _ h => nomatch h⟩

theorem liftFault {token : Token} {r : Except Fault α} :
    Settles rules most calls (Action.liftFault token r) Whatever := by
  cases r with
  | ok a => exact pure trivial
  | error fault => exact raise

theorem inScope {s : ScopeId} (hx : Settles rules most calls x Then) :
    Settles rules most calls (Action.inScope s x) Then := by
  intro m hbrief hroom
  have hinner := hx { m with active := s } hbrief hroom
  exact hinner.around rfl hinner.depth

theorem inNewScope (hx : Settles rules most calls x Then) :
    Settles rules most calls (Action.inNewScope x) Then := by
  intro m hbrief hroom
  exact hx.inScope { m with heap := (m.heap.newScope (some m.active)).1 }
    (hbrief.of_eq rfl rfl) hroom

/-- **A call is counted only if one more may be opened**, and inside it one
fewer may. -/
theorem counted {paren : Token}
    (hx : ∀ fewer, calls = fewer + 1 → Settles rules most fewer x Then) :
    Settles rules most calls (checkDepth rules paren >>= fun _ => Action.counted x) Then := by
  intro m hbrief hroom
  change Settled most m.depth Then (Action.andThen (checkDepth rules paren) _ m)
  unfold Action.andThen checkDepth
  by_cases hfull : rules.maxDepth ≤ m.depth
  · rw [if_pos hfull]
    exact ⟨.raised, rfl, hbrief, fun _ _ h => nomatch h⟩
  · rw [if_neg hfull]
    obtain ⟨fewer, rfl⟩ : ∃ fewer, calls = fewer + 1 := ⟨calls - 1, by omega⟩
    have hinner := hx fewer rfl { m with depth := m.depth + 1 } hbrief (by
      show rules.maxDepth ≤ m.depth + 1 + fewer
      omega)
    refine hinner.around rfl ?_
    show (x _).machine.depth - 1 = m.depth
    rw [hinner.depth]
    rfl

end Settles

/-! ## Single actions -/

section

variable {token : Token}

theorem read_settles {address : Address} :
    Settles rules most calls (Action.read rules token address) Whatever := by
  refine .of_quiet fun m => ?_
  unfold Action.read
  split
  · exact ⟨.done, rfl, rfl, rfl⟩
  · exact ⟨.raised, rfl, rfl, rfl⟩
  · exact ⟨.crashed, rfl, rfl, rfl⟩

theorem write_settles {address : Address} {v : Value} :
    Settles rules most calls (Action.write rules token address v) Whatever := by
  refine .of_quiet fun m => ?_
  unfold Action.write
  split
  · exact ⟨.done, rfl, rfl, rfl⟩
  · exact ⟨.raised, rfl, rfl, rfl⟩
  · exact ⟨.crashed, rfl, rfl, rfl⟩

theorem print_settles {v : Value} : Settles rules most calls (Action.print v) Whatever :=
  .of_quiet fun _ => ⟨.done, rfl, rfl, rfl⟩

theorem define_settles {name : Text} {v : Value} :
    Settles rules most calls (Action.define name v) Whatever :=
  .of_quiet fun _ => ⟨.done, rfl, rfl, rfl⟩

theorem writeField_settles {i : InstanceId} {v : Value} :
    Settles rules most calls (writeField i token v) Whatever :=
  .of_quiet fun _ => ⟨.done, rfl, rfl, rfl⟩

theorem leaveCall_settles {f : Function} {c : Completion} :
    Settles rules most calls (leaveCall f c) Whatever :=
  .of_quiet fun _ => ⟨.done, rfl, rfl, rfl⟩

theorem expectInstance_settles {fault : Fault} {v : Value} :
    Settles rules most calls (expectInstance token fault v) Whatever := by
  cases v with
  | instanceRef i => exact .pure trivial
  | _ => exact .raise

theorem readProperty_settles {i : InstanceId} :
    Settles rules most calls (readProperty i token) Whatever := by
  intro m hbrief _
  unfold readProperty
  cases hproperty : m.heap.property? i token.lexeme with
  | none => exact ⟨.raised, rfl, hbrief, fun _ _ h => nomatch h⟩
  | some p =>
    refine ⟨.done, rfl, ?_, fun _ _ _ => trivial⟩
    cases p with
    | field v => exact hbrief
    | method f =>
      -- the method is a new function with the code of the old one
      obtain ⟨c, hf⟩ := Heap.exists_method?_of_property? hproperty
      have hbind : (m.heap.bind f i).1.Holds (Stmt.Brief most) := hbrief.of_eq rfl rfl
      have hcode : Stmt.Brief most f.decl := hbrief.method? hf
      exact hbind.newFunction hcode

theorem declareFunction_settles {decl : Routine (Stmt Address)} (hdecl : Stmt.Brief most decl) :
    Settles rules most calls (declareFunction decl) Whatever := by
  intro m hbrief _
  have hnew := hbrief.newFunction (f := ⟨decl, m.active, false⟩) hdecl
  exact ⟨.done, rfl, hnew.of_eq rfl rfl, fun _ _ _ => trivial⟩

theorem declareClass_settles {superclass : Option ClassId}
    {methods : List (Routine (Stmt Address))} (hmethods : ∀ decl ∈ methods, Stmt.Brief most decl) :
    Settles rules most calls (declareClass token superclass methods) Whatever := by
  intro m hbrief _
  have hdefine : (m.heap.define m.active token.lexeme .nil).Holds (Stmt.Brief most) :=
    hbrief.of_eq rfl rfl
  have hclass : ((m.heap.define m.active token.lexeme .nil).newClass
      ⟨token.lexeme, superclass, methodTable m.active methods⟩).1.Holds (Stmt.Brief most) :=
    hdefine.newClass fun name fn hfn => hmethods fn.decl (of_find?_methodTable hfn).1
  unfold declareClass
  simp only
  split
  · exact ⟨.done, rfl, hclass.of_eq rfl rfl, fun _ _ _ => trivial⟩
  · exact ⟨.raised, rfl, hclass, fun _ _ h => nomatch h⟩

theorem readSuperclass_settles {superclass : Option (Token × Address)} :
    Settles rules most calls (readSuperclass rules superclass) Whatever := by
  cases superclass with
  | none => exact .pure trivial
  | some named =>
    refine read_settles.bind fun v _ => ?_
    cases v with
    | classRef c => exact .pure trivial
    | _ => exact .raise

theorem checkCall_settles {callee : Value} {given : Nat} :
    Settles rules most calls (checkCall token callee given) Whatever := by
  refine .of_quiet fun m => ?_
  unfold checkCall
  split
  · exact ⟨.raised, rfl, rfl, rfl⟩
  · split
    · exact ⟨.done, rfl, rfl, rfl⟩
    · exact ⟨.raised, rfl, rfl, rfl⟩

theorem callNative_settles {f : NativeId} {args : List Value} :
    Settles rules most calls (callNative rules token f args) Whatever := by
  refine .of_quiet fun m => ?_
  refine callNative_cases (fun _ => ?_) (fun _ _ _ _ => ?_) fun _ _ _ _ => ?_
  · exact ⟨.crashed, rfl, rfl, rfl⟩
  · exact ⟨.done, rfl, rfl, rfl⟩
  · exact ⟨.raised, rfl, rfl, rfl⟩

/-- What sets up an instance is brief. -/
theorem instantiate_settles {c : ClassId} :
    Settles rules most calls (instantiate c) fun made => ∀ init, made.2 = some init →
      Stmt.Brief most init.decl := by
  intro m hbrief _
  have hinstance : (m.heap.newInstance c).1.Holds (Stmt.Brief most) := hbrief.of_eq rfl rfl
  unfold instantiate
  simp only
  split
  · refine ⟨.done, rfl, hinstance, ?_⟩
    rintro _ _ ⟨⟩ init ⟨⟩
  · rename_i method hmethod
    have hcode : Stmt.Brief most method.decl := hinstance.method? hmethod
    refine ⟨.done, rfl, hinstance.of_eq rfl rfl, ?_⟩
    rintro _ _ ⟨⟩ init ⟨⟩
    exact hcode

theorem fetchFunction_settles {f : FunctionId} :
    Settles rules most calls (fetchFunction f) fun fn => Stmt.Brief most fn.decl := by
  intro m hbrief _
  unfold fetchFunction
  split
  · rename_i fn hfn
    refine ⟨.done, rfl, hbrief, ?_⟩
    rintro _ _ ⟨⟩
    exact hbrief.functions f fn hfn
  · exact ⟨.crashed, rfl, hbrief, fun _ _ h => nomatch h⟩

theorem enterCall_settles {f : Function} {args : List Value} :
    Settles rules most calls (enterCall f args) Whatever := by
  refine .of_quiet fun m => ?_
  unfold enterCall
  split
  · exact ⟨.crashed, rfl, rfl, rfl⟩
  · obtain ⟨scopes, hscopes⟩ := defineAll_heap (m.heap.newScope (some f.closure)).2
      f.decl.params args (m.heap.newScope (some f.closure)).1
    have hheap : (m.heap.enter f args).1 = { m.heap with scopes := scopes } := hscopes
    simp only [hheap]
    exact ⟨.done, rfl, rfl, rfl⟩

end

/-! ## Code -/

/-- The part of the bound that so many calls need, each with a body of an
extent at most. -/
def reserve (most calls : Nat) : Nat := calls * (most + 2)

theorem reserve_succ (most calls : Nat) :
    reserve most (calls + 1) = reserve most calls + most + 2 := by
  rw [reserve, reserve, Nat.succ_mul]
  omega

/-- **What code without loops does within a bound** that is enough for its
extent and for the calls that may still be opened. -/
structure SettlesWithin (rules : Rules) (most n : Nat) : Prop where
  evaluate : ∀ {e calls}, e.extent + reserve most calls ≤ n →
    Settles rules most calls (evaluate rules n e) Whatever
  evaluateAll : ∀ {es calls}, Expr.extentAll es + reserve most calls ≤ n →
    Settles rules most calls (evaluateAll rules n es) Whatever
  apply : ∀ {paren callee args calls}, reserve most calls + 1 ≤ n →
    Settles rules most calls (apply rules n paren callee args) Whatever
  invoke : ∀ {paren callee args calls}, most + reserve most calls + 2 ≤ n →
    Settles rules most calls (invoke rules n paren callee args) Whatever
  runFunction : ∀ {f args calls}, Stmt.Brief most f.decl → most + reserve most calls + 1 ≤ n →
    Settles rules most calls (runFunction rules n f args) Whatever
  execute : ∀ {s calls}, s.loopless = true → s.extent ≤ most →
    s.extent + reserve most calls ≤ n → Settles rules most calls (execute rules n s) Whatever
  evaluateOption : ∀ {e calls}, Expr.extentOption e + reserve most calls ≤ n →
    Settles rules most calls (evaluateOption rules n e) Whatever
  executeOption : ∀ {s calls}, Stmt.looplessOption s = true → Stmt.extentOption s ≤ most →
    Stmt.extentOption s + reserve most calls ≤ n →
    Settles rules most calls (executeOption rules n s) Whatever
  executeAll : ∀ {ss calls}, Stmt.looplessAll ss = true → Stmt.extentAll ss ≤ most →
    Stmt.extentAll ss + reserve most calls ≤ n →
    Settles rules most calls (executeAll rules n ss) Whatever

section

variable {n : Nat} (ih : SettlesWithin rules most n)

include ih

theorem evaluate_settles {e : Expr Address} (hn : e.extent + reserve most calls ≤ n + 1) :
    Settles rules most calls (evaluate rules (n + 1) e) Whatever := by
  cases e <;> rw [evaluate] <;> simp only [Expr.extent] at hn
  case literal token value => exact .pure trivial
  case grouping paren inner => exact ih.evaluate (by omega)
  case unary op operand => exact (ih.evaluate (by omega)).bind fun v _ => .liftFault
  case binary left op right =>
    refine (ih.evaluate (by omega)).bind fun l _ => ?_
    exact (ih.evaluate (by omega)).bind fun r _ => .liftFault
  case ternary cond mark yes no =>
    refine (ih.evaluate (by omega)).bind fun c _ => ?_
    split
    · exact ih.evaluate (by omega)
    · exact ih.evaluate (by omega)
  case logical left op right =>
    refine (ih.evaluate (by omega)).bind fun l _ => ?_
    split
    · exact .pure trivial
    · exact ih.evaluate (by omega)
  case var name address => exact read_settles
  case receiver keyword address => exact read_settles
  case assign name address value =>
    refine (ih.evaluate (by omega)).bind fun v _ => ?_
    exact write_settles.bind fun _ _ => .pure trivial
  case call callee paren args =>
    have hcallee := callee.extent_pos
    refine (ih.evaluate (by omega)).bind fun f _ => ?_
    exact (ih.evaluateAll (by omega)).bind fun vs _ => ih.apply (by omega)
  case get object name =>
    refine (ih.evaluate (by omega)).bind fun o _ => ?_
    exact expectInstance_settles.bind fun i _ => readProperty_settles
  case set object name value =>
    refine (ih.evaluate (by omega)).bind fun o _ => ?_
    refine expectInstance_settles.bind fun i _ => ?_
    refine (ih.evaluate (by omega)).bind fun v _ => ?_
    exact writeField_settles.bind fun _ _ => .pure trivial

theorem evaluateAll_settles {es : List (Expr Address)}
    (hn : Expr.extentAll es + reserve most calls ≤ n + 1) :
    Settles rules most calls (evaluateAll rules (n + 1) es) Whatever := by
  cases es <;> rw [evaluateAll] <;> simp only [Expr.extentAll] at hn
  case nil => exact .pure trivial
  case cons e rest =>
    refine (ih.evaluate (by omega)).bind fun v _ => ?_
    exact (ih.evaluateAll (by omega)).bind fun vs _ => .pure trivial

theorem apply_settles {paren : Token} {callee : Value} {args : List Value}
    (hn : reserve most calls + 1 ≤ n + 1) :
    Settles rules most calls (apply rules (n + 1) paren callee args) Whatever := by
  rw [apply]
  refine checkCall_settles.bind fun _ _ => .counted fun fewer hfewer => ih.invoke ?_
  rw [hfewer, reserve_succ] at hn
  omega

theorem invoke_settles {paren : Token} {callee : Value} {args : List Value}
    (hn : most + reserve most calls + 2 ≤ n + 1) :
    Settles rules most calls (invoke rules (n + 1) paren callee args) Whatever := by
  cases callee <;> simp only [invoke]
  case function f => exact fetchFunction_settles.bind fun fn hfn => ih.runFunction hfn (by omega)
  case native f => exact callNative_settles
  case classRef c =>
    refine instantiate_settles.bind fun made hinit => ?_
    obtain ⟨i, init⟩ := made
    cases init with
    | none => exact .pure trivial
    | some init =>
      exact (ih.runFunction (hinit init rfl) (by omega)).bind fun _ _ => .pure trivial
  all_goals exact .raise

theorem runFunction_settles {f : Function} {args : List Value} (hf : Stmt.Brief most f.decl)
    (hn : most + reserve most calls + 1 ≤ n + 1) :
    Settles rules most calls (runFunction rules (n + 1) f args) Whatever := by
  obtain ⟨hloopless, hextent⟩ := hf.body
  rw [runFunction]
  refine enterCall_settles.bind fun s _ => ?_
  refine (ih.executeAll hloopless hextent (by omega)).inScope.bind fun c _ => ?_
  exact leaveCall_settles

theorem execute_settles {s : Stmt Address} (hloopless : s.loopless = true)
    (hextent : s.extent ≤ most) (hn : s.extent + reserve most calls ≤ n + 1) :
    Settles rules most calls (execute rules (n + 1) s) Whatever := by
  cases s
  all_goals
    simp only [execute]
    simp only [Stmt.loopless, Bool.and_eq_true] at hloopless
    simp only [Stmt.extent] at hextent hn
  case expr e => exact (ih.evaluate (by omega)).bind fun _ _ => .pure trivial
  case print keyword value =>
    refine (ih.evaluate (by omega)).bind fun v _ => ?_
    exact print_settles.bind fun _ _ => .pure trivial
  case varDecl name initial =>
    refine (ih.evaluateOption (by omega)).bind fun v _ => ?_
    exact define_settles.bind fun _ _ => .pure trivial
  case block brace body =>
    exact (ih.executeAll hloopless (by omega) (by omega)).inNewScope
  case branch keyword cond yes no =>
    refine (ih.evaluate (by omega)).bind fun c _ => ?_
    split
    · exact ih.execute hloopless.1 (by omega) (by omega)
    · exact ih.executeOption hloopless.2 (by omega) (by omega)
  case loop keyword cond body => cases hloopless
  case forLoop keyword initial cond step body => cases hloopless
  case function decl =>
    exact (declareFunction_settles ⟨hloopless, by omega⟩).bind fun _ _ => .pure trivial
  case ret keyword value => exact (ih.evaluateOption (by omega)).bind fun v _ => .pure trivial
  case classDecl name superclass methods =>
    refine readSuperclass_settles.bind fun c _ => ?_
    have hmethods : ∀ decl ∈ methods, Stmt.Brief most decl := fun decl hdecl =>
      .of_mem hloopless (by omega) hdecl
    exact (declareClass_settles hmethods).bind fun _ _ => .pure trivial

theorem evaluateOption_settles {e : Option (Expr Address)}
    (hn : Expr.extentOption e + reserve most calls ≤ n + 1) :
    Settles rules most calls (evaluateOption rules (n + 1) e) Whatever := by
  cases e <;> rw [evaluateOption] <;> simp only [Expr.extentOption] at hn
  case none => exact .pure trivial
  case some e => exact ih.evaluate (by omega)

theorem executeOption_settles {s : Option (Stmt Address)}
    (hloopless : Stmt.looplessOption s = true) (hextent : Stmt.extentOption s ≤ most)
    (hn : Stmt.extentOption s + reserve most calls ≤ n + 1) :
    Settles rules most calls (executeOption rules (n + 1) s) Whatever := by
  cases s <;> rw [executeOption] <;> simp only [Stmt.extentOption] at hextent hn
  case none => exact .pure trivial
  case some s => exact ih.execute hloopless (by omega) (by omega)

theorem executeAll_settles {ss : List (Stmt Address)} (hloopless : Stmt.looplessAll ss = true)
    (hextent : Stmt.extentAll ss ≤ most)
    (hn : Stmt.extentAll ss + reserve most calls ≤ n + 1) :
    Settles rules most calls (executeAll rules (n + 1) ss) Whatever := by
  cases ss <;> rw [executeAll] <;> simp only [Stmt.extentAll] at hextent hn
  case nil => exact .pure trivial
  case cons s rest =>
    simp only [Stmt.looplessAll, Bool.and_eq_true] at hloopless
    refine (ih.execute hloopless.1 (by omega) (by omega)).bind fun c _ => ?_
    cases c with
    | returning v => exact .pure trivial
    | normal => exact ih.executeAll hloopless.2 (by omega) (by omega)

end

/-- **A bound that is enough is never reached.** -/
theorem settlesWithin (rules : Rules) (most : Nat) : ∀ n, SettlesWithin rules most n
  | 0 =>
    -- there is no code of extent 0
    { evaluate := fun {e _} hn => by
        have hpos := e.extent_pos
        omega
      evaluateAll := fun {es _} hn => by
        have hpos := Expr.extentAll_pos es
        omega
      apply := fun hn => by omega
      invoke := fun hn => by omega
      runFunction := fun _ hn => by omega
      execute := fun {s _} _ _ hn => by
        have hpos := s.extent_pos
        omega
      evaluateOption := fun {e _} hn => by
        have hpos := Expr.extentOption_pos e
        omega
      executeOption := fun {s _} _ _ hn => by
        have hpos := Stmt.extentOption_pos s
        omega
      executeAll := fun {ss _} _ _ hn => by
        have hpos := Stmt.extentAll_pos ss
        omega }
  | n + 1 =>
    have ih := settlesWithin rules most n
    { evaluate := evaluate_settles ih
      evaluateAll := evaluateAll_settles ih
      apply := apply_settles ih
      invoke := invoke_settles ih
      runFunction := runFunction_settles ih
      execute := execute_settles ih
      evaluateOption := evaluateOption_settles ih
      executeOption := executeOption_settles ih
      executeAll := executeAll_settles ih }

/-- **A program without loops ends**, within a bound for its extent and for
all the calls that may be opened. -/
theorem interpret_settles {bound : Nat} {p : Program Address}
    (hloopless : Stmt.looplessAll p = true) (hextent : Stmt.extentAll p ≤ most)
    (hbound : most + reserve most calls ≤ bound) :
    Settles rules most calls (interpret rules bound p) Whatever := by
  induction p with
  | nil => exact .pure trivial
  | cons s rest ih =>
    simp only [Stmt.looplessAll, Bool.and_eq_true] at hloopless
    rw [Stmt.extentAll] at hextent
    have hs : Settles rules most calls (execute rules bound s) Whatever :=
      (settlesWithin rules most bound).execute hloopless.1 (by omega) (by omega)
    exact hs.bind (f := fun _ => interpret rules bound rest) fun _ _ =>
      ih hloopless.2 (by omega)

end Eval

end TanLang
