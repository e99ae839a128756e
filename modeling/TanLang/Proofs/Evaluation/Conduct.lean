import TanLang.Proofs.Evaluation.Preservation
import TanLang.Proofs.Heap.Code
import TanLang.Proofs.Marks
import TanLang.Proofs.Scoping.Returns
import TanLang.Session
/-!
# Evaluation — what a run can do, whatever its code

However a run ends, the scope that was active before is active again, as
many calls are open, and the natives are the ones there were. A run makes
no code: the functions in the heap have marks of a kind if the code that is
run has. **Every runtime error points at a mark of the code**, and is one
that the mark is there for; and only a `return` that stands in a statement
can end it.

Nothing is asked of the code here, nor of the machine: the names need not
be resolved, and the scopes that the distances lead to need not be there.
-/

namespace TanLang

/-- The code in a heap has only marks of a kind. -/
structure Heap.Marked (P : Mark → Prop) (h : Heap) : Prop where
  functions : ∀ f fn, h.function? f = some fn → ∀ k ∈ Stmt.marksRoutine fn.decl, P k
  methods : ∀ c cls name fn, h.class? c = some cls → cls.methods.find? name = some fn →
    ∀ k ∈ Stmt.marksRoutine fn.decl, P k

namespace Heap.Marked

variable {P Q : Mark → Prop} {h h' : Heap}

/-- It is a property of the code. -/
theorem iff_holds : h.Marked P ↔ h.Holds fun decl => ∀ k ∈ Stmt.marksRoutine decl, P k :=
  ⟨fun hmarked => ⟨hmarked.functions, hmarked.methods⟩,
    fun hholds => ⟨hholds.functions, hholds.methods⟩⟩

theorem imp (hmarked : h.Marked P) (himp : ∀ k, P k → Q k) : h.Marked Q :=
  iff_holds.2 ((iff_holds.1 hmarked).imp fun _ hdecl k hk => himp k (hdecl k hk))

/-- Every heap has marks of some kind. -/
theorem of_true (h : Heap) : h.Marked fun _ => True where
  functions _ _ _ _ _ := trivial
  methods _ _ _ _ _ _ _ _ := trivial

/-- What leaves functions and classes alone adds no code. -/
theorem of_eq (hmarked : h.Marked P) (hfunctions : h'.functions = h.functions)
    (hclasses : h'.classes = h.classes) : h'.Marked P :=
  iff_holds.2 ((iff_holds.1 hmarked).of_eq hfunctions hclasses)

theorem newFunction (hmarked : h.Marked P) {f : Function}
    (hf : ∀ k ∈ Stmt.marksRoutine f.decl, P k) : (h.newFunction f).1.Marked P :=
  iff_holds.2 ((iff_holds.1 hmarked).newFunction hf)

theorem newClass (hmarked : h.Marked P) {cls : Class}
    (hcls : ∀ name fn, cls.methods.find? name = some fn → ∀ k ∈ Stmt.marksRoutine fn.decl, P k) :
    (h.newClass cls).1.Marked P :=
  iff_holds.2 ((iff_holds.1 hmarked).newClass hcls)

/-- The method that a class has is one that some class declared. -/
theorem method? (hmarked : h.Marked P) {c : ClassId} {name : Text} {fn : Function}
    (hfn : h.method? c name = some fn) : ∀ k ∈ Stmt.marksRoutine fn.decl, P k :=
  (iff_holds.1 hmarked).method? hfn

end Heap.Marked

namespace Eval

/-- **The runtime errors there are**, each at the mark that it points at. -/
inductive Raisable (P : Mark → Prop) (natives : Array Native) : RuntimeError → Prop where
  | sign {op : Token} {v : Value} {fault : Fault} (hmark : P (.sign op))
      (hfault : v.prefixed op = .error fault) : Raisable P natives ⟨fault, op⟩
  | operator {op : Token} {left right : Value} {fault : Fault} (hmark : P (.operator op))
      (hfault : Value.combine op left right = .error fault) : Raisable P natives ⟨fault, op⟩
  | undefinedVariable {t : Token} (hmark : P (.name t)) :
      Raisable P natives ⟨.undefinedVariable t.lexeme, t⟩
  | superclassNotClass {t : Token} (hmark : P (.name t)) :
      Raisable P natives ⟨.superclassNotClass, t⟩
  | undefinedProperty {t : Token} (hmark : P (.property t)) :
      Raisable P natives ⟨.undefinedProperty t.lexeme, t⟩
  | noProperties {t : Token} (hmark : P (.property t)) : Raisable P natives ⟨.noProperties, t⟩
  | noFields {t : Token} (hmark : P (.property t)) : Raisable P natives ⟨.noFields, t⟩
  | notCallable {t : Token} (hmark : P (.paren t)) : Raisable P natives ⟨.notCallable, t⟩
  | wrongArity {t : Token} {expected given : Nat} (hmark : P (.paren t)) :
      Raisable P natives ⟨.wrongArity expected given, t⟩
  | stackOverflow {t : Token} (hmark : P (.paren t)) : Raisable P natives ⟨.stackOverflow, t⟩
  | native {t : Token} {native : Native} {w : World} {args : List Argument} {message : Text}
      (hmark : P (.paren t)) (hmem : native ∈ natives) (hrun : native.run w args = .error message) :
      Raisable P natives ⟨.native message, t⟩

/-- **How a run leaves a machine.** -/
structure Leaves (P : Mark → Prop) (m m' : Machine) : Prop where
  active : m'.active = m.active
  depth : m'.depth = m.depth
  natives : m'.heap.natives = m.heap.natives
  marked : m'.heap.Marked P

variable {α β : Type} {P : Mark → Prop} {m m' m'' : Machine}

theorem Leaves.refl (h : m.heap.Marked P) : Leaves P m m := ⟨rfl, rfl, rfl, h⟩

theorem Leaves.of_heap {h : Heap} (hnatives : h.natives = m.heap.natives) (hmarked : h.Marked P) :
    Leaves P m { m with heap := h } :=
  ⟨rfl, rfl, hnatives, hmarked⟩

theorem Leaves.trans (h : Leaves P m m') (h' : Leaves P m' m'') : Leaves P m m'' :=
  ⟨h'.active.trans h.active, h'.depth.trans h.depth, h'.natives.trans h.natives, h'.marked⟩

/-- **What an outcome may be** of a run in a machine; what else holds of an
answer. -/
def Behaved (P : Mark → Prop) (m : Machine) (Then : α → Prop) : Outcome α → Prop
  | .done a m' => Leaves P m m' ∧ Then a
  | .raised error m' => Leaves P m m' ∧ Raisable P m.heap.natives error
  | .crashed m' => Leaves P m m'
  | .exhausted m' => Leaves P m m'

/-- **An action behaves** in every machine whose code has the right marks. -/
def Behaves (P : Mark → Prop) (x : Action α) (Then : α → Prop) : Prop :=
  ∀ m : Machine, m.heap.Marked P → Behaved P m Then (x m)

/-- Nothing else is asked of an answer. -/
def Whatever : α → Prop := fun _ => True

namespace Behaved

variable {Then : α → Prop} {o : Outcome α}

/-- However a run ends, it leaves the machine as it should. -/
theorem leaves (h : Behaved P m Then o) : Leaves P m o.machine := by
  cases o with
  | done a m' => exact h.1
  | raised error m' => exact h.1
  | crashed m' => exact h
  | exhausted m' => exact h

/-- What was run before leaves the natives that there were. -/
theorem after (h : Behaved P m' Then o) (hleaves : Leaves P m m') : Behaved P m Then o := by
  cases o with
  | done a m'' => exact ⟨hleaves.trans h.1, h.2⟩
  | raised error m'' => exact ⟨hleaves.trans h.1, hleaves.natives ▸ h.2⟩
  | crashed m'' => exact hleaves.trans h
  | exhausted m'' => exact hleaves.trans h

theorem mono {Then' : α → Prop} (h : Behaved P m Then o) (himp : ∀ a, Then a → Then' a) :
    Behaved P m Then' o := by
  cases o with
  | done a m' => exact ⟨h.1, himp a h.2⟩
  | raised error m' => exact h
  | crashed m' => exact h
  | exhausted m' => exact h

/-- The machine set up before a run and put back after it. -/
theorem around {g : Machine → Machine} (h : Behaved P m' Then o)
    (hnatives : m'.heap.natives = m.heap.natives)
    (hback : ∀ m'', Leaves P m' m'' → Leaves P m (g m'')) : Behaved P m Then (o.mapMachine g) := by
  cases o with
  | done a m'' => exact ⟨hback m'' h.1, h.2⟩
  | raised error m'' => exact ⟨hback m'' h.1, hnatives ▸ h.2⟩
  | crashed m'' => exact hback m'' h
  | exhausted m'' => exact hback m'' h

end Behaved

namespace Behaves

variable {x : Action α} {f : α → Action β} {Then : α → Prop} {After : β → Prop}

/-- **One action after another.** -/
theorem bind (hx : Behaves P x Then) (hf : ∀ a, Then a → Behaves P (f a) After) :
    Behaves P (x >>= f) After := by
  intro m hm
  change Behaved P m After (Action.andThen x f m)
  have hfirst := hx m hm
  unfold Action.andThen
  cases hxm : x m with
  | done a m' =>
    rw [hxm] at hfirst
    obtain ⟨hleaves, hthen⟩ := hfirst
    exact (hf a hthen m' hleaves.marked).after hleaves
  | raised error m' =>
    rw [hxm] at hfirst
    exact hfirst
  | crashed m' =>
    rw [hxm] at hfirst
    exact hfirst
  | exhausted m' =>
    rw [hxm] at hfirst
    exact hfirst

/-- What holds once an action has answered. -/
theorem of_eq_done (hx : Behaves P x Then) (hm : m.heap.Marked P) {a : α}
    (hdone : x m = .done a m') : Leaves P m m' ∧ Then a := by
  have hbehaved := hx m hm
  rw [hdone] at hbehaved
  exact hbehaved

theorem mono {Then' : α → Prop} (hx : Behaves P x Then) (himp : ∀ a, Then a → Then' a) :
    Behaves P x Then' :=
  fun m hm => (hx m hm).mono himp

theorem pure {a : α} (h : Then a) : Behaves P (Pure.pure a) Then :=
  fun _ hm => ⟨.refl hm, h⟩

theorem stop : Behaves P (Action.stop : Action α) Then := fun _ hm => .refl hm

theorem raise {token : Token} {fault : Fault} (h : ∀ natives, Raisable P natives ⟨fault, token⟩) :
    Behaves P (Action.raise token fault : Action α) Then :=
  fun m hm => ⟨.refl hm, h m.heap.natives⟩

theorem liftFault {token : Token} {result : Except Fault α}
    (h : ∀ fault, result = .error fault → ∀ natives, Raisable P natives ⟨fault, token⟩) :
    Behaves P (Action.liftFault token result) Whatever := by
  cases result with
  | ok a => exact .pure trivial
  | error fault => exact .raise (h fault rfl)

/-- An action in another scope: the one before it is active again. -/
theorem inScope {s : ScopeId} (hx : Behaves P x Then) : Behaves P (Action.inScope s x) Then :=
  fun m hm => (hx { m with active := s } hm).around rfl
    fun _ h => ⟨rfl, h.depth, h.natives, h.marked⟩

/-- An action counted as an open call: it is taken back. -/
theorem counted (hx : Behaves P x Then) : Behaves P (Action.counted x) Then :=
  fun m hm => (hx { m with depth := m.depth + 1 } hm).around rfl
    fun m' h => ⟨h.active, by simp only [h.depth, Nat.add_sub_cancel], h.natives, h.marked⟩

/-- An action in a new scope. -/
theorem inNewScope (hx : Behaves P x Then) : Behaves P (Action.inNewScope x) Then := by
  intro m hm
  have hopen : Leaves P m { m with heap := (m.heap.newScope (some m.active)).1 } :=
    .of_heap rfl (hm.of_eq rfl rfl)
  exact (hx.inScope _ hopen.marked).after hopen

end Behaves

/-! ## Single actions -/

section

variable {rules : Rules} {token : Token}

theorem read_behaves {address : Address} (hmark : P (.name token)) :
    Behaves P (Action.read rules token address) Whatever := by
  intro m hm
  unfold Action.read
  split
  · exact ⟨.refl hm, trivial⟩
  · exact ⟨.refl hm, .undefinedVariable hmark⟩
  · exact .refl hm

theorem write_behaves {address : Address} {v : Value} (hmark : P (.name token)) :
    Behaves P (Action.write rules token address v) Whatever := by
  intro m hm
  unfold Action.write
  split
  · exact ⟨.of_heap rfl (hm.of_eq rfl rfl), trivial⟩
  · exact ⟨.refl hm, .undefinedVariable hmark⟩
  · exact .refl hm

theorem print_behaves {v : Value} : Behaves P (Action.print v) Whatever :=
  fun _ hm => ⟨⟨rfl, rfl, rfl, hm⟩, trivial⟩

theorem define_behaves {x : Text} {v : Value} : Behaves P (Action.define x v) Whatever :=
  fun _ hm => ⟨.of_heap rfl (hm.of_eq rfl rfl), trivial⟩

theorem expectInstance_behaves {fault : Fault} {v : Value}
    (hfault : ∀ natives, Raisable P natives ⟨fault, token⟩) :
    Behaves P (expectInstance token fault v) Whatever := by
  cases v with
  | instanceRef i => exact .pure trivial
  | _ => exact .raise hfault

theorem readProperty_behaves {i : InstanceId} (hmark : P (.property token)) :
    Behaves P (readProperty i token) Whatever := by
  intro m hm
  unfold readProperty
  cases hproperty : m.heap.property? i token.lexeme with
  | none => exact ⟨.refl hm, .undefinedProperty hmark⟩
  | some p =>
    refine ⟨.of_heap ?_ ?_, trivial⟩
    · cases p <;> rfl
    · cases p with
      | field v => exact hm
      | method f =>
        -- the method is a new function with the code of the old one
        obtain ⟨c, hf⟩ := Heap.exists_method?_of_property? hproperty
        have hbind : (m.heap.bind f i).1.Marked P := hm.of_eq rfl rfl
        have hcode : ∀ k ∈ Stmt.marksRoutine f.decl, P k := hm.method? hf
        exact hbind.newFunction hcode

theorem writeField_behaves {i : InstanceId} {v : Value} :
    Behaves P (writeField i token v) Whatever :=
  fun _ hm => ⟨.of_heap rfl (hm.of_eq rfl rfl), trivial⟩

theorem declareFunction_behaves {decl : Routine (Stmt Address)}
    (hmarks : ∀ k ∈ Stmt.marksRoutine decl, P k) : Behaves P (declareFunction decl) Whatever := by
  intro m hm
  have hnew := hm.newFunction (f := ⟨decl, m.active, false⟩) hmarks
  exact ⟨.of_heap rfl (hnew.of_eq rfl rfl), trivial⟩

theorem declareClass_behaves {superclass : Option ClassId}
    {methods : List (Routine (Stmt Address))} (hmark : P (.name token))
    (hmarks : ∀ k ∈ Stmt.marksMethods methods, P k) :
    Behaves P (declareClass token superclass methods) Whatever := by
  intro m hm
  have hdefine : (m.heap.define m.active token.lexeme .nil).Marked P := hm.of_eq rfl rfl
  have hclass : ((m.heap.define m.active token.lexeme .nil).newClass
      ⟨token.lexeme, superclass, methodTable m.active methods⟩).1.Marked P :=
    hdefine.newClass fun name fn hfn k hk =>
      hmarks k (Stmt.marksRoutine_subset (of_find?_methodTable hfn).1 hk)
  unfold declareClass
  simp only
  split
  · exact ⟨.of_heap rfl (hclass.of_eq rfl rfl), trivial⟩
  · exact ⟨.of_heap rfl hclass, .undefinedVariable hmark⟩

theorem readSuperclass_behaves {superclass : Option (Token × Address)}
    (hmarks : ∀ k ∈ Stmt.marksSuperclass superclass, P k) :
    Behaves P (readSuperclass rules superclass) Whatever := by
  cases superclass with
  | none => exact .pure trivial
  | some named =>
    obtain ⟨name, address⟩ := named
    have hmark : P (.name name) := hmarks _ (List.mem_singleton_self _)
    refine (read_behaves hmark).bind fun v _ => ?_
    cases v with
    | classRef c => exact .pure trivial
    | _ => exact .raise fun _ => .superclassNotClass hmark

theorem checkCall_behaves {callee : Value} {given : Nat} (hmark : P (.paren token)) :
    Behaves P (checkCall token callee given) Whatever := by
  intro m hm
  unfold checkCall
  split
  · exact ⟨.refl hm, .notCallable hmark⟩
  · split
    · exact ⟨.refl hm, trivial⟩
    · exact ⟨.refl hm, .wrongArity hmark⟩

theorem checkDepth_behaves (hmark : P (.paren token)) :
    Behaves P (checkDepth rules token) Whatever := by
  intro m hm
  unfold checkDepth
  split
  · exact ⟨.refl hm, .stackOverflow hmark⟩
  · exact ⟨.refl hm, trivial⟩

theorem callNative_behaves {f : NativeId} {args : List Value} (hmark : P (.paren token)) :
    Behaves P (callNative rules token f args) Whatever := by
  intro m hm
  have hmarked : ∀ r, (m.heap.keep r).Marked P := fun _ => hm.of_eq rfl rfl
  refine callNative_cases (fun _ => ?_) (fun _ _ _ _ => ?_) fun _ _ hnative hrun => ?_
  · exact .refl hm
  · exact ⟨.of_heap rfl (hmarked _), trivial⟩
  · exact ⟨.of_heap rfl (hmarked _), .native hmark (Array.mem_of_getElem? hnative) hrun⟩

/-- What sets up an instance has the right marks. -/
theorem instantiate_behaves {c : ClassId} :
    Behaves P (instantiate c) fun made => ∀ init, made.2 = some init →
      ∀ k ∈ Stmt.marksRoutine init.decl, P k := by
  intro m hm
  have hinstance : (m.heap.newInstance c).1.Marked P := hm.of_eq rfl rfl
  unfold instantiate
  simp only
  split
  · refine ⟨.of_heap rfl hinstance, fun init hinit => ?_⟩
    cases hinit
  · rename_i method hmethod
    have hcode : ∀ k ∈ Stmt.marksRoutine method.decl, P k := hinstance.method? hmethod
    refine ⟨.of_heap rfl (hinstance.of_eq rfl rfl), fun init hinit => ?_⟩
    cases hinit
    exact hcode

theorem fetchFunction_behaves {f : FunctionId} :
    Behaves P (fetchFunction f) fun fn => ∀ k ∈ Stmt.marksRoutine fn.decl, P k := by
  intro m hm
  unfold fetchFunction
  split
  · rename_i fn hfn
    exact ⟨.refl hm, hm.functions f fn hfn⟩
  · exact .refl hm

/-- Binding parameters leaves everything but the scopes alone. -/
theorem defineAll_heap (s : ScopeId) : ∀ (params : List Token) (args : List Value) (h : Heap),
    ∃ scopes, h.defineAll s params args = { h with scopes := scopes }
  | [], _, h => ⟨h.scopes, rfl⟩
  | _ :: _, [], h => ⟨h.scopes, rfl⟩
  | p :: params, arg :: args, h => by
    obtain ⟨scopes, hrest⟩ := defineAll_heap s params args (h.define s p.lexeme arg)
    exact ⟨scopes, hrest⟩

theorem enterCall_behaves {f : Function} {args : List Value} :
    Behaves P (enterCall f args) Whatever := by
  intro m hm
  unfold enterCall
  split
  · exact .refl hm
  · obtain ⟨scopes, hscopes⟩ := defineAll_heap (m.heap.newScope (some f.closure)).2
      f.decl.params args (m.heap.newScope (some f.closure)).1
    have hheap : (m.heap.enter f args).1 = { m.heap with scopes := scopes } := hscopes
    simp only [hheap]
    exact ⟨.of_heap rfl (hm.of_eq rfl rfl), trivial⟩

theorem leaveCall_behaves {f : Function} {c : Completion} :
    Behaves P (leaveCall f c) Whatever :=
  fun _ hm => ⟨.refl hm, trivial⟩

end

/-! ## Code -/

/-- What does not return runs to its end. -/
def Finishes (returns : Bool) (c : Completion) : Prop := returns = false → c = .normal

/-- **What code with the right marks does within a bound.** -/
structure BehavesWithin (P : Mark → Prop) (rules : Rules) (n : Nat) : Prop where
  evaluate : ∀ {e}, (∀ k ∈ e.marks, P k) → Behaves P (evaluate rules n e) Whatever
  evaluateAll : ∀ {es}, (∀ k ∈ Expr.marksAll es, P k) → Behaves P (evaluateAll rules n es) Whatever
  apply : ∀ {paren callee args}, P (.paren paren) →
    Behaves P (apply rules n paren callee args) Whatever
  invoke : ∀ {paren callee args}, P (.paren paren) →
    Behaves P (invoke rules n paren callee args) Whatever
  runFunction : ∀ {f args}, (∀ k ∈ Stmt.marksRoutine f.decl, P k) →
    Behaves P (runFunction rules n f args) Whatever
  execute : ∀ {s}, (∀ k ∈ s.marks, P k) → Behaves P (execute rules n s) (Finishes s.returns)
  evaluateOption : ∀ {e}, (∀ k ∈ Expr.marksOption e, P k) →
    Behaves P (evaluateOption rules n e) Whatever
  executeOption : ∀ {s}, (∀ k ∈ Stmt.marksOption s, P k) →
    Behaves P (executeOption rules n s) (Finishes (Stmt.returnsOption s))
  executeAll : ∀ {ss}, (∀ k ∈ Stmt.marksAll ss, P k) →
    Behaves P (executeAll rules n ss) (Finishes (Stmt.returnsAny ss))
  repeatWhile : ∀ {cond body}, (∀ k ∈ cond.marks, P k) → (∀ k ∈ Stmt.marksOption body, P k) →
    Behaves P (repeatWhile rules n cond body) (Finishes (Stmt.returnsOption body))
  repeatFor : ∀ {cond step body}, (∀ k ∈ Expr.marksOption cond, P k) →
    (∀ k ∈ Expr.marksOption step, P k) → (∀ k ∈ Stmt.marksOption body, P k) →
    Behaves P (repeatFor rules n cond step body) (Finishes (Stmt.returnsOption body))
  evaluateCondition : ∀ {e}, (∀ k ∈ Expr.marksOption e, P k) →
    Behaves P (evaluateCondition rules n e) Whatever

section

variable {rules : Rules} {n : Nat} (ih : BehavesWithin P rules n)

include ih

theorem evaluate_behaves {e : Expr Address} (hmarks : ∀ k ∈ e.marks, P k) :
    Behaves P (evaluate rules (n + 1) e) Whatever := by
  cases e <;> rw [evaluate]
  all_goals simp only [Expr.marks, List.forall_mem_cons, List.forall_mem_append] at hmarks
  case literal token value => exact .pure trivial
  case grouping paren inner => exact ih.evaluate hmarks
  case unary op operand =>
    obtain ⟨hop, hoperand⟩ := hmarks
    refine (ih.evaluate hoperand).bind fun v _ => ?_
    exact .liftFault fun fault hfault _ => .sign hop hfault
  case binary left op right =>
    obtain ⟨hop, hleft, hright⟩ := hmarks
    refine (ih.evaluate hleft).bind fun l _ => ?_
    refine (ih.evaluate hright).bind fun r _ => ?_
    exact .liftFault fun fault hfault _ => .operator hop hfault
  case ternary cond mark yes no =>
    obtain ⟨hcond, hyes, hno⟩ := hmarks
    refine (ih.evaluate hcond).bind fun c _ => ?_
    split
    · exact ih.evaluate hyes
    · exact ih.evaluate hno
  case logical left op right =>
    obtain ⟨hleft, hright⟩ := hmarks
    refine (ih.evaluate hleft).bind fun l _ => ?_
    split
    · exact .pure trivial
    · exact ih.evaluate hright
  case var name address => exact read_behaves hmarks.1
  case receiver keyword address => exact read_behaves hmarks.1
  case assign name address value =>
    obtain ⟨hname, hvalue⟩ := hmarks
    refine (ih.evaluate hvalue).bind fun v _ => ?_
    exact (write_behaves hname).bind fun _ _ => .pure trivial
  case call callee paren args =>
    obtain ⟨hparen, hcallee, hargs⟩ := hmarks
    refine (ih.evaluate hcallee).bind fun f _ => ?_
    exact (ih.evaluateAll hargs).bind fun vs _ => ih.apply hparen
  case get object name =>
    obtain ⟨hname, hobject⟩ := hmarks
    refine (ih.evaluate hobject).bind fun o _ => ?_
    refine (expectInstance_behaves fun _ => .noProperties hname).bind fun i _ => ?_
    exact readProperty_behaves hname
  case set object name value =>
    obtain ⟨hname, hobject, hvalue⟩ := hmarks
    refine (ih.evaluate hobject).bind fun o _ => ?_
    refine (expectInstance_behaves fun _ => .noFields hname).bind fun i _ => ?_
    refine (ih.evaluate hvalue).bind fun v _ => ?_
    exact writeField_behaves.bind fun _ _ => .pure trivial

theorem evaluateAll_behaves {es : List (Expr Address)} (hmarks : ∀ k ∈ Expr.marksAll es, P k) :
    Behaves P (evaluateAll rules (n + 1) es) Whatever := by
  cases es <;> rw [evaluateAll]
  case nil => exact .pure trivial
  case cons e rest =>
    obtain ⟨he, hrest⟩ := List.forall_mem_append.1 hmarks
    refine (ih.evaluate he).bind fun v _ => ?_
    exact (ih.evaluateAll hrest).bind fun vs _ => .pure trivial

theorem apply_behaves {paren : Token} {callee : Value} {args : List Value}
    (hmark : P (.paren paren)) : Behaves P (apply rules (n + 1) paren callee args) Whatever := by
  rw [apply]
  refine (checkCall_behaves hmark).bind fun _ _ => ?_
  exact (checkDepth_behaves hmark).bind fun _ _ => (ih.invoke hmark).counted

theorem invoke_behaves {paren : Token} {callee : Value} {args : List Value}
    (hmark : P (.paren paren)) : Behaves P (invoke rules (n + 1) paren callee args) Whatever := by
  cases callee <;> simp only [invoke]
  case function f => exact fetchFunction_behaves.bind fun fn hfn => ih.runFunction hfn
  case native f => exact callNative_behaves hmark
  case classRef c =>
    refine instantiate_behaves.bind fun made hinit => ?_
    obtain ⟨i, init⟩ := made
    cases init with
    | none => exact .pure trivial
    | some init => exact (ih.runFunction (hinit init rfl)).bind fun _ _ => .pure trivial
  all_goals exact .raise fun _ => .notCallable hmark

theorem runFunction_behaves {f : Function} {args : List Value}
    (hmarks : ∀ k ∈ Stmt.marksRoutine f.decl, P k) :
    Behaves P (runFunction rules (n + 1) f args) Whatever := by
  rw [Stmt.marksRoutine_eq] at hmarks
  rw [runFunction]
  refine enterCall_behaves.bind fun s _ => ?_
  exact (ih.executeAll hmarks).inScope.bind fun c _ => leaveCall_behaves

theorem execute_behaves {s : Stmt Address} (hmarks : ∀ k ∈ s.marks, P k) :
    Behaves P (execute rules (n + 1) s) (Finishes s.returns) := by
  cases s
  all_goals
    simp only [execute, Stmt.returns]
    simp only [Stmt.marks, List.forall_mem_cons, List.forall_mem_append] at hmarks
  case expr e => exact (ih.evaluate hmarks).bind fun _ _ => .pure fun _ => rfl
  case print keyword value =>
    refine (ih.evaluate hmarks).bind fun v _ => ?_
    exact print_behaves.bind fun _ _ => .pure fun _ => rfl
  case varDecl name initial =>
    refine (ih.evaluateOption hmarks).bind fun v _ => ?_
    exact define_behaves.bind fun _ _ => .pure fun _ => rfl
  case block brace body => exact (ih.executeAll hmarks).inNewScope
  case branch keyword cond yes no =>
    obtain ⟨hcond, hyes, hno⟩ := hmarks
    refine (ih.evaluate hcond).bind fun c _ => ?_
    split
    · exact (ih.execute hyes).mono fun c hc h => hc (Bool.or_eq_false_iff.1 h).1
    · exact (ih.executeOption hno).mono fun c hc h => hc (Bool.or_eq_false_iff.1 h).2
  case loop keyword cond body => exact ih.repeatWhile hmarks.1 hmarks.2
  case forLoop keyword initial cond step body =>
    obtain ⟨hinitial, hcond, hbody, hstep⟩ := hmarks
    cases initial with
    | none => exact ih.repeatFor hcond hstep hbody
    | some initial =>
      have hloop := ih.repeatFor hcond hstep hbody
      exact ((ih.execute hinitial).bind fun _ _ => hloop).inNewScope
  case function decl => exact (declareFunction_behaves hmarks).bind fun _ _ => .pure fun _ => rfl
  case ret keyword value =>
    refine (ih.evaluateOption hmarks).bind fun v _ => .pure fun h => ?_
    cases h
  case classDecl name superclass methods =>
    obtain ⟨hname, hsuperclass, hmethods⟩ := hmarks
    refine (readSuperclass_behaves hsuperclass).bind fun c _ => ?_
    exact (declareClass_behaves hname hmethods).bind fun _ _ => .pure fun _ => rfl

theorem evaluateOption_behaves {e : Option (Expr Address)}
    (hmarks : ∀ k ∈ Expr.marksOption e, P k) :
    Behaves P (evaluateOption rules (n + 1) e) Whatever := by
  cases e <;> rw [evaluateOption]
  case none => exact .pure trivial
  case some e => exact ih.evaluate hmarks

theorem executeOption_behaves {s : Option (Stmt Address)}
    (hmarks : ∀ k ∈ Stmt.marksOption s, P k) :
    Behaves P (executeOption rules (n + 1) s) (Finishes (Stmt.returnsOption s)) := by
  cases s <;> rw [executeOption]
  case none => exact .pure fun _ => rfl
  case some s => exact ih.execute hmarks

theorem executeAll_behaves {ss : List (Stmt Address)} (hmarks : ∀ k ∈ Stmt.marksAll ss, P k) :
    Behaves P (executeAll rules (n + 1) ss) (Finishes (Stmt.returnsAny ss)) := by
  cases ss <;> rw [executeAll]
  case nil => exact .pure fun _ => rfl
  case cons s rest =>
    obtain ⟨hs, hrest⟩ := List.forall_mem_append.1 hmarks
    refine (ih.execute hs).bind fun c hc => ?_
    cases c with
    | returning v => exact .pure fun h => hc (Bool.or_eq_false_iff.1 h).1
    | normal => exact (ih.executeAll hrest).mono fun c hc h => hc (Bool.or_eq_false_iff.1 h).2

theorem repeatWhile_behaves {cond : Expr Address} {body : Option (Stmt Address)}
    (hcond : ∀ k ∈ cond.marks, P k) (hbody : ∀ k ∈ Stmt.marksOption body, P k) :
    Behaves P (repeatWhile rules (n + 1) cond body) (Finishes (Stmt.returnsOption body)) := by
  rw [repeatWhile]
  refine (ih.evaluate hcond).bind fun v _ => ?_
  split
  · refine (ih.executeOption hbody).bind fun c hc => ?_
    cases c with
    | returning v => exact .pure hc
    | normal => exact ih.repeatWhile hcond hbody
  · exact .pure fun _ => rfl

theorem repeatFor_behaves {cond step : Option (Expr Address)} {body : Option (Stmt Address)}
    (hcond : ∀ k ∈ Expr.marksOption cond, P k) (hstep : ∀ k ∈ Expr.marksOption step, P k)
    (hbody : ∀ k ∈ Stmt.marksOption body, P k) :
    Behaves P (repeatFor rules (n + 1) cond step body) (Finishes (Stmt.returnsOption body)) := by
  rw [repeatFor]
  refine (ih.evaluateCondition hcond).bind fun v _ => ?_
  split
  · refine (ih.executeOption hbody).bind fun c hc => ?_
    cases c with
    | returning v => exact .pure hc
    | normal =>
      exact (ih.evaluateOption hstep).bind fun _ _ => ih.repeatFor hcond hstep hbody
  · exact .pure fun _ => rfl

theorem evaluateCondition_behaves {e : Option (Expr Address)}
    (hmarks : ∀ k ∈ Expr.marksOption e, P k) :
    Behaves P (evaluateCondition rules (n + 1) e) Whatever := by
  cases e <;> rw [evaluateCondition]
  case none => exact .pure trivial
  case some e => exact ih.evaluate hmarks

end

/-- **Running code with the right marks behaves**, whatever the bound. -/
theorem behavesWithin (rules : Rules) : ∀ n, BehavesWithin P rules n
  | 0 =>
    { evaluate := fun _ => .stop
      evaluateAll := fun _ => .stop
      apply := fun _ => .stop
      invoke := fun _ => .stop
      runFunction := fun _ => .stop
      execute := fun _ => .stop
      evaluateOption := fun _ => .stop
      executeOption := fun _ => .stop
      executeAll := fun _ => .stop
      repeatWhile := fun _ _ => .stop
      repeatFor := fun _ _ _ => .stop
      evaluateCondition := fun _ => .stop }
  | n + 1 =>
    have ih := behavesWithin rules n
    { evaluate := evaluate_behaves ih
      evaluateAll := evaluateAll_behaves ih
      apply := apply_behaves ih
      invoke := invoke_behaves ih
      runFunction := runFunction_behaves ih
      execute := execute_behaves ih
      evaluateOption := evaluateOption_behaves ih
      executeOption := executeOption_behaves ih
      executeAll := executeAll_behaves ih
      repeatWhile := repeatWhile_behaves ih
      repeatFor := repeatFor_behaves ih
      evaluateCondition := evaluateCondition_behaves ih }

/-- **A program with the right marks behaves.** -/
theorem interpret_behaves {rules : Rules} {bound : Nat} {p : Program Address}
    (hmarks : ∀ k ∈ Stmt.marksAll p, P k) : Behaves P (interpret rules bound p) Whatever := by
  induction p with
  | nil => exact .pure trivial
  | cons s rest ih =>
    obtain ⟨hs, hrest⟩ := List.forall_mem_append.1 hmarks
    exact ((behavesWithin rules bound).execute hs).bind
      (f := fun _ => interpret rules bound rest) fun _ _ => ih hrest

end Eval

end TanLang
