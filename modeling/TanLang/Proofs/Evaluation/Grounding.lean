import TanLang.Proofs.Evaluation.Course
import TanLang.Proofs.Evaluation.Cutting
import TanLang.Proofs.Evaluation.Preservation
import TanLang.Proofs.Heap.Grounding
/-!
# Evaluation — a run keeps the heap grounded

A run that starts in a grounded heap makes only things that refer to what is
there: a value comes from a scope, a field or a thing just made, and a class
inherits from one that a value referred to. So **the heap is grounded at
every moment of the run**, whatever the code is.
-/

namespace TanLang

/-- The heap of a machine is grounded, and its active scope is there. -/
structure Machine.Grounded (m : Machine) : Prop where
  heap : m.heap.Grounded
  active : m.active.index < m.heap.scopes.size

/-- What a completion returns refers to something that is there. -/
def Completion.Grounded (h : Heap) (c : Completion) : Prop := ∀ v, c = .returning v → h.Knows v

namespace Eval

variable {α β : Type} {base : Heap} {m m' : Machine}

/-! ## Actions -/

/-- **How an action leaves a machine**: its heap grew and is grounded, and
the same scope is active. What else holds of an answer in the heap there is
then. -/
structure Rests (m : Machine) (Then : Heap → α → Prop) (o : Outcome α) : Prop where
  heap : Heap.Grounded.To m.heap o.machine.heap
  active : o.machine.active = m.active
  answer : ∀ a m', o = .done a m' → Then m'.heap a

/-- **An action keeps a machine grounded** whose heap grew from a given one:
what was known in that one still is. -/
def Grounds (base : Heap) (x : Action α) (Then : Heap → α → Prop) : Prop :=
  ∀ m : Machine, m.Grounded → base.Grown m.heap → Rests m Then (x m)

/-- Nothing else is asked of an answer. -/
def Unasked : Heap → α → Prop := fun _ _ => True

/-- A value as an answer: it refers to something that is there. -/
def Known (h : Heap) (v : Value) : Prop := h.Knows v

theorem Rests.grounded {Then : Heap → α → Prop} {o : Outcome α} (h : Rests m Then o)
    (hm : m.Grounded) : o.machine.Grounded where
  heap := h.heap.grounded
  active := by
    rw [h.active]
    exact Nat.lt_of_lt_of_le hm.active h.heap.grown.scopes

namespace Grounds

variable {x : Action α} {f : α → Action β} {Then : Heap → α → Prop} {After : Heap → β → Prop}

/-- What holds once an action has answered. -/
theorem of_eq_done (hx : Grounds base x Then) (hm : m.Grounded) (hbase : base.Grown m.heap)
    {a : α} (hdone : x m = .done a m') :
    m'.Grounded ∧ m.heap.Grown m'.heap ∧ Then m'.heap a := by
  have hrests := hx m hm hbase
  rw [hdone] at hrests
  exact ⟨hrests.grounded hm, hrests.heap.grown, hrests.answer a m' rfl⟩

/-- **One action after another.** The second starts from a heap in which the
answer of the first is known. -/
theorem bind (hx : Grounds base x Then)
    (hf : ∀ next a, base.Grown next → Then next a → Grounds next (f a) After) :
    Grounds base (x >>= f) After := by
  intro m hm hbase
  have hfirst := hx m hm hbase
  rcases (x m).done_or_halt with ⟨a, m', hdone⟩ | ⟨k, hhalt⟩
  · obtain ⟨hm', hgrown, hthen⟩ := hx.of_eq_done hm hbase hdone
    have hsecond := hf m'.heap a (hbase.trans hgrown) hthen m' hm' (.refl _)
    rw [hdone] at hfirst
    rw [bind_of_done hdone]
    exact ⟨hfirst.heap.trans hsecond.heap, hsecond.active.trans hfirst.active, hsecond.answer⟩
  · obtain ⟨hsame, hmachine⟩ := bind_of_halt (f := f) hhalt
    refine ⟨?_, ?_, fun b m' hdone => ?_⟩
    · rw [hmachine]
      exact hfirst.heap
    · rw [hmachine]
      exact hfirst.active
    · rw [hdone] at hsame
      cases hsame

/-- An action that leaves the heap and the active scope alone. -/
theorem of_same (h : ∀ m : Machine, m.Grounded → base.Grown m.heap →
    (x m).machine.heap = m.heap ∧ (x m).machine.active = m.active ∧
      ∀ a m', x m = .done a m' → Then m.heap a) : Grounds base x Then := by
  intro m hm hbase
  obtain ⟨hheap, hactive, hanswer⟩ := h m hm hbase
  refine ⟨?_, hactive, fun a m' hdone => ?_⟩
  · rw [hheap]
    exact ⟨hm.heap, .refl _⟩
  · rw [hdone] at hheap
    have hsame : m'.heap = m.heap := hheap
    rw [hsame]
    exact hanswer a m' hdone

theorem pure {a : α} (h : ∀ h, base.Grown h → Then h a) : Grounds base (Pure.pure a) Then := by
  refine of_same fun m _ hbase => ⟨rfl, rfl, ?_⟩
  rintro _ _ ⟨⟩
  exact h m.heap hbase

theorem stop : Grounds base (Action.stop : Action α) Then :=
  of_same fun _ _ _ => ⟨rfl, rfl, fun _ _ h => nomatch h⟩

theorem raise {token : Token} {fault : Fault} :
    Grounds base (Action.raise token fault : Action α) Then :=
  of_same fun _ _ _ => ⟨rfl, rfl, fun _ _ h => nomatch h⟩

/-- An action in a scope that is there. -/
theorem inScope {s : ScopeId} (hs : s.index < base.scopes.size) (hx : Grounds base x Then) :
    Grounds base (Action.inScope s x) Then := by
  intro m hm hbase
  have hthere : s.index < m.heap.scopes.size := Nat.lt_of_lt_of_le hs hbase.scopes
  have hinner := hx { m with active := s } ⟨hm.heap, hthere⟩ hbase
  unfold Action.inScope
  simp only
  refine ⟨?_, ?_, fun a m' hdone => ?_⟩
  · rw [Outcome.machine_mapMachine]
    exact hinner.heap
  · rw [Outcome.machine_mapMachine]
  · cases hout : x { m with active := s } with
    | done b m₁ =>
      rw [hout] at hdone
      cases hdone
      exact hinner.answer a m₁ hout
    | raised error m₁ | crashed m₁ | exhausted m₁ =>
      rw [hout] at hdone
      cases hdone

/-- An action in a new scope inside the active one. -/
theorem inNewScope (hx : ∀ next, base.Grown next → Grounds next x Then) :
    Grounds base (Action.inNewScope x) Then := by
  intro m hm hbase
  have hto := hm.heap.newScope hm.active
  have hnew : (m.heap.newScope (some m.active)).2.index <
      (m.heap.newScope (some m.active)).1.scopes.size := by simp [Heap.newScope]
  have hactive : m.active.index < (m.heap.newScope (some m.active)).1.scopes.size :=
    Nat.lt_of_lt_of_le hm.active hto.grown.scopes
  have hinner := (hx _ (hbase.trans hto.grown)).inScope hnew
    { m with heap := (m.heap.newScope (some m.active)).1 } ⟨hto.grounded, hactive⟩ (.refl _)
  exact ⟨hto.trans hinner.heap, hinner.active, hinner.answer⟩

theorem counted (hx : Grounds base x Then) : Grounds base (Action.counted x) Then := by
  intro m hm hbase
  have hinner := hx { m with depth := m.depth + 1 } ⟨hm.heap, hm.active⟩ hbase
  unfold Action.counted
  refine ⟨?_, ?_, fun a m' hdone => ?_⟩
  · rw [Outcome.machine_mapMachine]
    exact hinner.heap
  · rw [Outcome.machine_mapMachine]
    exact hinner.active
  · cases hout : x { m with depth := m.depth + 1 } with
    | done b m₁ =>
      rw [hout] at hdone
      cases hdone
      exact hinner.answer a m₁ hout
    | raised error m₁ | crashed m₁ | exhausted m₁ =>
      rw [hout] at hdone
      cases hdone

theorem liftFault {token : Token} {r : Except Fault α} (h : ∀ a h, r = .ok a → Then h a) :
    Grounds base (Action.liftFault token r) Then := by
  cases r with
  | ok a => exact pure fun heap _ => h a heap rfl
  | error fault => exact raise

end Grounds

/-! ## Single actions -/

section

variable {rules : Rules} {token : Token}

theorem read_grounds {address : Address} :
    Grounds base (Action.read rules token address) Known := by
  refine .of_same fun m hm _ => ?_
  unfold Action.read
  split
  · refine ⟨rfl, rfl, ?_⟩
    rintro _ _ ⟨⟩
    exact hm.heap.knows_boundIn _ _
  · exact ⟨rfl, rfl, fun _ _ h => nomatch h⟩
  · exact ⟨rfl, rfl, fun _ _ h => nomatch h⟩

theorem write_grounds {address : Address} {v : Value} (hv : base.Knows v) :
    Grounds base (Action.write rules token address v) Unasked := by
  intro m hm hbase
  unfold Action.write
  split
  · exact ⟨hm.heap.define (hv.grow hbase), rfl, fun _ _ _ => trivial⟩
  · exact ⟨⟨hm.heap, .refl _⟩, rfl, fun _ _ _ => trivial⟩
  · exact ⟨⟨hm.heap, .refl _⟩, rfl, fun _ _ _ => trivial⟩

/-- What an operator answers with refers to nothing. -/
theorem knows_prefixed {op : Token} {v r : Value} (h : Heap) (hr : v.prefixed op = .ok r) :
    h.Knows r := by
  unfold Value.prefixed at hr
  split at hr
  · cases hr
    trivial
  · split at hr
    · cases hr
      trivial
    · cases hr
  · cases hr

theorem knows_combine {op : Token} {l r v : Value} (h : Heap) (hv : Value.combine op l r = .ok v) :
    h.Knows v := by
  unfold Value.combine at hv
  split at hv
  · cases hv
    trivial
  · cases hv
    trivial
  · unfold Value.sum at hv
    split at hv <;> cases hv <;> trivial
  · split at hv
    · unfold Value.numeric at hv
      split at hv
      case h_3 =>
        split at hv
        · cases hv
        · cases hv
          trivial
      all_goals cases hv <;> trivial
    · cases hv

theorem print_grounds {v : Value} : Grounds base (Action.print v) Unasked :=
  .of_same fun _ _ _ => ⟨rfl, rfl, fun _ _ _ => trivial⟩

theorem define_grounds {name : Text} {v : Value} (hv : base.Knows v) :
    Grounds base (Action.define name v) Unasked :=
  fun _ hm hbase => ⟨hm.heap.define (hv.grow hbase), rfl, fun _ _ _ => trivial⟩

theorem expectInstance_grounds {fault : Fault} {v : Value} :
    Grounds base (expectInstance token fault v) Unasked := by
  cases v with
  | instanceRef i => exact .pure fun _ _ => trivial
  | _ => exact .raise

theorem readProperty_grounds {i : InstanceId} : Grounds base (readProperty i token) Known := by
  intro m hm _
  unfold readProperty
  split
  · exact ⟨⟨hm.heap, .refl _⟩, rfl, fun _ _ h => nomatch h⟩
  · rename_i p hp
    obtain ⟨hto, hknows⟩ := hm.heap.fetch hp
    refine ⟨hto, rfl, ?_⟩
    rintro _ _ ⟨⟩
    exact hknows

theorem writeField_grounds {i : InstanceId} {v : Value} (hv : base.Knows v) :
    Grounds base (writeField i token v) Unasked :=
  fun _ hm hbase => ⟨hm.heap.setField (hv.grow hbase), rfl, fun _ _ _ => trivial⟩

theorem declareFunction_grounds {decl : Routine (Stmt Address)} :
    Grounds base (declareFunction decl) Unasked := by
  intro m hm _
  have hnew := hm.heap.newFunction (f := ⟨decl, m.active, false⟩) hm.active
  have hknows : (m.heap.newFunction ⟨decl, m.active, false⟩).1.Knows
      (.function (m.heap.newFunction ⟨decl, m.active, false⟩).2) := by
    simp [Heap.Knows, Heap.newFunction]
  exact ⟨hnew.trans (hnew.grounded.define hknows), rfl, fun _ _ _ => trivial⟩

/-- A class inherits from one that is there, so from an earlier one. -/
theorem declareClass_grounds {superclass : Option ClassId}
    {methods : List (Routine (Stmt Address))}
    (hsuperclass : ∀ sup, superclass = some sup → sup.index < base.classes.size) :
    Grounds base (declareClass token superclass methods) Unasked := by
  intro m hm hbase
  have hdefine := hm.heap.define (s := m.active) (x := token.lexeme) (v := .nil) trivial
  have hgrown := hbase.trans hdefine.grown
  have hclass : Heap.Grounded.To (m.heap.define m.active token.lexeme .nil)
      ((m.heap.define m.active token.lexeme .nil).newClass
        ⟨token.lexeme, superclass, methodTable m.active methods⟩).1 := by
    refine hdefine.grounded.newClass (fun sup hsup => ?_) fun name fn hfn => ?_
    · exact Nat.lt_of_lt_of_le (hsuperclass sup hsup) hgrown.classes
    · rw [Function.Grounded, (of_find?_methodTable hfn).2.1]
      exact Nat.lt_of_lt_of_le hm.active hdefine.grown.scopes
  unfold declareClass
  simp only
  split
  · have hknows : ((m.heap.define m.active token.lexeme .nil).newClass
        ⟨token.lexeme, superclass, methodTable m.active methods⟩).1.Knows
        (.classRef ((m.heap.define m.active token.lexeme .nil).newClass
          ⟨token.lexeme, superclass, methodTable m.active methods⟩).2) := by
      simp [Heap.Knows, Heap.newClass]
    exact ⟨hdefine.trans (hclass.trans (hclass.grounded.define hknows)), rfl,
      fun _ _ _ => trivial⟩
  · exact ⟨hdefine.trans hclass, rfl, fun _ _ _ => trivial⟩

theorem readSuperclass_grounds {superclass : Option (Token × Address)} :
    Grounds base (readSuperclass rules superclass) fun h c =>
      ∀ sup, c = some sup → sup.index < h.classes.size := by
  cases superclass with
  | none => exact .pure fun _ _ => nofun
  | some named =>
    refine read_grounds.bind fun next v _ hv => ?_
    cases v with
    | classRef c =>
      refine .pure fun h hgrown => ?_
      rintro sup ⟨⟩
      exact Nat.lt_of_lt_of_le hv hgrown.classes
    | _ => exact .raise

theorem checkCall_grounds {callee : Value} {given : Nat} :
    Grounds base (checkCall token callee given) Unasked := by
  refine .of_same fun m _ _ => ?_
  unfold checkCall
  split
  · exact ⟨rfl, rfl, fun _ _ _ => trivial⟩
  · split
    · exact ⟨rfl, rfl, fun _ _ _ => trivial⟩
    · exact ⟨rfl, rfl, fun _ _ _ => trivial⟩

theorem checkDepth_grounds : Grounds base (checkDepth rules token) Unasked := by
  refine .of_same fun m _ _ => ?_
  unfold checkDepth
  split
  · exact ⟨rfl, rfl, fun _ _ _ => trivial⟩
  · exact ⟨rfl, rfl, fun _ _ _ => trivial⟩

theorem callNative_grounds {f : NativeId} {args : List Value} :
    Grounds base (callNative rules token f args) Known := by
  intro m hm _
  have hkept : ∀ r, Heap.Grounded.To m.heap (m.keep r).heap := hm.heap.keep
  refine callNative_cases (fun _ => ?_) (fun native v hnative hrun => ?_) fun _ _ _ _ => ?_
  · exact ⟨⟨hm.heap, .refl _⟩, rfl, nofun⟩
  · refine ⟨hkept _, rfl, ?_⟩
    rintro _ _ ⟨⟩
    exact hm.heap.natives f native hnative _ _ v hrun _
  · exact ⟨hkept _, rfl, nofun⟩

/-- A new instance and what sets it up. -/
theorem instantiate_grounds {c : ClassId} (hc : c.index < base.classes.size) :
    Grounds base (instantiate c) fun h made => h.Knows (.instanceRef made.1) ∧
      ∀ init, made.2 = some init → init.Grounded h := by
  intro m hm hbase
  have hnew := hm.heap.newInstance (Nat.lt_of_lt_of_le hc hbase.classes)
  have hthere : (m.heap.newInstance c).2.index < (m.heap.newInstance c).1.instances.size := by
    simp [Heap.newInstance]
  unfold instantiate
  simp only
  split
  · refine ⟨hnew, rfl, ?_⟩
    rintro _ _ ⟨⟩
    refine ⟨hthere, ?_⟩
    rintro _ ⟨⟩
  · rename_i method hmethod
    obtain ⟨hbind, hbound⟩ := hnew.grounded.bind (hnew.grounded.method? hmethod) hthere
    refine ⟨hnew.trans hbind, rfl, ?_⟩
    rintro _ _ ⟨⟩
    refine ⟨Nat.lt_of_lt_of_le hthere hbind.grown.instances, ?_⟩
    rintro _ ⟨⟩
    exact hbound

theorem fetchFunction_grounds {f : FunctionId} :
    Grounds base (fetchFunction f) fun h fn => fn.Grounded h := by
  refine .of_same fun m hm _ => ?_
  unfold fetchFunction
  split
  · rename_i fn hfn
    refine ⟨rfl, rfl, ?_⟩
    rintro _ _ ⟨⟩
    exact hm.heap.functions f fn hfn
  · exact ⟨rfl, rfl, fun _ _ h => nomatch h⟩

theorem enterCall_grounds {f : Function} {args : List Value} (hf : f.Grounded base)
    (hargs : ∀ v ∈ args, base.Knows v) :
    Grounds base (enterCall f args) fun h s => s.index < h.scopes.size := by
  intro m hm hbase
  obtain ⟨hto, hthere⟩ := hm.heap.enter (hf.grow hbase) fun v hv => (hargs v hv).grow hbase
  unfold enterCall
  split
  · exact ⟨⟨hm.heap, .refl _⟩, rfl, fun _ _ h => nomatch h⟩
  · refine ⟨hto, rfl, ?_⟩
    rintro _ _ ⟨⟩
    exact hthere

theorem leaveCall_grounds {f : Function} {c : Completion} (hc : c.Grounded base) :
    Grounds base (leaveCall f c) Known := by
  refine .of_same fun m hm hbase => ⟨rfl, rfl, ?_⟩
  rintro _ _ ⟨⟩
  unfold Known Heap.answer
  split
  · exact hm.heap.knows_boundIn _ _
  · cases c with
    | returning v => exact (hc v rfl).grow hbase
    | normal => trivial

end

/-! ## Code -/

/-- The values in a row refer to things that are there. -/
def AllKnown (h : Heap) (vs : List Value) : Prop := ∀ v ∈ vs, h.Knows v

theorem AllKnown.grow {h h' : Heap} {vs : List Value} (hvs : AllKnown h vs)
    (hgrown : h.Grown h') : AllKnown h' vs :=
  fun v hv => (hvs v hv).grow hgrown

/-- What a statement came to, as an answer. -/
def Returned (h : Heap) (c : Completion) : Prop := c.Grounded h

theorem returned_normal (h : Heap) : Returned h .normal := nofun

/-- What comes next, unless a `return` was met. -/
theorem unless_returning_grounds {c : Completion} {x : Action Completion}
    (hc : Returned base c) (hx : Grounds base x Returned) :
    Grounds base (match c with
      | .returning v => Pure.pure (Completion.returning v)
      | .normal => x) Returned := by
  cases c with
  | returning v =>
    refine .pure fun _ hgrown => ?_
    rintro _ ⟨⟩
    exact (hc v rfl).grow hgrown
  | normal => exact hx

/-- **What code does to a grounded machine within a bound.** -/
structure GroundsWithin (rules : Rules) (n : Nat) : Prop where
  evaluate : ∀ {base} e, Grounds base (evaluate rules n e) Known
  evaluateAll : ∀ {base} es, Grounds base (evaluateAll rules n es) AllKnown
  apply : ∀ {base paren callee args}, base.Knows callee → AllKnown base args →
    Grounds base (apply rules n paren callee args) Known
  invoke : ∀ {base paren callee args}, base.Knows callee → AllKnown base args →
    Grounds base (invoke rules n paren callee args) Known
  runFunction : ∀ {base f args}, f.Grounded base → AllKnown base args →
    Grounds base (runFunction rules n f args) Known
  execute : ∀ {base} s, Grounds base (execute rules n s) Returned
  evaluateOption : ∀ {base} e, Grounds base (evaluateOption rules n e) Known
  executeOption : ∀ {base} s, Grounds base (executeOption rules n s) Returned
  executeAll : ∀ {base} ss, Grounds base (executeAll rules n ss) Returned
  repeatWhile : ∀ {base} cond body, Grounds base (repeatWhile rules n cond body) Returned
  repeatFor : ∀ {base} cond step body, Grounds base (repeatFor rules n cond step body) Returned
  evaluateCondition : ∀ {base} e, Grounds base (evaluateCondition rules n e) Known

section

variable {rules : Rules} {n : Nat} (ih : GroundsWithin rules n)

include ih

theorem evaluate_grounds (e : Expr Address) :
    Grounds base (evaluate rules (n + 1) e) Known := by
  cases e <;> rw [evaluate]
  case literal token value =>
    refine .pure fun h _ => ?_
    cases value <;> trivial
  case grouping paren inner => exact ih.evaluate inner
  case unary op operand =>
    exact (ih.evaluate operand).bind fun _ v _ _ => .liftFault fun r h hr => knows_prefixed h hr
  case binary left op right =>
    refine (ih.evaluate left).bind fun _ l _ _ => ?_
    exact (ih.evaluate right).bind fun _ r _ _ => .liftFault fun v h hv => knows_combine h hv
  case ternary cond mark yes no =>
    refine (ih.evaluate cond).bind fun _ c _ _ => ?_
    split
    · exact ih.evaluate yes
    · exact ih.evaluate no
  case logical left op right =>
    refine (ih.evaluate left).bind fun _ l _ hl => ?_
    split
    · exact .pure fun _ hgrown => hl.grow hgrown
    · exact ih.evaluate right
  case var name address => exact read_grounds
  case receiver keyword address => exact read_grounds
  case assign name address value =>
    refine (ih.evaluate value).bind fun _ v _ hv => ?_
    exact (write_grounds hv).bind fun _ _ hgrown _ => .pure fun _ hgrown' =>
      hv.grow (hgrown.trans hgrown')
  case call callee paren args =>
    refine (ih.evaluate callee).bind fun _ f _ hf => ?_
    exact (ih.evaluateAll args).bind fun _ vs hgrown hvs => ih.apply (hf.grow hgrown) hvs
  case get object name =>
    refine (ih.evaluate object).bind fun _ o _ _ => ?_
    exact expectInstance_grounds.bind fun _ i _ _ => readProperty_grounds
  case set object name value =>
    refine (ih.evaluate object).bind fun _ o _ _ => ?_
    refine expectInstance_grounds.bind fun _ i _ _ => ?_
    refine (ih.evaluate value).bind fun _ v _ hv => ?_
    exact (writeField_grounds hv).bind fun _ _ hgrown _ => .pure fun _ hgrown' =>
      hv.grow (hgrown.trans hgrown')

theorem evaluateAll_grounds (es : List (Expr Address)) :
    Grounds base (evaluateAll rules (n + 1) es) AllKnown := by
  cases es <;> rw [evaluateAll]
  case nil => exact .pure fun _ _ _ hv => absurd hv List.not_mem_nil
  case cons e rest =>
    refine (ih.evaluate e).bind fun _ v _ hv => ?_
    refine (ih.evaluateAll rest).bind fun _ vs hgrown hvs => .pure fun _ hgrown' => ?_
    exact List.forall_mem_cons.2 ⟨hv.grow (hgrown.trans hgrown'), hvs.grow hgrown'⟩

theorem apply_grounds {paren : Token} {callee : Value} {args : List Value}
    (hcallee : base.Knows callee) (hargs : AllKnown base args) :
    Grounds base (apply rules (n + 1) paren callee args) Known := by
  rw [apply]
  refine checkCall_grounds.bind fun _ _ hgrown _ => ?_
  refine checkDepth_grounds.bind fun _ _ hgrown' _ => .counted ?_
  exact ih.invoke (hcallee.grow (hgrown.trans hgrown')) (hargs.grow (hgrown.trans hgrown'))

theorem invoke_grounds {paren : Token} {callee : Value} {args : List Value}
    (hcallee : base.Knows callee) (hargs : AllKnown base args) :
    Grounds base (invoke rules (n + 1) paren callee args) Known := by
  cases callee <;> simp only [invoke]
  case function f =>
    exact fetchFunction_grounds.bind fun _ fn hgrown hfn =>
      ih.runFunction hfn (hargs.grow hgrown)
  case native f => exact callNative_grounds
  case classRef c =>
    refine (instantiate_grounds hcallee).bind fun next made hgrown hmade => ?_
    obtain ⟨i, init⟩ := made
    have hi : next.Knows (.instanceRef i) := hmade.1
    cases init with
    | none => exact .pure fun _ hgrown' => hi.grow hgrown'
    | some init =>
      refine (ih.runFunction (hmade.2 init rfl) (hargs.grow hgrown)).bind fun _ _ hgrown' _ => ?_
      exact .pure fun _ hgrown'' => hi.grow (hgrown'.trans hgrown'')
  all_goals exact .raise

theorem runFunction_grounds {f : Function} {args : List Value} (hf : f.Grounded base)
    (hargs : AllKnown base args) :
    Grounds base (runFunction rules (n + 1) f args) Known := by
  rw [runFunction]
  refine (enterCall_grounds hf hargs).bind fun _ s _ hs => ?_
  exact ((ih.executeAll f.decl.body).inScope hs).bind fun _ c _ hc => leaveCall_grounds hc

theorem execute_grounds (s : Stmt Address) :
    Grounds base (execute rules (n + 1) s) Returned := by
  have hnormal : ∀ {base : Heap}, Grounds base (Pure.pure Completion.normal) Returned :=
    .pure fun h _ => returned_normal h
  cases s <;> simp only [execute]
  case expr e => exact (ih.evaluate e).bind fun _ _ _ _ => hnormal
  case print keyword value =>
    refine (ih.evaluate value).bind fun _ v _ _ => ?_
    exact print_grounds.bind fun _ _ _ _ => hnormal
  case varDecl name initial =>
    refine (ih.evaluateOption initial).bind fun _ v _ hv => ?_
    exact (define_grounds hv).bind fun _ _ _ _ => hnormal
  case block brace body => exact .inNewScope fun _ _ => ih.executeAll body
  case branch keyword cond yes no =>
    refine (ih.evaluate cond).bind fun _ c _ _ => ?_
    split
    · exact ih.execute yes
    · exact ih.executeOption no
  case loop keyword cond body => exact ih.repeatWhile cond body
  case forLoop keyword initial cond step body =>
    cases initial with
    | none => exact ih.repeatFor cond step body
    | some initial =>
      refine .inNewScope fun _ _ => ?_
      exact (ih.execute initial).bind fun _ _ _ _ => ih.repeatFor cond step body
  case function decl => exact declareFunction_grounds.bind fun _ _ _ _ => hnormal
  case ret keyword value =>
    refine (ih.evaluateOption value).bind fun _ v _ hv => .pure fun _ hgrown => ?_
    rintro _ ⟨⟩
    exact hv.grow hgrown
  case classDecl name superclass methods =>
    refine readSuperclass_grounds.bind fun _ c _ hc => ?_
    exact (declareClass_grounds hc).bind fun _ _ _ _ => hnormal

theorem evaluateOption_grounds (e : Option (Expr Address)) :
    Grounds base (evaluateOption rules (n + 1) e) Known := by
  cases e <;> rw [evaluateOption]
  case none => exact .pure fun _ _ => trivial
  case some e => exact ih.evaluate e

theorem executeOption_grounds (s : Option (Stmt Address)) :
    Grounds base (executeOption rules (n + 1) s) Returned := by
  cases s <;> rw [executeOption]
  case none => exact .pure fun h _ => returned_normal h
  case some s => exact ih.execute s

theorem executeAll_grounds (ss : List (Stmt Address)) :
    Grounds base (executeAll rules (n + 1) ss) Returned := by
  cases ss <;> rw [executeAll]
  case nil => exact .pure fun h _ => returned_normal h
  case cons s rest =>
    exact (ih.execute s).bind fun _ c _ hc => unless_returning_grounds hc (ih.executeAll rest)

theorem repeatWhile_grounds (cond : Expr Address) (body : Option (Stmt Address)) :
    Grounds base (repeatWhile rules (n + 1) cond body) Returned := by
  rw [repeatWhile]
  refine (ih.evaluate cond).bind fun _ c _ _ => ?_
  split
  · exact (ih.executeOption body).bind fun _ c _ hc =>
      unless_returning_grounds hc (ih.repeatWhile cond body)
  · exact .pure fun h _ => returned_normal h

theorem repeatFor_grounds (cond step : Option (Expr Address)) (body : Option (Stmt Address)) :
    Grounds base (repeatFor rules (n + 1) cond step body) Returned := by
  rw [repeatFor]
  refine (ih.evaluateCondition cond).bind fun _ c _ _ => ?_
  split
  · refine (ih.executeOption body).bind fun _ c _ hc => unless_returning_grounds hc ?_
    exact (ih.evaluateOption step).bind fun _ _ _ _ => ih.repeatFor cond step body
  · exact .pure fun h _ => returned_normal h

theorem evaluateCondition_grounds (e : Option (Expr Address)) :
    Grounds base (evaluateCondition rules (n + 1) e) Known := by
  cases e <;> rw [evaluateCondition]
  case none => exact .pure fun _ _ => trivial
  case some e => exact ih.evaluate e

end

/-- **Evaluation keeps a machine grounded**, within any bound. -/
theorem groundsWithin (rules : Rules) : ∀ n, GroundsWithin rules n
  | 0 =>
    { evaluate := fun _ => .stop
      evaluateAll := fun _ => .stop
      apply := fun _ _ => .stop
      invoke := fun _ _ => .stop
      runFunction := fun _ _ => .stop
      execute := fun _ => .stop
      evaluateOption := fun _ => .stop
      executeOption := fun _ => .stop
      executeAll := fun _ => .stop
      repeatWhile := fun _ _ => .stop
      repeatFor := fun _ _ _ => .stop
      evaluateCondition := fun _ => .stop }
  | n + 1 =>
    have ih := groundsWithin rules n
    { evaluate := evaluate_grounds ih
      evaluateAll := evaluateAll_grounds ih
      apply := apply_grounds ih
      invoke := invoke_grounds ih
      runFunction := runFunction_grounds ih
      execute := execute_grounds ih
      evaluateOption := evaluateOption_grounds ih
      executeOption := executeOption_grounds ih
      executeAll := executeAll_grounds ih
      repeatWhile := repeatWhile_grounds ih
      repeatFor := repeatFor_grounds ih
      evaluateCondition := evaluateCondition_grounds ih }

theorem interpret_grounds (rules : Rules) (bound : Nat) (p : Program Address) :
    Grounds base (interpret rules bound p) Unasked := by
  induction p generalizing base with
  | nil => exact .pure fun _ _ => trivial
  | cons s rest ih =>
    exact ((groundsWithin rules bound).execute s).bind (f := fun _ => interpret rules bound rest)
      fun _ _ _ _ => ih

/-! ## Every moment -/

/-- What a task is given refers to things that are there. -/
def Task.Grounded (h : Heap) : Task → Prop
  | .apply _ callee args | .invoke _ callee args => h.Knows callee ∧ AllKnown h args
  | .runFunction f args => f.Grounded h ∧ AllKnown h args
  | .leaveCall _ c => c.Grounded h
  | .write _ _ v => h.Knows v
  | _ => True

theorem entered_grounded (hm : m.Grounded) : (entered m).Grounded where
  heap := (hm.heap.newScope hm.active).grounded
  active := by simp [entered, Heap.newScope]

/-- What holds once an action has answered that was started here. -/
theorem Grounds.after {x : Action α} {Then : Heap → α → Prop} {a : α}
    (hx : Grounds m.heap x Then) (hm : m.Grounded) (hdone : x m = .done a m') :
    m'.Grounded ∧ m.heap.Grown m'.heap ∧ Then m'.heap a :=
  hx.of_eq_done hm (.refl _) hdone

/-- **A task that is called is grounded** where the task that calls it is. -/
theorem Calls.grounded {rules : Rules} {n : Nat} {t t' : Task} (hcall : Calls rules n t m t' m')
    (ht : t.Grounded m.heap) (hm : m.Grounded) : t'.Grounded m'.heap ∧ m'.Grounded := by
  have hn := groundsWithin rules n
  cases hcall with
  | grouping | unary | left | cond | logicalLeft | var | receiver | assigned | callee | object
  | target | firstExpr | expr | print | varDecl | branch | loop | forLoop | ret | superclass
  | someExpr | someStmt | firstStmt | whileCond | forCond | someCondition =>
    exact ⟨trivial, hm⟩
  | right hdone | yes hdone _ | no hdone _ | logicalRight hdone _ | args hdone
  | restExprs hdone | branchYes hdone _ | branchNo hdone _ | whileBody hdone _ =>
    exact ⟨trivial, ((hn.evaluate _).after hm hdone).1⟩
  | restStmts hdone => exact ⟨trivial, ((hn.execute _).after hm hdone).1⟩
  | forBody hdone _ => exact ⟨trivial, ((hn.evaluateCondition _).after hm hdone).1⟩
  | assign hdone =>
    obtain ⟨hm', -, hv⟩ := (hn.evaluate _).after hm hdone
    exact ⟨hv, hm'⟩
  | call hcallee hargs =>
    obtain ⟨hm₁, -, hf⟩ := (hn.evaluate _).after hm hcallee
    obtain ⟨hm₂, hgrown, hvs⟩ := (hn.evaluateAll _).after hm₁ hargs
    exact ⟨⟨hf.grow hgrown, hvs⟩, hm₂⟩
  | field hobject hinstance =>
    obtain ⟨hm₁, -, -⟩ := (hn.evaluate _).after hm hobject
    exact ⟨trivial, (expectInstance_grounds.after hm₁ hinstance).1⟩
  | apply hcheck hdepth =>
    obtain ⟨hm₁, hgrown₁, -⟩ := checkCall_grounds.after hm hcheck
    obtain ⟨hm₂, hgrown₂, -⟩ := checkDepth_grounds.after hm₁ hdepth
    have hgrown := hgrown₁.trans hgrown₂
    exact ⟨⟨ht.1.grow hgrown, ht.2.grow hgrown⟩, hm₂.heap, hm₂.active⟩
  | function hfetch =>
    obtain ⟨hm', hgrown, hfn⟩ := fetchFunction_grounds.after hm hfetch
    exact ⟨⟨hfn, ht.2.grow hgrown⟩, hm'⟩
  | init hmade =>
    obtain ⟨hm', hgrown, -, hinit⟩ := (instantiate_grounds ht.1).after hm hmade
    exact ⟨⟨hinit _ rfl, ht.2.grow hgrown⟩, hm'⟩
  | body henter =>
    obtain ⟨hm', -, hs⟩ := (enterCall_grounds ht.1 ht.2).after hm henter
    exact ⟨trivial, hm'.heap, hs⟩
  | leave henter hbody =>
    obtain ⟨hm₁, -, hs⟩ := (enterCall_grounds ht.1 ht.2).after hm henter
    obtain ⟨hm₂, -, hc⟩ := ((hn.executeAll _).inScope hs).after hm₁ hbody
    exact ⟨hc, hm₂⟩
  | block | forInitial => exact ⟨trivial, entered_grounded hm⟩
  | forAfter hinitial =>
    exact ⟨trivial, ((hn.execute _).after (entered_grounded hm) hinitial).1⟩
  | whileAgain hcond _ hbody =>
    obtain ⟨hm₁, -, -⟩ := (hn.evaluate _).after hm hcond
    exact ⟨trivial, ((hn.executeOption _).after hm₁ hbody).1⟩
  | forStep hcond _ hbody =>
    obtain ⟨hm₁, -, -⟩ := (hn.evaluateCondition _).after hm hcond
    exact ⟨trivial, ((hn.executeOption _).after hm₁ hbody).1⟩
  | forAgain hcond _ hbody hstep =>
    obtain ⟨hm₁, -, -⟩ := (hn.evaluateCondition _).after hm hcond
    obtain ⟨hm₂, -, -⟩ := (hn.executeOption _).after hm₁ hbody
    exact ⟨trivial, ((hn.evaluateOption _).after hm₂ hstep).1⟩

/-- A task that is reached is grounded where it is reached. -/
theorem Reaches.grounded_task {rules : Rules} {n : Nat} {t t' : Task}
    (h : Reaches rules n t m t' m') (ht : t.Grounded m.heap) (hm : m.Grounded) :
    t'.Grounded m'.heap ∧ m'.Grounded := by
  induction h with
  | here => exact ⟨ht, hm⟩
  | call hcall _ ih =>
    obtain ⟨ht', hm'⟩ := hcall.grounded ht hm
    exact ih ht' hm'

theorem During.grounded_task {rules : Rules} {bound : Nat} {p : Program Address} {t : Task}
    (h : During rules bound p m t m') (hm : m.Grounded) : t.Grounded m'.heap ∧ m'.Grounded := by
  induction h with
  | first hreach => exact hreach.grounded_task trivial hm
  | next hdone _ ih => exact ih (((groundsWithin rules bound).execute _).after hm hdone).1

/-- **The machine is grounded at every moment of a run.** -/
theorem During.grounded {rules : Rules} {bound : Nat} {p : Program Address} {t : Task}
    (h : During rules bound p m t m') (hm : m.Grounded) : m'.Grounded :=
  (h.grounded_task hm).2

end Eval

end TanLang
