import TanLang.Session
import TanLang.Proofs.Evaluation.Preservation
import TanLang.Proofs.Heap.Renaming
/-!
# Evaluation — local names do not matter

Code and the same code after a renaming are run side by side, on two
machines whose heaps differ by the renaming. **They stay in step**: both
answer, raise an error, or run out of their bound at the same time, with the
same values and the same output, and what they leave behind differs by the
renaming again. An error is the same fault on the same line; only the name
that it is reported at may be spelled differently.

Names are found by their distance here. A use and its renamed twin go out
the same number of scopes, so they meet in scopes that correspond; whether
the renaming is for that scope decides how either of them is spelled.
-/

namespace TanLang

open Heap (Mirrors Around Extends FunctionVaries ClassVaries)

/-- **Two errors that differ by a renaming**: the same fault at the same
token, but for its name. -/
structure RuntimeError.Varies (r : Renaming) (e e' : RuntimeError) : Prop where
  fault : e'.fault = e.fault
  token : r.Respelled e.token e'.token

theorem RuntimeError.Varies.refl (r : Renaming) (e : RuntimeError) : e.Varies r e :=
  ⟨rfl, .inl rfl⟩

namespace Eval

variable {α β : Type} {r : Renaming} {T : Zone} {m m' : Machine} {around : List Bool}

/-! ## Machines in step -/

/-- Two machines that differ by a renaming. -/
structure InStep (r : Renaming) (T : Zone) (m m' : Machine) : Prop where
  heap : Mirrors r T m.heap m'.heap
  active : m'.active = m.active
  depth : m'.depth = m.depth
  printed : m'.printed = m.printed

/-- Two machines in step were led to others in step, and the same scope is
active. -/
structure Led (r : Renaming) (T : Zone) (m : Machine) (T' : Zone) (n n' : Machine) : Prop where
  grown : Extends T m.heap T' n.heap
  inStep : InStep r T' n n'
  active : n.active = m.active

/-- **Two outcomes agree**: they came to the same, and the machines are in
step. -/
inductive Agrees (r : Renaming) (T : Zone) (m : Machine) : Outcome α → Outcome α → Prop where
  | done {T' : Zone} {n n' : Machine} (a : α) (h : Led r T m T' n n') :
      Agrees r T m (.done a n) (.done a n')
  | raised {T' : Zone} {n n' : Machine} {e e' : RuntimeError} (he : e.Varies r e')
      (h : Led r T m T' n n') : Agrees r T m (.raised e n) (.raised e' n')
  | crashed {T' : Zone} {n n' : Machine} (h : Led r T m T' n n') :
      Agrees r T m (.crashed n) (.crashed n')
  | exhausted {T' : Zone} {n n' : Machine} (h : Led r T m T' n n') :
      Agrees r T m (.exhausted n) (.exhausted n')

/-- **One action follows another** wherever the scopes around are known: from
machines in step they come to outcomes that agree. -/
def Follows (r : Renaming) (around : List Bool) (x x' : Action α) : Prop :=
  ∀ T m m', InStep r T m m' → Around T m.heap around m.active → Agrees r T m (x m) (x' m')

/-- Machines in step have all but the heap in common. -/
theorem InStep.exists_heap (h : InStep r T m m') :
    ∃ k, m' = { m with heap := k } ∧ Mirrors r T m.heap k := by
  obtain ⟨k, active, depth, printed⟩ := m'
  obtain ⟨hheap, rfl, rfl, rfl⟩ := h
  exact ⟨k, rfl, hheap⟩

theorem Led.refl (h : InStep r T m m') : Led r T m T m m' := ⟨.refl _ _, h, rfl⟩

theorem Led.trans {T₁ T₂ : Zone} {n n' k k' : Machine} (h₁ : Led r T m T₁ n n')
    (h₂ : Led r T₁ n T₂ k k') : Led r T m T₂ k k' :=
  ⟨h₁.grown.trans h₂.grown, h₂.inStep, h₂.active.trans h₁.active⟩

/-- The scopes around the active one are known as before. -/
theorem Led.known {T' : Zone} {n n' : Machine} (h : Led r T m T' n n')
    (haround : Around T m.heap around m.active) : Around T' n.heap around n.active := by
  rw [h.active]
  exact haround.extend h.grown

/-- Only the heap has changed. -/
theorem Led.of_heap {T' : Zone} {h h' : Heap} (hgrown : Extends T m.heap T' h)
    (hheap : Mirrors r T' h h') :
    Led r T m T' { m with heap := h } { m with heap := h' } :=
  ⟨hgrown, ⟨hheap, rfl, rfl, rfl⟩, rfl⟩

namespace Agrees

variable {o o' : Outcome α}

/-- Machines that were led on. -/
theorem after {T₁ : Zone} {n n' : Machine} (h₁ : Led r T m T₁ n n') (h : Agrees r T₁ n o o') :
    Agrees r T m o o' := by
  cases h with
  | done a h => exact .done a (h₁.trans h)
  | raised he h => exact .raised he (h₁.trans h)
  | crashed h => exact .crashed (h₁.trans h)
  | exhausted h => exact .exhausted (h₁.trans h)

/-- **One action after another.** -/
theorem bind {x x' : Action α} {f f' : α → Action β} (hx : Agrees r T m (x m) (x' m'))
    (hf : ∀ a T₁ n n', Led r T m T₁ n n' → Agrees r T₁ n (f a n) (f' a n')) :
    Agrees r T m ((x >>= f) m) ((x' >>= f') m') := by
  change Agrees r T m (Action.andThen x f m) (Action.andThen x' f' m')
  unfold Action.andThen
  generalize x m = o at hx
  generalize x' m' = o' at hx
  cases hx with
  | done a h => exact (hf a _ _ _ h).after h
  | raised he h => exact .raised he h
  | crashed h => exact .crashed h
  | exhausted h => exact .exhausted h

/-- Machines put back after an action. -/
theorem mapMachine {m₁ : Machine} {g g' : Machine → Machine} (h : Agrees r T m₁ o o')
    (hback : ∀ T₁ n n', Led r T m₁ T₁ n n' → Led r T m T₁ (g n) (g' n')) :
    Agrees r T m (o.mapMachine g) (o'.mapMachine g') := by
  cases h with
  | done a h => exact .done a (hback _ _ _ h)
  | raised he h => exact .raised he (hback _ _ _ h)
  | crashed h => exact .crashed (hback _ _ _ h)
  | exhausted h => exact .exhausted (hback _ _ _ h)

/-- An action in another scope. -/
theorem inScope {x x' : Action α} {s : ScopeId} (hstep : InStep r T m m')
    (h : Agrees r T { m with active := s } (x { m with active := s })
      (x' { m' with active := s })) :
    Agrees r T m (Action.inScope s x m) (Action.inScope s x' m') := by
  refine h.mapMachine fun T₁ n n' hled => ?_
  exact ⟨hled.grown, ⟨hled.inStep.heap, hstep.active, hled.inStep.depth, hled.inStep.printed⟩, rfl⟩

end Agrees

namespace Follows

variable {x x' : Action α} {f f' : α → Action β}

theorem bind (hx : Follows r around x x') (hf : ∀ a, Follows r around (f a) (f' a)) :
    Follows r around (x >>= f) (x' >>= f') := by
  intro T m m' hstep haround
  refine (hx T m m' hstep haround).bind fun a T₁ n n' hled => ?_
  exact hf a T₁ n n' hled.inStep (hled.known haround)

theorem pure (a : α) : Follows r around (Pure.pure a : Action α) (Pure.pure a) :=
  fun _ _ _ hstep _ => .done a (.refl hstep)

theorem stop : Follows r around (Action.stop : Action α) Action.stop :=
  fun _ _ _ hstep _ => .exhausted (.refl hstep)

theorem raise (token : Token) (fault : Fault) :
    Follows r around (Action.raise token fault : Action α) (Action.raise token fault) :=
  fun _ _ _ hstep _ => .raised (.refl r _) (.refl hstep)

theorem liftFault (token : Token) (v : Except Fault α) :
    Follows r around (Action.liftFault token v) (Action.liftFault token v) := by
  cases v with
  | ok a => exact .pure a
  | error fault => exact .raise token fault

/-- A line printed. -/
theorem print (v : Value) : Follows r around (Action.print v) (Action.print v) := by
  intro T m m' hstep _
  have htext := hstep.heap.text v
  refine .done () ⟨.refl _ _, ⟨hstep.heap, hstep.active, hstep.depth, ?_⟩, rfl⟩
  simp only [htext, hstep.printed]

/-- **A name bound in the active scope**, as it is spelled on either side. -/
theorem define {x x' : Text} (hx : x' = r.swap (around.headD false) x) (v : Value) :
    Follows r around (Action.define x v) (Action.define x' v) := by
  intro T m m' hstep haround
  obtain ⟨k, rfl, hheap⟩ := hstep.exists_heap
  have hdefine := hheap.define m.active x v
  rw [← haround.head hheap.globals.1, ← hx] at hdefine
  exact .done () (.of_heap (.define _ _ _) hdefine)

theorem counted (hx : Follows r around x x') :
    Follows r around (Action.counted x) (Action.counted x') := by
  intro T m m' hstep haround
  have hdeeper : InStep r T { m with depth := m.depth + 1 } { m' with depth := m'.depth + 1 } :=
    ⟨hstep.heap, hstep.active, congrArg (· + 1) hstep.depth, hstep.printed⟩
  refine (hx T _ _ hdeeper haround).mapMachine fun T₁ n n' hled => ?_
  exact ⟨hled.grown, ⟨hled.inStep.heap, hled.inStep.active, congrArg (· - 1) hled.inStep.depth,
    hled.inStep.printed⟩, hled.active⟩

/-- **An action in a new scope**, which the renaming may be for. -/
theorem inNewScope (here : Bool) (hx : Follows r (here :: around) x x') :
    Follows r around (Action.inNewScope x) (Action.inNewScope x') := by
  intro T m m' hstep haround
  obtain ⟨k, rfl, hheap⟩ := hstep.exists_heap
  have hnew := hheap.newScope (some m.active) here
  have hid := hheap.newScope_id (some m.active)
  have hled := Led.of_heap (.newScope (some m.active) here) hnew
  unfold Action.inNewScope
  simp only [hid]
  refine (Agrees.inScope hled.inStep ?_).after hled
  exact hx _ _ _ ⟨hnew, rfl, rfl, rfl⟩ (haround.newScope here)

end Follows

/-! ## Uses of names -/

section

variable {rules : Rules} {name name' : Token} {a : Address}

/-- **A use and its twin take place in one scope**, in which the twin's name
is bound to what the name is; or both take place nowhere. -/
theorem place_cases (hrules : rules.addressing = .distance) (hstep : InStep r T m m')
    (haround : Around T m.heap around m.active)
    (hname : name'.lexeme = r.swap (Renaming.isFor around a) name.lexeme) :
    m'.place rules name'.lexeme a = m.place rules name.lexeme a ∧
      ∀ s, m.place rules name.lexeme a = .scope s → name'.lexeme = r.swap (T s) name.lexeme := by
  simp only [Machine.place, hrules]
  cases a with
  | none =>
    -- without a distance there is nothing but the globals
    have hsame : name'.lexeme = name.lexeme := hname
    obtain ⟨hholder, honly⟩ := hstep.heap.holder_globals name.lexeme
    simp only [Machine.place.held, hsame, hholder]
    refine ⟨trivial, fun s hs => ?_⟩
    cases hheld : m.heap.holder Machine.globals name.lexeme with
    | none =>
      rw [hheld] at hs
      cases hs
    | some t =>
      rw [hheld] at hs
      cases hs
      rw [honly s hheld, hstep.heap.globals.1, Renaming.swap_false]
  | some d =>
    simp only [hstep.active, hstep.heap.ancestor]
    refine ⟨trivial, fun s hs => ?_⟩
    cases ht : m.heap.ancestor m.active d with
    | none =>
      rw [ht] at hs
      cases hs
    | some t =>
      rw [ht] at hs
      cases hs
      obtain ⟨hglobals, scope, hscope, houter⟩ := hstep.heap.globals
      have hend : (m.heap.scope? Machine.globals).bind Scope.outer = none := by
        rw [hscope]
        exact houter
      rw [← haround.isFor hglobals hend ht]
      exact hname

/-- A place that is unbound is not at a distance. -/
theorem eq_none_of_unbound (hrules : rules.addressing = .distance) {x : Text}
    (h : m.place rules x a = .unbound) : a = none := by
  cases a with
  | none => rfl
  | some d =>
    simp only [Machine.place, hrules] at h
    split at h <;> cases h

theorem read_follows (hrules : rules.addressing = .distance)
    (hname : name'.lexeme = r.swap (Renaming.isFor around a) name.lexeme)
    (hglobal : a = none → name' = name) :
    Follows r around (Action.read rules name a) (Action.read rules name' a) := by
  intro T m m' hstep haround
  obtain ⟨hplace, hspelled⟩ := place_cases hrules hstep haround hname
  unfold Action.read
  rw [hplace]
  cases hp : m.place rules name.lexeme a with
  | scope s =>
    have hbound := hstep.heap.boundIn s name.lexeme
    rw [← hspelled s hp] at hbound
    simp only [hbound]
    exact .done _ (.refl hstep)
  | unbound =>
    rw [hglobal (eq_none_of_unbound hrules hp)]
    exact .raised (.refl r _) (.refl hstep)
  | outside => exact .crashed (.refl hstep)

theorem write_follows (hrules : rules.addressing = .distance)
    (hname : name'.lexeme = r.swap (Renaming.isFor around a) name.lexeme)
    (hglobal : a = none → name' = name) (v : Value) :
    Follows r around (Action.write rules name a v) (Action.write rules name' a v) := by
  intro T m m' hstep haround
  obtain ⟨hplace, hspelled⟩ := place_cases hrules hstep haround hname
  unfold Action.write
  rw [hplace]
  cases hp : m.place rules name.lexeme a with
  | scope s =>
    obtain ⟨k, rfl, hheap⟩ := hstep.exists_heap
    have hdefine := hheap.define s name.lexeme v
    rw [← hspelled s hp] at hdefine
    exact .done () (.of_heap (.define _ _ _) hdefine)
  | unbound =>
    rw [hglobal (eq_none_of_unbound hrules hp)]
    exact .raised (.refl r _) (.refl hstep)
  | outside => exact .crashed (.refl hstep)

/-- What is known of a use that a renaming may respell. -/
theorem use_spelled {a' : Address} (h : r.variation.use around name a name' a') :
    a' = a ∧ name'.lexeme = r.swap (Renaming.isFor around a) name.lexeme ∧
      (a = none → name' = name) := by
  obtain ⟨ha, hrespells⟩ := h
  refine ⟨ha, hrespells.lexeme, ?_⟩
  rintro rfl
  exact hrespells.eq

end

/-! ## Objects and calls -/

theorem expectInstance_follows (token : Token) (fault : Fault) (v : Value) :
    Follows r around (expectInstance token fault v) (expectInstance token fault v) := by
  cases v with
  | instanceRef i => exact .pure i
  | _ => exact .raise token fault

/-- A method that is fetched is bound on both sides. -/
theorem readProperty_follows (i : InstanceId) (name : Token) :
    Follows r around (readProperty i name) (readProperty i name) := by
  intro T m m' hstep _
  obtain ⟨k, rfl, hheap⟩ := hstep.exists_heap
  unfold readProperty Heap.property?
  simp only [Heap.instance?, hheap.instances]
  cases m.heap.instances[i.index]? with
  | none => exact .raised (.refl r _) (.refl hstep)
  | some inst =>
    simp only
    cases inst.fields.find? name.lexeme with
    | some v => exact .done v (.refl hstep)
    | none =>
      simp only
      rcases eq_of_rel (hheap.method? inst.classOf name.lexeme) with
        ⟨hf, hf'⟩ | ⟨fn, fn', hf, hf', hfn⟩
      · rw [hf, hf']
        exact .raised (.refl r _) (.refl hstep)
      · simp only [hf, hf', Option.map_some]
        obtain ⟨T₁, hgrown, hbind, hbound⟩ := hheap.bind hfn i
        obtain ⟨hnew, hid⟩ := hbind.newFunction hbound
        simp only [Heap.fetch, hid]
        have hmade : Extends T₁ (m.heap.bind fn i).1 T₁
            ((m.heap.bind fn i).1.newFunction (m.heap.bind fn i).2).1 := .of_scopes_eq rfl
        exact .done _ (.of_heap (hgrown.trans hmade) hnew)

theorem writeField_follows (i : InstanceId) (name : Token) (v : Value) :
    Follows r around (writeField i name v) (writeField i name v) := by
  intro T m m' hstep _
  obtain ⟨k, rfl, hheap⟩ := hstep.exists_heap
  have hgrown : Extends T m.heap T (m.heap.setField i name.lexeme v) := .of_scopes_eq rfl
  exact .done () (.of_heap hgrown (hheap.setField i name.lexeme v))

/-- A name that a scope the renaming is for may have stays as it is. -/
theorem swap_named {name : Token} (h : r.variation.named (around.headD false) name) :
    r.swap (around.headD false) name.lexeme = name.lexeme :=
  Renaming.swap_of_ne h

theorem declareFunction_follows {decl decl' : Routine (Stmt Address)}
    (hname : r.variation.named (around.headD false) decl.name)
    (hdecl : Stmt.RoutineVaries r.variation around decl decl') :
    Follows r around (declareFunction decl) (declareFunction decl') := by
  intro T m m' hstep haround
  obtain ⟨k, rfl, hheap⟩ := hstep.exists_heap
  have hfn : FunctionVaries r T m.heap [] ⟨decl, m.active, false⟩ ⟨decl', m.active, false⟩ :=
    ⟨⟨around, haround, hdecl, nofun⟩, rfl, rfl⟩
  have hgrown : Extends T m.heap T (m.heap.newFunction ⟨decl, m.active, false⟩).1 :=
    .of_scopes_eq rfl
  obtain ⟨hnew, hid⟩ := hheap.newFunction hfn
  have hdefine := hnew.define m.active decl.name.lexeme
    (.function (m.heap.newFunction ⟨decl, m.active, false⟩).2)
  rw [← haround.head hheap.globals.1, swap_named hname] at hdefine
  have hspelled : decl'.name = decl.name := hfn.name
  unfold declareFunction
  simp only [hspelled, hid]
  exact .done () (.of_heap (hgrown.trans (.define _ _ _)) hdefine)

/-- The methods of a class differ by the renaming, name by name. -/
theorem methodTable_varies {T : Zone} {h : Heap} {scope : ScopeId}
    {methods methods' : List (Routine (Stmt Address))} (haround : Around T h around scope)
    (hmethods : Stmt.MethodsVary r.variation (false :: around) methods methods') (x : Text) :
    Option.Rel (FunctionVaries r T h [false]) ((methodTable scope methods).find? x)
      ((methodTable scope methods').find? x) := by
  -- the tables are filled in step, so they correspond at every moment
  have hfold : ∀ (methods methods' : List (Routine (Stmt Address))) (t t' : Table Function),
      Stmt.MethodsVary r.variation (false :: around) methods methods' →
      (∀ x, Option.Rel (FunctionVaries r T h [false]) (t.find? x) (t'.find? x)) →
      Option.Rel (FunctionVaries r T h [false])
        ((methods.foldl (fun table decl => table.insert decl.name.lexeme
          ⟨decl, scope, decl.name.lexeme == initName⟩) t).find? x)
        ((methods'.foldl (fun table decl => table.insert decl.name.lexeme
          ⟨decl, scope, decl.name.lexeme == initName⟩) t').find? x) := by
    intro methods
    induction methods with
    | nil =>
      intro methods' t t' hmethods htables
      cases hmethods
      exact htables x
    | cons decl rest ih =>
      intro methods' t t' hmethods htables
      cases hmethods with
      | @cons _ _ decl' _ rest' hdecl hrest =>
        simp only [List.foldl_cons]
        refine ih rest' _ _ hrest fun y => ?_
        have hfn : ∀ isInit, FunctionVaries r T h [false] ⟨decl, scope, isInit⟩
            ⟨decl', scope, isInit⟩ :=
          fun isInit => ⟨⟨around, haround, hdecl, fun _ => rfl⟩, rfl, rfl⟩
        have hname : decl'.name = decl.name := (hfn false).name
        rw [hname]
        by_cases hy : y = decl.name.lexeme
        · subst hy
          rw [Table.find?_insert_self, Table.find?_insert_self]
          exact .some (hfn _)
        · rw [Table.find?_insert_of_ne _ _ hy, Table.find?_insert_of_ne _ _ hy]
          exact htables y
  exact hfold methods methods' .empty .empty hmethods fun _ => .none

theorem declareClass_follows {name : Token} {superclass : Option ClassId}
    {methods methods' : List (Routine (Stmt Address))}
    (hname : r.variation.named (around.headD false) name)
    (hmethods : Stmt.MethodsVary r.variation (false :: around) methods methods') :
    Follows r around (declareClass name superclass methods)
      (declareClass name superclass methods') := by
  intro T m m' hstep haround
  obtain ⟨k, rfl, hheap⟩ := hstep.exists_heap
  have hactive := hheap.isSome_scope haround
  have hactive' : (k.scope? m.active).isSome = true := by
    rw [hheap.scopes, Option.isSome_map]
    exact hactive
  rw [declareClass_eq hactive, declareClass_eq hactive', hheap.classCount]
  have hzone : r.swap (T m.active) name.lexeme = name.lexeme := by
    rw [← haround.head hheap.globals.1]
    exact swap_named hname
  -- the name is bound, the class is made, and the name is bound to it
  have hfirst := hheap.define m.active name.lexeme .nil
  rw [hzone] at hfirst
  have hgrown : Extends T m.heap T (m.heap.define m.active name.lexeme .nil) := .define _ _ _
  have hcls : ClassVaries r T (m.heap.define m.active name.lexeme .nil)
      ⟨name.lexeme, superclass, methodTable m.active methods⟩
      ⟨name.lexeme, superclass, methodTable m.active methods'⟩ :=
    ⟨rfl, rfl, methodTable_varies (haround.extend hgrown) hmethods⟩
  have hmade : Extends T (m.heap.define m.active name.lexeme .nil) T
      ((m.heap.define m.active name.lexeme .nil).newClass
        ⟨name.lexeme, superclass, methodTable m.active methods⟩).1 := .of_scopes_eq rfl
  have hlast := (hfirst.newClass hcls).1.define m.active name.lexeme
    (.classRef ⟨m.heap.classes.size⟩)
  rw [hzone] at hlast
  exact .done () (.of_heap ((hgrown.trans hmade).trans (.define _ _ _)) hlast)

/-- A superclass that is no class is reported at its name, which is the one
place where a renaming shows. -/
theorem readSuperclass_follows {rules : Rules} (hrules : rules.addressing = .distance)
    {superclass superclass' : Option (Token × Address)}
    (h : Stmt.SuperclassVaries r.variation around superclass superclass') :
    Follows r around (readSuperclass rules superclass) (readSuperclass rules superclass') := by
  cases h with
  | none => exact .pure none
  | some huse =>
    obtain ⟨rfl, hspelled, hglobal⟩ := use_spelled huse
    refine (read_follows hrules hspelled hglobal).bind fun v => ?_
    cases v with
    | classRef c => exact .pure (some c)
    | _ => exact fun _ _ _ hstep _ => .raised ⟨rfl, huse.2.respelled⟩ (.refl hstep)

theorem checkCall_follows (paren : Token) (callee : Value) (given : Nat) :
    Follows r around (checkCall paren callee given) (checkCall paren callee given) := by
  intro T m m' hstep _
  unfold checkCall
  rw [hstep.heap.arity?]
  cases m.heap.arity? callee with
  | none => exact .raised (.refl r _) (.refl hstep)
  | some expected =>
    simp only
    split
    · exact .done () (.refl hstep)
    · exact .raised (.refl r _) (.refl hstep)

theorem checkDepth_follows (rules : Rules) (paren : Token) :
    Follows r around (checkDepth rules paren) (checkDepth rules paren) := by
  intro T m m' hstep _
  unfold checkDepth
  rw [hstep.depth]
  split
  · exact .raised (.refl r _) (.refl hstep)
  · exact .done () (.refl hstep)

theorem callNative_follows (rules : Rules) (paren : Token) (i : NativeId) (args : List Value) :
    Follows r around (callNative rules paren i args) (callNative rules paren i args) := by
  intro T m m' hstep _
  obtain ⟨k, rfl, hheap⟩ := hstep.exists_heap
  have hargs : args.map k.argument = args.map m.heap.argument :=
    List.map_congr_left fun v _ => hheap.argument v
  have hworld : Machine.world { m with heap := k } rules = m.world rules :=
    congrArg (World.mk rules.clock) hheap.registry
  simp only [callNative, Heap.native?, hheap.natives, hargs, hworld]
  cases m.heap.natives[i.index]? with
  | none => exact .crashed (.refl hstep)
  | some native =>
    have hkept := hheap.keep (native.leaves (m.world rules) (args.map m.heap.argument))
    simp only
    cases native.run (m.world rules) (args.map m.heap.argument) with
    | ok v => exact .done v (.of_heap (.of_scopes_eq rfl) hkept)
    | error message => exact .raised (.refl r _) (.of_heap (.of_scopes_eq rfl) hkept)

/-! ## Running code -/

section

variable (rules : Rules) (r : Renaming)

/-- **What is run within a bound stays in step with its renamed twin.** -/
structure Mimics (n : Nat) : Prop where
  evaluate : ∀ {around e e'}, Expr.Varies r.variation around e e' →
    Follows r around (evaluate rules n e) (evaluate rules n e')
  evaluateAll : ∀ {around es es'}, Expr.VariesAll r.variation around es es' →
    Follows r around (evaluateAll rules n es) (evaluateAll rules n es')
  apply : ∀ {around} paren callee args, Follows r around (apply rules n paren callee args)
    (apply rules n paren callee args)
  invoke : ∀ {around} paren callee args, Follows r around (invoke rules n paren callee args)
    (invoke rules n paren callee args)
  runFunction : ∀ {T m m' fn fn'} args, InStep r T m m' → FunctionVaries r T m.heap [] fn fn' →
    Agrees r T m (runFunction rules n fn args m) (runFunction rules n fn' args m')
  execute : ∀ {around s s'}, Stmt.Varies r.variation around s s' →
    Follows r around (execute rules n s) (execute rules n s')
  evaluateOption : ∀ {around e e'}, Expr.VariesOption r.variation around e e' →
    Follows r around (evaluateOption rules n e) (evaluateOption rules n e')
  executeOption : ∀ {around s s'}, Stmt.VariesOption r.variation around s s' →
    Follows r around (executeOption rules n s) (executeOption rules n s')
  executeAll : ∀ {around ss ss'}, Stmt.VariesAll r.variation around ss ss' →
    Follows r around (executeAll rules n ss) (executeAll rules n ss')
  repeatWhile : ∀ {around cond cond' body body'}, Expr.Varies r.variation around cond cond' →
    Stmt.VariesOption r.variation around body body' →
    Follows r around (repeatWhile rules n cond body) (repeatWhile rules n cond' body')

end

section

variable {rules : Rules} {n : Nat} (hrules : rules.addressing = .distance) (ih : Mimics rules r n)

include ih

include hrules in
theorem evaluate_follows {e e' : Expr Address} (h : e.Varies r.variation around e') :
    Follows r around (evaluate rules (n + 1) e) (evaluate rules (n + 1) e') := by
  cases h <;> simp only [evaluate]
  case literal token value => exact .pure _
  case grouping h => exact ih.evaluate h
  case unary op h => exact (ih.evaluate h).bind fun v => .liftFault op _
  case binary op hleft hright =>
    refine (ih.evaluate hleft).bind fun l => ?_
    exact (ih.evaluate hright).bind fun r => .liftFault op _
  case ternary mark hcond hyes hno =>
    refine (ih.evaluate hcond).bind fun c => ?_
    split
    · exact ih.evaluate hyes
    · exact ih.evaluate hno
  case logical op hleft hright =>
    refine (ih.evaluate hleft).bind fun l => ?_
    split
    · exact .pure l
    · exact ih.evaluate hright
  case var huse =>
    obtain ⟨rfl, hspelled, hglobal⟩ := use_spelled huse
    exact read_follows hrules hspelled hglobal
  case receiver hthis =>
    obtain ⟨rfl, hother⟩ := hthis
    exact read_follows hrules (Renaming.swap_of_ne hother).symm fun _ => rfl
  case assign huse hvalue =>
    obtain ⟨rfl, hspelled, hglobal⟩ := use_spelled huse
    refine (ih.evaluate hvalue).bind fun v => ?_
    exact (write_follows hrules hspelled hglobal v).bind fun _ => .pure v
  case call paren hcallee hargs =>
    refine (ih.evaluate hcallee).bind fun c => ?_
    exact (ih.evaluateAll hargs).bind fun vs => ih.apply paren c vs
  case get name h =>
    refine (ih.evaluate h).bind fun o => ?_
    exact (expectInstance_follows name _ o).bind fun i => readProperty_follows i name
  case set name hobject hvalue =>
    refine (ih.evaluate hobject).bind fun o => ?_
    refine (expectInstance_follows name _ o).bind fun i => ?_
    refine (ih.evaluate hvalue).bind fun v => ?_
    exact (writeField_follows i name v).bind fun _ => .pure v

theorem evaluateAll_follows {es es' : List (Expr Address)}
    (h : Expr.VariesAll r.variation around es es') :
    Follows r around (evaluateAll rules (n + 1) es) (evaluateAll rules (n + 1) es') := by
  cases h <;> simp only [evaluateAll]
  case nil => exact .pure []
  case cons h hrest =>
    refine (ih.evaluate h).bind fun v => ?_
    exact (ih.evaluateAll hrest).bind fun vs => .pure (v :: vs)

theorem apply_follows (paren : Token) (callee : Value) (args : List Value) :
    Follows r around (apply rules (n + 1) paren callee args)
      (apply rules (n + 1) paren callee args) := by
  simp only [apply]
  refine (checkCall_follows paren callee args.length).bind fun _ => ?_
  exact (checkDepth_follows rules paren).bind fun _ => (ih.invoke paren callee args).counted

/-- A function that is called is fetched on both sides. -/
theorem invoke_function_follows (i : FunctionId) (args : List Value) :
    Follows r around (fetchFunction i >>= fun fn => runFunction rules n fn args)
      (fetchFunction i >>= fun fn => runFunction rules n fn args) := by
  intro T m m' hstep _
  change Agrees r T m (Action.andThen _ _ m) (Action.andThen _ _ m')
  unfold Action.andThen fetchFunction
  rcases eq_of_rel (hstep.heap.functions i) with ⟨hf, hf'⟩ | ⟨fn, fn', hf, hf', hfn⟩
  · rw [hf, hf']
    exact .crashed (.refl hstep)
  · rw [hf, hf']
    exact ih.runFunction args hstep hfn

/-- A class that is called makes an instance on both sides, and its `init`
method is bound to it. -/
theorem invoke_class_follows (c : ClassId) (args : List Value) :
    Follows r around
      (do
        let (i, init) ← instantiate c
        match init with
        | none => return .instanceRef i
        | some init =>
          let _ ← runFunction rules n init args
          return .instanceRef i : Action Value)
      (do
        let (i, init) ← instantiate c
        match init with
        | none => return .instanceRef i
        | some init =>
          let _ ← runFunction rules n init args
          return .instanceRef i) := by
  intro T m m' hstep _
  obtain ⟨k, rfl, hheap⟩ := hstep.exists_heap
  obtain ⟨hmade, hid⟩ := hheap.newInstance c
  have hgrown : Extends T m.heap T (m.heap.newInstance c).1 := .of_scopes_eq rfl
  change Agrees r T m (Action.andThen _ _ m) (Action.andThen _ _ _)
  unfold Action.andThen instantiate
  simp only [hid]
  rcases eq_of_rel (hmade.method? c initName) with ⟨hf, hf'⟩ | ⟨fn, fn', hf, hf', hfn⟩
  · simp only [hf, hf']
    exact .done _ (.of_heap hgrown hmade)
  · simp only [hf, hf']
    obtain ⟨T₁, hbinds, hbind, hbound⟩ := hmade.bind hfn (m.heap.newInstance c).2
    have hled := Led.of_heap (hgrown.trans hbinds) hbind
    refine (Agrees.bind (ih.runFunction args hled.inStep hbound) fun _ _ _ _ hled' => ?_).after hled
    exact .done _ (.refl hled'.inStep)

theorem invoke_follows (paren : Token) (callee : Value) (args : List Value) :
    Follows r around (invoke rules (n + 1) paren callee args)
      (invoke rules (n + 1) paren callee args) := by
  cases callee <;> simp only [invoke]
  case function i => exact invoke_function_follows ih i args
  case native i => exact callNative_follows rules paren i args
  case classRef c => exact invoke_class_follows ih c args
  all_goals exact .raise paren _

/-- **A call runs in a new scope on both sides**, and answers the same. -/
theorem runFunction_agrees {fn fn' : Function} (args : List Value) (hstep : InStep r T m m')
    (hfn : FunctionVaries r T m.heap [] fn fn') :
    Agrees r T m (runFunction rules (n + 1) fn args m)
      (runFunction rules (n + 1) fn' args m') := by
  obtain ⟨k, rfl, hheap⟩ := hstep.exists_heap
  simp only [runFunction]
  by_cases hfew : args.length < fn.decl.params.length
  · have hfew' : args.length < fn'.decl.params.length := by rwa [hfn.arity]
    change Agrees r T m (Action.andThen _ _ m) (Action.andThen _ _ _)
    simp only [Action.andThen, enterCall, if_pos hfew, if_pos hfew']
    exact .crashed (.refl hstep)
  · have hargs : fn.decl.params.length ≤ args.length := Nat.not_lt.1 hfew
    have hargs' : fn'.decl.params.length ≤ args.length := by rwa [hfn.arity]
    obtain ⟨T₁, inner, hgrown, henter, hid, haround, hbody⟩ := hheap.enter hfn args
    have hled := Led.of_heap hgrown henter
    change Agrees r T m (Action.andThen _ _ m) (Action.andThen _ _ _)
    unfold Action.andThen
    rw [enterCall_eq hargs, enterCall_eq hargs']
    simp only [hid]
    refine Agrees.after hled (Agrees.bind (.inScope hled.inStep ?_) fun c T₂ n₂ n₂' hled₂ => ?_)
    · exact ih.executeAll hbody _ _ _ ⟨henter, rfl, rfl, rfl⟩ haround
    · have hfn₂ : FunctionVaries r T₂ n₂.heap [] fn fn' := hfn.extend (hgrown.trans hled₂.grown)
      unfold leaveCall
      rw [hled₂.inStep.heap.answer hfn₂]
      exact .done _ (.refl hled₂.inStep)

include hrules in
theorem execute_follows {s s' : Stmt Address} (h : s.Varies r.variation around s') :
    Follows r around (execute rules (n + 1) s) (execute rules (n + 1) s') := by
  cases h <;> simp only [execute]
  case expr h => exact (ih.evaluate h).bind fun _ => .pure _
  case print keyword h =>
    refine (ih.evaluate h).bind fun v => ?_
    exact (Follows.print v).bind fun _ => .pure _
  case varDecl hname h =>
    refine (ih.evaluateOption h).bind fun v => ?_
    exact (Follows.define hname.lexeme v).bind fun _ => .pure _
  case block here brace h => exact (ih.executeAll h).inNewScope here
  case branch keyword hcond hyes hno =>
    refine (ih.evaluate hcond).bind fun c => ?_
    split
    · exact ih.execute hyes
    · exact ih.executeOption hno
  case loop keyword hcond hbody => exact ih.repeatWhile hcond hbody
  case function hname h => exact (declareFunction_follows hname h).bind fun _ => .pure _
  case ret keyword h => exact (ih.evaluateOption h).bind fun v => .pure _
  case classDecl hname hsuperclass hmethods =>
    refine (readSuperclass_follows hrules hsuperclass).bind fun c => ?_
    exact (declareClass_follows hname hmethods).bind fun _ => .pure _

theorem executeAll_follows {ss ss' : List (Stmt Address)}
    (h : Stmt.VariesAll r.variation around ss ss') :
    Follows r around (executeAll rules (n + 1) ss) (executeAll rules (n + 1) ss') := by
  cases h <;> simp only [executeAll]
  case nil => exact .pure _
  case cons h hrest =>
    refine (ih.execute h).bind fun c => ?_
    cases c with
    | returning v => exact .pure _
    | normal => exact ih.executeAll hrest

theorem repeatWhile_follows {cond cond' : Expr Address} {body body' : Option (Stmt Address)}
    (hcond : cond.Varies r.variation around cond')
    (hbody : Stmt.VariesOption r.variation around body body') :
    Follows r around (repeatWhile rules (n + 1) cond body)
      (repeatWhile rules (n + 1) cond' body') := by
  simp only [repeatWhile]
  refine (ih.evaluate hcond).bind fun v => ?_
  split
  · refine (ih.executeOption hbody).bind fun c => ?_
    cases c with
    | returning v => exact .pure _
    | normal => exact ih.repeatWhile hcond hbody
  · exact .pure _

end

/-- **Running code stays in step with running its renamed twin**, whatever
the bound. -/
theorem mimics {rules : Rules} (hrules : rules.addressing = .distance) (r : Renaming) :
    ∀ n, Mimics rules r n
  | 0 =>
    { evaluate := fun _ => .stop
      evaluateAll := fun _ => .stop
      apply := fun _ _ _ => .stop
      invoke := fun _ _ _ => .stop
      runFunction := fun _ hstep _ => .exhausted (.refl hstep)
      execute := fun _ => .stop
      evaluateOption := fun _ => .stop
      executeOption := fun _ => .stop
      executeAll := fun _ => .stop
      repeatWhile := fun _ _ => .stop }
  | n + 1 =>
    have ih := mimics hrules r n
    { evaluate := evaluate_follows hrules ih
      evaluateAll := evaluateAll_follows ih
      apply := apply_follows ih
      invoke := invoke_follows ih
      runFunction := runFunction_agrees ih
      execute := execute_follows hrules ih
      evaluateOption := fun h => by
        cases h with
        | none => exact .pure _
        | some h => exact ih.evaluate h
      executeOption := fun h => by
        cases h with
        | none => exact .pure _
        | some h => exact ih.execute h
      executeAll := executeAll_follows ih
      repeatWhile := repeatWhile_follows ih }

/-- **A program stays in step with its renamed twin.** -/
theorem interpret_follows {rules : Rules} (hrules : rules.addressing = .distance) (bound : Nat)
    {p p' : Program Address} (h : Stmt.VariesAll r.variation [] p p') :
    Follows r [] (interpret rules bound p) (interpret rules bound p') := by
  induction p generalizing p' with
  | nil =>
    cases h
    exact .pure ()
  | cons s rest ih =>
    cases h with
    | cons h hrest => exact ((mimics hrules r bound).execute h).bind fun _ => ih hrest

/-! ## Machines before a program -/

/-- What stands where a renaming is not for. -/
theorem Stands.elsewhere {L : Ledger} {h : Heap} {Γ : Scoping.Context} {s : ScopeId}
    (hstands : Stands L h Γ s) :
    Around (fun _ => false) h (Γ.map fun _ => false) s := by
  induction hstands with
  | globals => exact .globals
  | inside hscope houter _ _ _ _ ih => exact .inside hscope houter ih

theorem elsewhere_map (Γ : Scoping.Context) : Renaming.Elsewhere (Γ.map fun _ => false) := by
  intro here hmem
  obtain ⟨E, -, rfl⟩ := List.mem_map.1 hmem
  rfl

/-- **A sound heap mirrors itself**: no code in it is renamed. -/
theorem Sound.mirrors {strict : Prop} {L : Ledger} {h : Heap} (hsound : Sound strict L h) :
    Mirrors r (fun _ => false) h h where
  scopeCount := rfl
  scopes s := by
    have hsame : Scope.rename r false = id := by
      funext scope
      have hvalues : scope.values.rekey (r.swap false) = scope.values := Table.rekey_id scope.values
      simp only [Scope.rename, hvalues, id]
    rw [hsame, Option.map_id, id]
  globals := ⟨rfl, hsound.globals⟩
  functionCount := rfl
  functions f := by
    cases hf : h.function? f with
    | none => exact .none
    | some fn =>
      obtain ⟨Γ, hstands, hfits, -⟩ := hsound.functions f fn hf
      exact .some ⟨⟨_, hstands.elsewhere, .refl fn.decl (elsewhere_map Γ) hfits,
        fun _ => (elsewhere_map Γ).headD⟩, rfl, rfl⟩
  classCount := rfl
  classes c := by
    cases hc : h.class? c with
    | none => exact .none
    | some cls =>
      refine .some ⟨rfl, rfl, fun x => ?_⟩
      cases hx : cls.methods.find? x with
      | none => exact .none
      | some fn =>
        obtain ⟨Γ, hstands, hfits⟩ := hsound.methods c cls x fn hc hx
        exact .some ⟨⟨_, hstands.elsewhere, .refl fn.decl (elsewhere_map Γ).cons hfits,
          fun _ => rfl⟩, rfl, rfl⟩
  natives := rfl
  instances := rfl
  registry := rfl

end Eval

end TanLang
