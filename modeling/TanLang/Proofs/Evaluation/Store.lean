import TanLang.Machine
import TanLang.Proofs.Scoping.Context
/-!
# Evaluation — scopes in the heap and scopes in the text

A ledger records, for each scope in the heap, the names that the text it
was made for may declare. `Stands` ties a context to a chain of scopes: they
go out in step, every name that can be read is bound, and both agree on the
names that may be declared.

A heap is sound if no scope but the globals binds a name that its text does
not declare, and if **every function in it was made in scopes that its code
fits**. Running a program makes new scopes and binds more names, and never
takes either away; what stands goes on standing.
-/

namespace TanLang

open Scoping

/-! ## What the operations on a heap do to its scopes -/

namespace Heap

variable (h : Heap)

theorem scope?_define (s t : ScopeId) (x : Text) (v : Value) :
    (h.define s x v).scope? t =
      if t = s then (h.scope? s).map fun scope => { scope with values := scope.values.insert x v }
      else h.scope? t := by
  obtain ⟨i⟩ := s
  obtain ⟨j⟩ := t
  simp only [scope?, define, Array.getElem?_modify, ScopeId.mk.injEq]
  by_cases hij : j = i
  · rw [if_pos hij, if_pos hij.symm, hij]
  · rw [if_neg hij, if_neg (Ne.symm hij)]

theorem scope?_newScope (outer : Option ScopeId) (t : ScopeId) :
    (h.newScope outer).1.scope? t =
      if t = (h.newScope outer).2 then some ⟨.empty, outer⟩ else h.scope? t := by
  obtain ⟨j⟩ := t
  simp only [scope?, newScope, Array.getElem?_push, ScopeId.mk.injEq]

/-- A new scope is not one that was there. -/
theorem ne_newScope {outer : Option ScopeId} {t : ScopeId} (ht : (h.scope? t).isSome = true) :
    t ≠ (h.newScope outer).2 := by
  rintro rfl
  simp [scope?, newScope] at ht

theorem index_lt_newScope {outer : Option ScopeId} {t : ScopeId}
    (ht : (h.scope? t).isSome = true) : t.index < (h.newScope outer).2.index := by
  simpa [scope?, newScope] using ht

theorem boundIn_eq_some {s : ScopeId} {x : Text} :
    (h.boundIn s x).isSome = true ↔
      ∃ scope, h.scope? s = some scope ∧ (scope.values.find? x).isSome = true := by
  unfold boundIn
  cases h.scope? s <;> simp

/-- The scope that holds a name binds it. -/
theorem isSome_boundIn_of_holder {h : Heap} {s t : ScopeId} {x : Text}
    (hs : h.holder t x = some s) : (h.boundIn s x).isSome = true := by
  unfold holder at hs
  generalize h.scopes.size = steps at hs
  induction steps generalizing t with
  | zero => cases hs
  | succ steps ih =>
    rw [holderWithin] at hs
    split at hs
    · cases hs
    · rename_i scope hscope
      split at hs
      · cases hs
        exact h.boundIn_eq_some.2 ⟨scope, hscope, ‹_›⟩
      · split at hs
        · cases hs
        · exact ih hs

/-- The methods of a class are a matter of the classes only. -/
theorem method?_congr {h h' : Heap} {c : ClassId} {name : Text} (heq : h.classes = h'.classes) :
    h.method? c name = h'.method? c name := by
  have hwithin : ∀ steps c, h.methodWithin name steps c = h'.methodWithin name steps c := by
    intro steps
    induction steps with
    | zero => exact fun _ => rfl
    | succ steps ih =>
      intro c
      simp only [methodWithin, class?, heq, ih]
  rw [method?, method?, hwithin, heq]

/-- The method that a class has is one that some class declared. -/
theorem exists_class_of_method? {h : Heap} {c : ClassId} {name : Text} {fn : Function}
    (hfn : h.method? c name = some fn) :
    ∃ c' cls, h.class? c' = some cls ∧ cls.methods.find? name = some fn := by
  unfold Heap.method? at hfn
  -- the search goes up the superclasses, and the class it stops at declares `fn`
  generalize h.classes.size = steps at hfn
  induction steps generalizing c with
  | zero => cases hfn
  | succ steps ih =>
    rw [Heap.methodWithin] at hfn
    cases hc : h.class? c with
    | none => simp only [hc, reduceCtorEq] at hfn
    | some cls =>
      simp only [hc] at hfn
      cases hm : cls.methods.find? name with
      | some m =>
        simp only [hm, Option.some.injEq] at hfn
        subst hfn
        exact ⟨c, cls, hc, hm⟩
      | none =>
        simp only [hm] at hfn
        cases hsup : cls.superclass with
        | none => simp only [hsup, reduceCtorEq] at hfn
        | some superclass =>
          simp only [hsup] at hfn
          exact ih hfn

/-- A method that an instance has as a property is one of a class. -/
theorem exists_method?_of_property? {h : Heap} {i : InstanceId} {name : Text} {fn : Function}
    (hfn : h.property? i name = some (.method fn)) : ∃ c, h.method? c name = some fn := by
  unfold Heap.property? at hfn
  cases hi : h.instance? i with
  | none => simp only [hi, reduceCtorEq] at hfn
  | some inst =>
    simp only [hi] at hfn
    cases hfield : inst.fields.find? name with
    | some v => simp only [hfield, Option.some.injEq, reduceCtorEq] at hfn
    | none =>
      simp only [hfield] at hfn
      obtain ⟨f, hf, heq⟩ := Option.map_eq_some_iff.1 hfn
      cases heq
      exact ⟨inst.classOf, hf⟩

end Heap

/-- Inserting keeps what was there. -/
theorem Table.isSome_find?_insert {α : Type} {t : Table α} {x y : Text} {v : α} :
    ((t.insert x v).find? y).isSome = true ↔ y = x ∨ (t.find? y).isSome = true := by
  by_cases hyx : y = x
  · subst hyx
    simp [Table.find?_insert_self]
  · simp [Table.find?_insert_of_ne t v hyx, hyx]

namespace Eval

/-- For each scope, the names that its text may declare. -/
abbrev Ledger := ScopeId → Text → Prop

/-! ## Contexts and chains of scopes -/

/-- **A context stands for the chain of scopes** that starts at a scope. -/
inductive Stands (L : Ledger) (h : Heap) : Context → ScopeId → Prop where
  | globals : Stands L h [] Machine.globals
  | inside {E : Entry} {Γ : Context} {s outer : ScopeId} {scope : Scope}
      (hscope : h.scope? s = some scope) (houter : scope.outer = some outer)
      (hbefore : outer.index < s.index) (hallowed : L s = E.allowed)
      (hbound : ∀ x, E.marks.find? x = some true → (scope.values.find? x).isSome = true)
      (hrest : Stands L h Γ outer) : Stands L h (E :: Γ) s

section

variable (strict : Prop) (L : Ledger) (h : Heap)

/-- A function's code fits the scopes it was made in, and where it sets up
instances its own scope binds `this`. -/
def FunctionFits (f : Function) : Prop :=
  ∃ Γ, Stands L h Γ f.closure ∧ RoutineFits strict Γ f.decl ∧
    (f.isInit = true → (h.boundIn f.closure thisName).isSome = true)

/-- The same for a method that is not bound to an instance yet. -/
def MethodFits (f : Function) : Prop :=
  ∃ Γ, Stands L h Γ f.closure ∧ RoutineFits strict (thisEntry :: Γ) f.decl

/-- **A sound heap.** -/
structure Sound : Prop where
  globals : ∃ scope, h.scope? Machine.globals = some scope ∧ scope.outer = none
  bound : ∀ s scope x, h.scope? s = some scope → scope.outer.isSome = true →
    (scope.values.find? x).isSome = true → L s x
  functions : ∀ f fn, h.function? f = some fn → FunctionFits strict L h fn
  methods : ∀ c cls name fn, h.class? c = some cls → cls.methods.find? name = some fn →
    MethodFits strict L h fn

end

/-- **What running can do to the scopes there are**: bind more names. -/
structure Grows (L : Ledger) (h : Heap) (L' : Ledger) (h' : Heap) : Prop where
  ledger : ∀ s, (h.scope? s).isSome = true → L' s = L s
  scopes : ∀ s scope, h.scope? s = some scope → ∃ scope', h'.scope? s = some scope' ∧
    scope'.outer = scope.outer ∧
    ∀ x, (scope.values.find? x).isSome = true → (scope'.values.find? x).isSome = true

namespace Grows

variable {L L₁ L₂ : Ledger} {h h₁ h₂ : Heap}

theorem refl (L : Ledger) (h : Heap) : Grows L h L h :=
  ⟨fun _ _ => rfl, fun _ scope hs => ⟨scope, hs, rfl, fun _ hx => hx⟩⟩

theorem trans (h₁₂ : Grows L h L₁ h₁) (h₂₃ : Grows L₁ h₁ L₂ h₂) : Grows L h L₂ h₂ := by
  constructor
  · intro s hs
    obtain ⟨scope, hscope⟩ := Option.isSome_iff_exists.1 hs
    obtain ⟨scope', hscope', -⟩ := h₁₂.scopes s scope hscope
    rw [h₂₃.ledger s (by rw [hscope']; rfl), h₁₂.ledger s hs]
  · intro s scope hs
    obtain ⟨scope', hs', houter, hbound⟩ := h₁₂.scopes s scope hs
    obtain ⟨scope'', hs'', houter', hbound'⟩ := h₂₃.scopes s scope' hs'
    exact ⟨scope'', hs'', houter'.trans houter, fun x hx => hbound' x (hbound x hx)⟩

/-- What leaves the scopes alone lets nothing grow. -/
theorem of_scopes_eq (heq : h₁.scopes = h.scopes) : Grows L h L h₁ := by
  refine ⟨fun _ _ => rfl, fun s scope hs => ⟨scope, ?_, rfl, fun _ hx => hx⟩⟩
  rwa [Heap.scope?, heq]

theorem define (s : ScopeId) (x : Text) (v : Value) : Grows L h L (h.define s x v) := by
  refine ⟨fun _ _ => rfl, fun t scope ht => ?_⟩
  rw [Heap.scope?_define]
  by_cases hts : t = s
  · subst hts
    rw [if_pos rfl, ht]
    exact ⟨_, rfl, rfl, fun y hy => Table.isSome_find?_insert.2 (.inr hy)⟩
  · rw [if_neg hts]
    exact ⟨scope, ht, rfl, fun _ hx => hx⟩

theorem newScope (outer : Option ScopeId)
    (hledger : ∀ s, (h.scope? s).isSome = true → L₁ s = L s) :
    Grows L h L₁ (h.newScope outer).1 := by
  refine ⟨hledger, fun t scope ht => ⟨scope, ?_, rfl, fun _ hx => hx⟩⟩
  rw [Heap.scope?_newScope, if_neg (h.ne_newScope (by rw [ht]; rfl)), ht]

theorem boundIn (hgrows : Grows L h L₁ h₁) {s : ScopeId} {x : Text}
    (hx : (h.boundIn s x).isSome = true) : (h₁.boundIn s x).isSome = true := by
  obtain ⟨scope, hscope, hfind⟩ := h.boundIn_eq_some.1 hx
  obtain ⟨scope', hscope', -, hbound⟩ := hgrows.scopes s scope hscope
  exact h₁.boundIn_eq_some.2 ⟨scope', hscope', hbound x hfind⟩

end Grows

/-! ## What stands goes on standing -/

section

variable {strict : Prop} {L L' : Ledger} {h h' : Heap} {Γ : Context} {s : ScopeId}

theorem Stands.grow (hstands : Stands L h Γ s) (hgrows : Grows L h L' h') : Stands L' h' Γ s := by
  induction hstands with
  | globals => exact .globals
  | inside hscope houter hbefore hallowed hbound _ ih =>
    -- the scope is where it was and encloses what it did; it may bind more
    obtain ⟨scope', hscope', houter', hbound'⟩ := hgrows.scopes _ _ hscope
    have hledger := hgrows.ledger _ (by rw [hscope]; rfl)
    exact .inside hscope' (houter'.trans houter) hbefore (hledger.trans hallowed)
      (fun x hx => hbound' x (hbound x hx)) ih

theorem FunctionFits.grow {f : Function} (hf : FunctionFits strict L h f)
    (hgrows : Grows L h L' h') : FunctionFits strict L' h' f := by
  obtain ⟨Γ, hstands, hfits, hthis⟩ := hf
  exact ⟨Γ, hstands.grow hgrows, hfits, fun hinit => hgrows.boundIn (hthis hinit)⟩

theorem MethodFits.grow {f : Function} (hf : MethodFits strict L h f)
    (hgrows : Grows L h L' h') : MethodFits strict L' h' f := by
  obtain ⟨Γ, hstands, hfits⟩ := hf
  exact ⟨Γ, hstands.grow hgrows, hfits⟩

/-- The scope that a context stands at is there. -/
theorem Stands.isSome_scope (hstands : Stands L h Γ s) (hsound : Sound strict L h) :
    (h.scope? s).isSome = true := by
  cases hstands with
  | globals =>
    obtain ⟨scope, hscope, -⟩ := hsound.globals
    rw [hscope]
    rfl
  | inside hscope => rw [hscope]; rfl

end

/-! ## Sound heaps stay sound -/

namespace Sound

variable {strict : Prop} {L L' : Ledger} {h h' : Heap}

/-- Functions and classes are not touched where only scopes are. -/
theorem of_grows (hsound : Sound strict L h) (hgrows : Grows L h L' h')
    (hfunctions : h'.functions = h.functions) (hclasses : h'.classes = h.classes)
    (hbound : ∀ s scope x, h'.scope? s = some scope → scope.outer.isSome = true →
      (scope.values.find? x).isSome = true → L' s x) : Sound strict L' h' where
  globals := by
    obtain ⟨scope, hscope, houter⟩ := hsound.globals
    obtain ⟨scope', hscope', houter', -⟩ := hgrows.scopes _ _ hscope
    exact ⟨scope', hscope', houter'.trans houter⟩
  bound := hbound
  functions f fn hf := by
    rw [Heap.function?, hfunctions] at hf
    exact (hsound.functions f fn hf).grow hgrows
  methods c cls name fn hc hfn := by
    rw [Heap.class?, hclasses] at hc
    exact (hsound.methods c cls name fn hc hfn).grow hgrows

/-- Nothing is asked of the names in the globals, which no scope encloses. -/
theorem allows_globals (hsound : Sound strict L h) {x : Text} (scope : Scope)
    (hscope : h.scope? Machine.globals = some scope) (houter : scope.outer.isSome = true) :
    L Machine.globals x := by
  obtain ⟨top, htop, hnone⟩ := hsound.globals
  cases htop.symm.trans hscope
  rw [hnone] at houter
  cases houter

/-- A name may be bound in the globals, and where its text declares it. -/
theorem define (hsound : Sound strict L h) {s : ScopeId} {x : Text} {v : Value}
    (hx : ∀ scope, h.scope? s = some scope → scope.outer.isSome = true → L s x) :
    Sound strict L (h.define s x v) := by
  refine hsound.of_grows (.define s x v) rfl rfl fun t scope y ht houter hy => ?_
  rw [Heap.scope?_define] at ht
  by_cases hts : t = s
  · subst hts
    rw [if_pos rfl] at ht
    obtain ⟨old, hold, rfl⟩ := Option.map_eq_some_iff.1 ht
    rcases Table.isSome_find?_insert.1 hy with rfl | hy
    · exact hx old hold houter
    · exact hsound.bound t old y hold houter hy
  · rw [if_neg hts] at ht
    exact hsound.bound t scope y ht houter hy

theorem newScope (hsound : Sound strict L h) (outer : Option ScopeId)
    (hledger : ∀ s, (h.scope? s).isSome = true → L' s = L s) :
    Sound strict L' (h.newScope outer).1 := by
  refine hsound.of_grows (.newScope outer hledger) rfl rfl fun t scope y ht houter hy => ?_
  rw [Heap.scope?_newScope] at ht
  by_cases hnew : t = (h.newScope outer).2
  · rw [if_pos hnew] at ht
    cases ht
    cases hy
  · rw [if_neg hnew] at ht
    rw [hledger t (by rw [ht]; rfl)]
    exact hsound.bound t scope y ht houter hy

/-- What leaves scopes, functions and classes alone keeps a heap sound. -/
theorem of_eq (hsound : Sound strict L h) (hscopes : h'.scopes = h.scopes)
    (hfunctions : h'.functions = h.functions) (hclasses : h'.classes = h.classes) :
    Sound strict L h' := by
  refine hsound.of_grows (.of_scopes_eq hscopes) hfunctions hclasses fun s scope x hs => ?_
  rw [Heap.scope?, hscopes] at hs
  exact hsound.bound s scope x hs

theorem newFunction (hsound : Sound strict L h) {f : Function} (hf : FunctionFits strict L h f) :
    Sound strict L (h.newFunction f).1 where
  globals := hsound.globals
  bound := hsound.bound
  functions g fn hg := by
    have hgrows : Grows L h L (h.newFunction f).1 := .of_scopes_eq rfl
    simp only [Heap.function?, Heap.newFunction, Array.getElem?_push] at hg
    split at hg
    · cases hg
      exact hf.grow hgrows
    · exact (hsound.functions g fn hg).grow hgrows
  methods c cls name fn hc hfn := (hsound.methods c cls name fn hc hfn).grow (.of_scopes_eq rfl)

theorem newClass (hsound : Sound strict L h) {cls : Class}
    (hcls : ∀ name fn, cls.methods.find? name = some fn → MethodFits strict L h fn) :
    Sound strict L (h.newClass cls).1 where
  globals := hsound.globals
  bound := hsound.bound
  functions f fn hf := (hsound.functions f fn hf).grow (.of_scopes_eq rfl)
  methods c cls' name fn hc hfn := by
    have hgrows : Grows L h L (h.newClass cls).1 := .of_scopes_eq rfl
    simp only [Heap.class?, Heap.newClass, Array.getElem?_push] at hc
    split at hc
    · cases hc
      exact (hcls name fn hfn).grow hgrows
    · exact (hsound.methods c cls' name fn hc hfn).grow hgrows

/-- The method that a class has fits. -/
theorem method? (hsound : Sound strict L h) {c : ClassId} {name : Text} {fn : Function}
    (hfn : h.method? c name = some fn) : MethodFits strict L h fn := by
  obtain ⟨c', cls, hc, hm⟩ := Heap.exists_class_of_method? hfn
  exact hsound.methods c' cls name fn hc hm

end Sound

/-! ## Making scopes and binding names -/

/-- The ledger with the names of a scope entered. -/
def Ledger.enter (L : Ledger) (s : ScopeId) (allowed : Text → Prop) : Ledger :=
  fun t => if t = s then allowed else L t

/-- **A sound heap grew out of another one**, and a context stands at one of
its scopes. -/
structure Leads (strict : Prop) (L : Ledger) (h : Heap) (L' : Ledger) (h' : Heap) (Γ : Context)
    (s : ScopeId) : Prop where
  grows : Grows L h L' h'
  sound : Sound strict L' h'
  stands : Stands L' h' Γ s

section

variable {strict : Prop} {L : Ledger} {h : Heap} {Γ : Context} {s : ScopeId}

/-- A new scope inside one that a context stands at. -/
theorem leads_newScope (hsound : Sound strict L h) (hstands : Stands L h Γ s)
    (allowed : Text → Prop) :
    Leads strict L h (L.enter (h.newScope (some s)).2 allowed) (h.newScope (some s)).1
      (⟨.empty, allowed⟩ :: Γ) (h.newScope (some s)).2 := by
  have hledger : ∀ t, (h.scope? t).isSome = true →
      L.enter (h.newScope (some s)).2 allowed t = L t :=
    fun t ht => if_neg (h.ne_newScope ht)
  have hgrows := Grows.newScope (some s) hledger
  have hscope : (h.newScope (some s)).1.scope? (h.newScope (some s)).2 =
      some ⟨.empty, some s⟩ := by
    rw [Heap.scope?_newScope, if_pos rfl]
  refine ⟨hgrows, hsound.newScope (some s) hledger,
    .inside hscope rfl ?_ ?_ ?_ (hstands.grow hgrows)⟩
  · exact h.index_lt_newScope (hstands.isSome_scope hsound)
  · exact if_pos rfl
  · intro x hx
    cases hx

/-- A name is bound in the scope that a context stands at, and can be read
from then on. -/
theorem leads_define (hsound : Sound strict L h) (hstands : Stands L h Γ s) {x : Text}
    (hx : Γ.Allows x) (v : Value) : Leads strict L h L (h.define s x v) (Γ.mark x true) s := by
  have hgrows : Grows L h L (h.define s x v) := .define s x v
  cases hstands with
  | globals =>
    exact ⟨hgrows, hsound.define hsound.allows_globals, .globals⟩
  | @inside E Γ _ outer scope hscope houter hbefore hallowed hbound hrest =>
    have hname : L s x := by
      rw [hallowed]
      exact hx E rfl
    have hscope' : (h.define s x v).scope? s =
        some { scope with values := scope.values.insert x v } := by
      rw [Heap.scope?_define, if_pos rfl, hscope]
      rfl
    refine ⟨hgrows, hsound.define fun _ _ _ => hname,
      .inside hscope' houter hbefore hallowed (fun y hy => ?_) (hrest.grow hgrows)⟩
    refine Table.isSome_find?_insert.2 ?_
    by_cases hyx : y = x
    · exact .inl hyx
    · rw [Table.find?_insert_of_ne _ _ hyx] at hy
      exact .inr (hbound y hy)

/-- A name that is declared again cannot be read for now. -/
theorem Stands.mark_false (hstands : Stands L h Γ s) (x : Text) :
    Stands L h (Γ.mark x false) s := by
  cases hstands with
  | globals => exact .globals
  | inside hscope houter hbefore hallowed hbound hrest =>
    refine .inside hscope houter hbefore hallowed (fun y hy => ?_) hrest
    by_cases hyx : y = x
    · -- the scope may bind the name all the same: no promise is made of it
      subst hyx
      rw [Table.find?_insert_self] at hy
      cases hy
    · rw [Table.find?_insert_of_ne _ _ hyx] at hy
      exact hbound y hy

/-- Parameters are bound one after the other. -/
theorem leads_defineAll {allowed : Text → Prop} : ∀ {params : List Token} {args : List Value}
    {h : Heap} {marks : Frame}, Sound strict L h → Stands L h (⟨marks, allowed⟩ :: Γ) s →
      (∀ p ∈ params, allowed p.lexeme) → params.length ≤ args.length →
      Leads strict L h L (h.defineAll s params args)
        (⟨params.foldl (fun frame p => frame.insert p.lexeme true) marks, allowed⟩ :: Γ) s
  | [], args, h, marks, hsound, hstands, _, _ => by
    cases args <;> exact ⟨.refl L h, hsound, hstands⟩
  | p :: params, [], h, marks, _, _, _, hlength => nomatch hlength
  | p :: params, arg :: args, h, marks, hsound, hstands, hallowed, hlength => by
    have hp : Context.Allows (⟨marks, allowed⟩ :: Γ) p.lexeme := by
      intro E hE
      cases hE
      exact hallowed p List.mem_cons_self
    have hfirst := leads_define hsound hstands hp arg
    have hrest := leads_defineAll hfirst.sound hfirst.stands
      (fun q hq => hallowed q (List.mem_cons_of_mem p hq)) (Nat.le_of_succ_le_succ hlength)
    exact ⟨hfirst.grows.trans hrest.grows, hrest.sound, hrest.stands⟩

/-- **The scope of a call** is one that the function's body fits. -/
theorem leads_enter {f : Function} {args : List Value} (hsound : Sound strict L h)
    (hf : FunctionFits strict L h f) (hargs : f.decl.params.length ≤ args.length) :
    ∃ L' Γ', Leads strict L h L' (h.enter f args).1 Γ' (h.enter f args).2 ∧
      BodyFits strict Γ' f.decl.body ∧ ∀ x, ¬ Γ'.Makes x := by
  obtain ⟨Γ, hstands, hfits, -⟩ := hf
  obtain ⟨allowed, hallowed, hbody⟩ := (routineFits_iff strict).1 hfits
  have hnew := leads_newScope hsound hstands allowed
  have hall := leads_defineAll hnew.sound hnew.stands hallowed hargs
  exact ⟨_, _, ⟨hnew.grows.trans hall.grows, hall.sound, hall.stands⟩, hbody,
    Context.not_makes_params⟩

/-- **A method bound to an instance** is a function that fits. -/
theorem leads_bind {f : Function} (hsound : Sound strict L h) (hf : MethodFits strict L h f)
    (i : InstanceId) : ∃ L', Grows L h L' (h.bind f i).1 ∧ Sound strict L' (h.bind f i).1 ∧
      FunctionFits strict L' (h.bind f i).1 (h.bind f i).2 := by
  obtain ⟨Γ, hstands, hfits⟩ := hf
  -- binding makes the scope that resolution pushed around the methods
  have hnew := leads_newScope hsound hstands thisEntry.allowed
  have hallows : Context.Allows (⟨.empty, thisEntry.allowed⟩ :: Γ) thisName := by
    intro E hE
    cases hE
    rfl
  have hthis := leads_define hnew.sound hnew.stands hallows (.instanceRef i)
  refine ⟨_, hnew.grows.trans hthis.grows, hthis.sound, _, hthis.stands, hfits, fun _ => ?_⟩
  refine (Heap.boundIn_eq_some _).2 ?_
  cases hthis.stands with
  | inside hscope _ _ _ hbound _ =>
    exact ⟨_, hscope, hbound thisName (Table.find?_insert_self _ _ _)⟩

end

end Eval

end TanLang
