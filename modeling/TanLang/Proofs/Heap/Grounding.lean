import TanLang.Proofs.Evaluation.Store
/-!
# The heap — everything is there, and was there before

A heap is grounded if everything that is referred to in it exists, and if a
scope encloses only later ones and a class inherits only from earlier ones.
Everything is made once and never moved or taken away, so **a heap that grows
stays grounded as long as what is new refers to what is there**. In such a
heap no way out of the scopes and no way up the classes comes back to where
it was.
-/

namespace TanLang

namespace Heap

/-- **A heap has grown**: of each kind there is as much as before, or more. -/
structure Grown (h h' : Heap) : Prop where
  scopes : h.scopes.size ≤ h'.scopes.size
  functions : h.functions.size ≤ h'.functions.size
  natives : h.natives.size ≤ h'.natives.size
  classes : h.classes.size ≤ h'.classes.size
  instances : h.instances.size ≤ h'.instances.size

theorem Grown.refl (h : Heap) : h.Grown h :=
  ⟨Nat.le_refl _, Nat.le_refl _, Nat.le_refl _, Nat.le_refl _, Nat.le_refl _⟩

theorem Grown.trans {h h₁ h₂ : Heap} (first : h.Grown h₁) (second : h₁.Grown h₂) : h.Grown h₂ :=
  ⟨Nat.le_trans first.scopes second.scopes, Nat.le_trans first.functions second.functions,
    Nat.le_trans first.natives second.natives, Nat.le_trans first.classes second.classes,
    Nat.le_trans first.instances second.instances⟩

/-- What a value refers to is there. -/
def Knows (h : Heap) : Value → Prop
  | .function f => f.index < h.functions.size
  | .native f => f.index < h.natives.size
  | .classRef c => c.index < h.classes.size
  | .instanceRef i => i.index < h.instances.size
  | _ => True

theorem Knows.grow {h h' : Heap} {v : Value} (hv : h.Knows v) (hgrown : h.Grown h') :
    h'.Knows v := by
  cases v with
  | function f => exact Nat.lt_of_lt_of_le hv hgrown.functions
  | native f => exact Nat.lt_of_lt_of_le hv hgrown.natives
  | classRef c => exact Nat.lt_of_lt_of_le hv hgrown.classes
  | instanceRef i => exact Nat.lt_of_lt_of_le hv hgrown.instances
  | _ => trivial

/-- **A lookup of a method ends by itself**: no number of steps that is
larger than the number of classes changes what it finds. -/
def Searchable (h : Heap) : Prop :=
  ∀ name c steps, h.classes.size ≤ steps → h.methodWithin name steps c = h.method? c name

end Heap

/-! ## What refers to things that are there -/

/-- The values in a table refer to things that are there. -/
def Table.Grounded (t : Table Value) (h : Heap) : Prop := ∀ x v, t.find? x = some v → h.Knows v

/-- The scope around a function is there. -/
def Function.Grounded (f : Function) (h : Heap) : Prop := f.closure.index < h.scopes.size

/-- A value that refers to nothing is known in every heap. -/
def Value.Bare (v : Value) : Prop := ∀ h : Heap, h.Knows v

/-- What a native answers with refers to nothing. -/
def Native.Grounded (f : Native) : Prop := ∀ w args v, f.run w args = .ok v → v.Bare

/-- **A scope in its place**: it was made after the one that encloses it, and
only the globals are enclosed by none. -/
structure Scope.Grounded (scope : Scope) (s : ScopeId) (h : Heap) : Prop where
  outer : ∀ outer, scope.outer = some outer → outer.index < s.index
  globals : scope.outer = none → s = Machine.globals
  values : scope.values.Grounded h

/-- **A class in its place**: it was made after the one it inherits from. -/
structure Class.Grounded (cls : Class) (c : ClassId) (h : Heap) : Prop where
  superclass : ∀ sup, cls.superclass = some sup → sup.index < c.index
  methods : ∀ name fn, cls.methods.find? name = some fn → fn.Grounded h

/-- The class of an instance and what its fields refer to are there. -/
structure Instance.Grounded (inst : Instance) (h : Heap) : Prop where
  classOf : inst.classOf.index < h.classes.size
  fields : inst.fields.Grounded h

/-- **A grounded heap.** -/
structure Heap.Grounded (h : Heap) : Prop where
  scopes : ∀ s scope, h.scope? s = some scope → scope.Grounded s h
  functions : ∀ f fn, h.function? f = some fn → fn.Grounded h
  natives : ∀ f native, h.native? f = some native → native.Grounded
  classes : ∀ c cls, h.class? c = some cls → cls.Grounded c h
  instances : ∀ i inst, h.instance? i = some inst → inst.Grounded h

section

variable {h h' : Heap}

theorem Table.Grounded.grow {t : Table Value} (ht : t.Grounded h) (hgrown : h.Grown h') :
    t.Grounded h' :=
  fun x v hx => (ht x v hx).grow hgrown

theorem Table.Grounded.insert {t : Table Value} (ht : t.Grounded h) {x : Text} {v : Value}
    (hv : h.Knows v) : (t.insert x v).Grounded h := by
  intro y w hy
  by_cases hyx : y = x
  · rw [hyx, Table.find?_insert_self] at hy
    cases hy
    exact hv
  · rw [Table.find?_insert_of_ne t v hyx] at hy
    exact ht y w hy

theorem Table.Grounded.empty : (Table.empty : Table Value).Grounded h := nofun

theorem Function.Grounded.grow {f : Function} (hf : f.Grounded h) (hgrown : h.Grown h') :
    f.Grounded h' :=
  Nat.lt_of_lt_of_le hf hgrown.scopes

theorem Scope.Grounded.grow {scope : Scope} {s : ScopeId} (hscope : scope.Grounded s h)
    (hgrown : h.Grown h') : scope.Grounded s h' :=
  ⟨hscope.outer, hscope.globals, hscope.values.grow hgrown⟩

theorem Class.Grounded.grow {cls : Class} {c : ClassId} (hcls : cls.Grounded c h)
    (hgrown : h.Grown h') : cls.Grounded c h' :=
  ⟨hcls.superclass, fun name fn hfn => (hcls.methods name fn hfn).grow hgrown⟩

theorem Instance.Grounded.grow {inst : Instance} (hinst : inst.Grounded h)
    (hgrown : h.Grown h') : inst.Grounded h' :=
  ⟨Nat.lt_of_lt_of_le hinst.classOf hgrown.classes, hinst.fields.grow hgrown⟩

end

/-! ## A grounded heap that grows -/

namespace Heap.Grounded

variable {h : Heap}

/-- The heap grew to this one, which is grounded, too. -/
structure To (h h' : Heap) : Prop where
  grounded : h'.Grounded
  grown : h.Grown h'

theorem To.trans {h₁ h₂ : Heap} (first : To h h₁) (second : To h₁ h₂) : To h h₂ :=
  ⟨second.grounded, first.grown.trans second.grown⟩

theorem newScope (hh : h.Grounded) {outer : ScopeId} (houter : outer.index < h.scopes.size) :
    To h (h.newScope (some outer)).1 := by
  have hgrown : h.Grown (h.newScope (some outer)).1 :=
    ⟨by simp [Heap.newScope], Nat.le_refl _, Nat.le_refl _, Nat.le_refl _, Nat.le_refl _⟩
  refine ⟨⟨fun s scope hs => ?_, fun f fn hf => (hh.functions f fn hf).grow hgrown, hh.natives,
    fun c cls hc => (hh.classes c cls hc).grow hgrown,
    fun i inst hi => (hh.instances i inst hi).grow hgrown⟩, hgrown⟩
  rw [Heap.scope?_newScope] at hs
  split at hs
  · rename_i hnew
    cases hs
    rw [hnew]
    refine ⟨?_, ?_, .empty⟩
    · rintro _ ⟨⟩
      exact houter
    · rintro ⟨⟩
  · exact (hh.scopes s scope hs).grow hgrown

theorem define (hh : h.Grounded) {s : ScopeId} {x : Text} {v : Value} (hv : h.Knows v) :
    To h (h.define s x v) := by
  have hgrown : h.Grown (h.define s x v) :=
    ⟨by simp [Heap.define], Nat.le_refl _, Nat.le_refl _, Nat.le_refl _, Nat.le_refl _⟩
  refine ⟨⟨fun t scope ht => ?_, fun f fn hf => (hh.functions f fn hf).grow hgrown, hh.natives,
    fun c cls hc => (hh.classes c cls hc).grow hgrown,
    fun i inst hi => (hh.instances i inst hi).grow hgrown⟩, hgrown⟩
  rw [Heap.scope?_define] at ht
  split at ht
  · rename_i hts
    obtain ⟨old, hold, rfl⟩ := Option.map_eq_some_iff.1 ht
    have hgrounded := (hh.scopes s old hold).grow hgrown
    rw [hts]
    exact ⟨hgrounded.outer, hgrounded.globals, hgrounded.values.insert (hv.grow hgrown)⟩
  · exact (hh.scopes t scope ht).grow hgrown

theorem newFunction (hh : h.Grounded) {f : Function} (hf : f.Grounded h) :
    To h (h.newFunction f).1 := by
  have hgrown : h.Grown (h.newFunction f).1 :=
    ⟨Nat.le_refl _, by simp [Heap.newFunction], Nat.le_refl _, Nat.le_refl _, Nat.le_refl _⟩
  refine ⟨⟨fun s scope hs => (hh.scopes s scope hs).grow hgrown, fun g fn hg => ?_,
    hh.natives, fun c cls hc => (hh.classes c cls hc).grow hgrown,
    fun i inst hi => (hh.instances i inst hi).grow hgrown⟩, hgrown⟩
  simp only [Heap.function?, Heap.newFunction, Array.getElem?_push] at hg
  split at hg
  · cases hg
    exact hf.grow hgrown
  · exact (hh.functions g fn hg).grow hgrown

theorem newNative (hh : h.Grounded) {f : Native} (hf : f.Grounded) :
    To h (h.newNative f).1 := by
  have hgrown : h.Grown (h.newNative f).1 :=
    ⟨Nat.le_refl _, Nat.le_refl _, by simp [Heap.newNative], Nat.le_refl _, Nat.le_refl _⟩
  refine ⟨⟨fun s scope hs => (hh.scopes s scope hs).grow hgrown,
    fun f fn hf => (hh.functions f fn hf).grow hgrown, fun i native hi => ?_,
    fun c cls hc => (hh.classes c cls hc).grow hgrown,
    fun i inst hi => (hh.instances i inst hi).grow hgrown⟩, hgrown⟩
  simp only [Heap.native?, Heap.newNative, Array.getElem?_push] at hi
  split at hi
  · cases hi
    exact hf
  · exact hh.natives i native hi

/-- A class may inherit from any class that is there. -/
theorem newClass (hh : h.Grounded) {cls : Class}
    (hsuperclass : ∀ sup, cls.superclass = some sup → sup.index < h.classes.size)
    (hmethods : ∀ name fn, cls.methods.find? name = some fn → fn.Grounded h) :
    To h (h.newClass cls).1 := by
  have hgrown : h.Grown (h.newClass cls).1 :=
    ⟨Nat.le_refl _, Nat.le_refl _, Nat.le_refl _, by simp [Heap.newClass], Nat.le_refl _⟩
  refine ⟨⟨fun s scope hs => (hh.scopes s scope hs).grow hgrown,
    fun f fn hf => (hh.functions f fn hf).grow hgrown, hh.natives, fun c cls' hc => ?_,
    fun i inst hi => (hh.instances i inst hi).grow hgrown⟩, hgrown⟩
  simp only [Heap.class?, Heap.newClass, Array.getElem?_push] at hc
  split at hc
  · rename_i hnew
    cases hc
    refine ⟨?_, fun name fn hfn => (hmethods name fn hfn).grow hgrown⟩
    rw [hnew]
    exact hsuperclass
  · exact (hh.classes c cls' hc).grow hgrown

theorem newInstance (hh : h.Grounded) {c : ClassId} (hc : c.index < h.classes.size) :
    To h (h.newInstance c).1 := by
  have hgrown : h.Grown (h.newInstance c).1 :=
    ⟨Nat.le_refl _, Nat.le_refl _, Nat.le_refl _, Nat.le_refl _, by simp [Heap.newInstance]⟩
  refine ⟨⟨fun s scope hs => (hh.scopes s scope hs).grow hgrown,
    fun f fn hf => (hh.functions f fn hf).grow hgrown, hh.natives,
    fun c cls hc => (hh.classes c cls hc).grow hgrown, fun i inst hi => ?_⟩, hgrown⟩
  simp only [Heap.instance?, Heap.newInstance, Array.getElem?_push] at hi
  split at hi
  · cases hi
    exact ⟨hc, .empty⟩
  · exact (hh.instances i inst hi).grow hgrown

theorem setField (hh : h.Grounded) {i : InstanceId} {x : Text} {v : Value} (hv : h.Knows v) :
    To h (h.setField i x v) := by
  have hgrown : h.Grown (h.setField i x v) :=
    ⟨Nat.le_refl _, Nat.le_refl _, Nat.le_refl _, Nat.le_refl _, by simp [Heap.setField]⟩
  refine ⟨⟨fun s scope hs => (hh.scopes s scope hs).grow hgrown,
    fun f fn hf => (hh.functions f fn hf).grow hgrown, hh.natives,
    fun c cls hc => (hh.classes c cls hc).grow hgrown, fun j inst hj => ?_⟩, hgrown⟩
  simp only [Heap.instance?, Heap.setField, Array.getElem?_modify] at hj
  split at hj
  · obtain ⟨old, hold, rfl⟩ := Option.map_eq_some_iff.1 hj
    have hgrounded := (hh.instances j old hold).grow hgrown
    exact ⟨hgrounded.classOf, hgrounded.fields.insert (hv.grow hgrown)⟩
  · exact (hh.instances j inst hj).grow hgrown

/-- What the natives keep refers to nothing in the heap. -/
theorem keep (hh : h.Grounded) (r : Registry) : To h (h.keep r) := by
  have hgrown : h.Grown (h.keep r) :=
    ⟨Nat.le_refl _, Nat.le_refl _, Nat.le_refl _, Nat.le_refl _, Nat.le_refl _⟩
  exact ⟨⟨fun s scope hs => (hh.scopes s scope hs).grow hgrown,
    fun f fn hf => (hh.functions f fn hf).grow hgrown, hh.natives,
    fun c cls hc => (hh.classes c cls hc).grow hgrown,
    fun i inst hi => (hh.instances i inst hi).grow hgrown⟩, hgrown⟩

/-- A method bound to an instance that is there. -/
theorem bind (hh : h.Grounded) {f : Function} {i : InstanceId} (hf : f.Grounded h)
    (hi : i.index < h.instances.size) :
    To h (h.bind f i).1 ∧ (h.bind f i).2.Grounded (h.bind f i).1 := by
  have hnew := hh.newScope hf
  have hthis : (h.newScope (some f.closure)).1.Knows (.instanceRef i) :=
    Heap.Knows.grow (v := .instanceRef i) hi hnew.grown
  have hdefine := hnew.grounded.define (s := (h.newScope (some f.closure)).2) (x := thisName) hthis
  refine ⟨hnew.trans hdefine, ?_⟩
  show (h.newScope (some f.closure)).2.index < _
  exact Nat.lt_of_lt_of_le (by simp [Heap.newScope]) hdefine.grown.scopes

/-- Values that are known, bound to parameters. -/
theorem defineAll (hh : h.Grounded) {s : ScopeId} {params : List Token} {args : List Value}
    (hargs : ∀ v ∈ args, h.Knows v) : To h (h.defineAll s params args) := by
  induction params generalizing h args with
  | nil => exact ⟨hh, .refl _⟩
  | cons param params ih =>
    cases args with
    | nil => exact ⟨hh, .refl _⟩
    | cons arg args =>
      have hfirst := hh.define (s := s) (x := param.lexeme) (hargs arg (List.mem_cons_self ..))
      refine hfirst.trans (ih hfirst.grounded fun v hv => ?_)
      exact (hargs v (List.mem_cons_of_mem _ hv)).grow hfirst.grown

/-- **The scope of a call.** -/
theorem enter (hh : h.Grounded) {f : Function} {args : List Value} (hf : f.Grounded h)
    (hargs : ∀ v ∈ args, h.Knows v) :
    To h (h.enter f args).1 ∧ (h.enter f args).2.index < (h.enter f args).1.scopes.size := by
  have hnew := hh.newScope hf
  have hall : To (h.newScope (some f.closure)).1 (h.enter f args).1 :=
    hnew.grounded.defineAll fun v hv => (hargs v hv).grow hnew.grown
  refine ⟨hnew.trans hall, ?_⟩
  show (h.newScope (some f.closure)).2.index < _
  exact Nat.lt_of_lt_of_le (by simp [Heap.newScope]) hall.grown.scopes

/-! ## Lookups -/

/-- What a scope binds a name to is there. -/
theorem knows_boundIn (hh : h.Grounded) (s : ScopeId) (x : Text) :
    h.Knows ((h.boundIn s x).getD .nil) := by
  unfold Heap.boundIn
  cases hs : h.scope? s with
  | none => trivial
  | some scope =>
    simp only [Option.bind_some]
    cases hx : scope.values.find? x with
    | none => trivial
    | some v => exact (hh.scopes s scope hs).values x v hx

theorem method? (hh : h.Grounded) {c : ClassId} {name : Text} {fn : Function}
    (hfn : h.method? c name = some fn) : fn.Grounded h := by
  obtain ⟨c', cls, hc, hm⟩ := Heap.exists_class_of_method? hfn
  exact (hh.classes c' cls hc).methods name fn hm

/-- A property of an instance is known, once it is fetched. -/
theorem fetch (hh : h.Grounded) {i : InstanceId} {name : Text} {p : Property}
    (hp : h.property? i name = some p) :
    To h (h.fetch i p).1 ∧ (h.fetch i p).1.Knows (h.fetch i p).2 := by
  unfold Heap.property? at hp
  cases hinst : h.instance? i with
  | none => simp only [hinst, reduceCtorEq] at hp
  | some inst =>
    simp only [hinst] at hp
    cases hfield : inst.fields.find? name with
    | some v =>
      simp only [hfield, Option.some.injEq] at hp
      subst hp
      exact ⟨⟨hh, .refl _⟩, (hh.instances i inst hinst).fields name v hfield⟩
    | none =>
      simp only [hfield] at hp
      obtain ⟨fn, hfn, rfl⟩ := Option.map_eq_some_iff.1 hp
      have hi : i.index < h.instances.size := (Array.getElem?_eq_some_iff.1 hinst).1
      obtain ⟨hbind, hbound⟩ := hh.bind (hh.method? hfn) hi
      have hnew := hbind.grounded.newFunction hbound
      refine ⟨hbind.trans hnew, ?_⟩
      show (h.bind fn i).1.functions.size <
        ((h.bind fn i).1.newFunction (h.bind fn i).2).1.functions.size
      simp [Heap.newFunction]

/-- **A lookup from a class ends before the classes do**: a larger number of
steps finds the same method. -/
theorem methodWithin_eq (hh : h.Grounded) (name : Text) : ∀ (steps steps' : Nat) (c : ClassId),
    c.index < steps → c.index < steps' →
      h.methodWithin name steps c = h.methodWithin name steps' c
  | 0, _, _, hc, _ => absurd hc (Nat.not_lt_zero _)
  | _ + 1, 0, _, _, hc => absurd hc (Nat.not_lt_zero _)
  | steps + 1, steps' + 1, c, hc, hc' => by
    rw [Heap.methodWithin, Heap.methodWithin]
    cases hcls : h.class? c with
    | none => rfl
    | some cls =>
      simp only
      cases cls.methods.find? name with
      | some method => rfl
      | none =>
        cases hsup : cls.superclass with
        | none => rfl
        | some sup =>
          have hlt := (hh.classes c cls hcls).superclass sup hsup
          exact methodWithin_eq hh name steps steps' sup (by omega) (by omega)

/-- **The bound on a lookup is never what ends it.** -/
theorem searchable (hh : h.Grounded) : h.Searchable := by
  intro name c steps hsteps
  by_cases hc : c.index < h.classes.size
  · exact hh.methodWithin_eq name steps h.classes.size c (by omega) hc
  · -- there is no such class, and one step is enough to see that
    have hnone : h.class? c = none := Array.getElem?_eq_none (by omega)
    have hmissing : ∀ steps, h.methodWithin name steps c = none := by
      intro steps
      cases steps with
      | zero => rfl
      | succ steps => rw [Heap.methodWithin, hnone]
    rw [hmissing, Heap.method?, hmissing]

end Heap.Grounded

end TanLang
