import TanLang.Proofs.Evaluation.Store
import TanLang.Proofs.Heap.Grounding
/-!
# The heap — one change after another

All that ever happens to a heap is that something new is put behind what is
there, that a name is bound in a scope, that a field is set, and that natives
keep something else. `Changes` says that one heap comes from another in this
way; each name that is bound was bound in its scope before, or is one of those
told. So **everything keeps its place**: a scope its enclosing scope, a class
its superclass, an instance its class. And a name that is bound where it was
not is one of those told.
-/

namespace TanLang

namespace Heap

variable {h h' h'' : Heap} {Defines : ScopeId → Text → Prop}

/-! ## Names that are bound -/

theorem boundIn_newScope (outer : Option ScopeId) (t : ScopeId) (y : Text) :
    (h.newScope outer).1.boundIn t y = h.boundIn t y := by
  unfold boundIn
  rw [scope?_newScope]
  split
  case isFalse => rfl
  case isTrue hnew =>
    have hnone : h.scope? t = none := by
      rw [hnew]
      simp [scope?, newScope]
    rw [hnone]
    rfl

/-- **A name bound in a scope** that is there is bound there, and the others
are where they were. -/
theorem isSome_boundIn_define {s t : ScopeId} {x y : Text} {v : Value} :
    ((h.define s x v).boundIn t y).isSome = true ↔
      (h.boundIn t y).isSome = true ∨ t = s ∧ y = x ∧ (h.scope? s).isSome = true := by
  simp only [boundIn_eq_some, scope?_define]
  by_cases hts : t = s
  · subst hts
    cases h.scope? t with
    | none => simp
    | some scope =>
      simp only [if_true, Option.map_some, Option.some.injEq, exists_eq_left',
        Table.isSome_find?_insert, Option.isSome_some, and_true, true_and]
      exact or_comm
  · simp [hts]

/-- The names stay the same where one is bound that was bound before. -/
theorem isSome_boundIn_define_of_bound {s t : ScopeId} {x y : Text} {v : Value}
    (hx : (h.boundIn s x).isSome = true) :
    ((h.define s x v).boundIn t y).isSome = true ↔ (h.boundIn t y).isSome = true := by
  rw [isSome_boundIn_define]
  refine or_iff_left_of_imp ?_
  rintro ⟨rfl, rfl, -⟩
  exact hx

/-! ## Changes -/

/-- **A heap comes from another by changes**; a name that is bound in a scope
was bound there before, or is one of those told. -/
inductive Changes (Defines : ScopeId → Text → Prop) (h : Heap) : Heap → Prop where
  | refl : Changes Defines h h
  | newScope {k : Heap} (before : Changes Defines h k) (outer : ScopeId) :
      Changes Defines h (k.newScope (some outer)).1
  | define {k : Heap} {s : ScopeId} {x : Text} (before : Changes Defines h k) (v : Value)
      (hx : (k.boundIn s x).isSome = true ∨ Defines s x) : Changes Defines h (k.define s x v)
  | newFunction {k : Heap} (before : Changes Defines h k) (f : Function) :
      Changes Defines h (k.newFunction f).1
  | newClass {k : Heap} (before : Changes Defines h k) (cls : Class) :
      Changes Defines h (k.newClass cls).1
  | newInstance {k : Heap} (before : Changes Defines h k) (c : ClassId) :
      Changes Defines h (k.newInstance c).1
  | setField {k : Heap} (before : Changes Defines h k) (i : InstanceId) (x : Text) (v : Value) :
      Changes Defines h (k.setField i x v)
  | keep {k : Heap} (before : Changes Defines h k) (r : Registry) : Changes Defines h (k.keep r)

namespace Changes

theorem trans (first : Changes Defines h h') (second : Changes Defines h' h'') :
    Changes Defines h h'' := by
  induction second with
  | refl => exact first
  | newScope _ outer ih => exact ih.newScope outer
  | define _ v hx ih => exact ih.define v hx
  | newFunction _ f ih => exact ih.newFunction f
  | newClass _ cls ih => exact ih.newClass cls
  | newInstance _ c ih => exact ih.newInstance c
  | setField _ i x v ih => exact ih.setField i x v
  | keep _ r ih => exact ih.keep r

/-- **A name is bound where it was not only if it is one of those told.** -/
theorem bound (hh : Changes Defines h h') {s : ScopeId} {x : Text}
    (hx : (h'.boundIn s x).isSome = true) : (h.boundIn s x).isSome = true ∨ Defines s x := by
  induction hh with
  | refl => exact .inl hx
  | newScope _ outer ih => exact ih (by rwa [boundIn_newScope] at hx)
  | define _ v hy ih =>
    rcases isSome_boundIn_define.1 hx with hx | ⟨rfl, rfl, -⟩
    · exact ih hx
    · exact hy.elim ih .inr
  | newFunction _ _ ih => exact ih hx
  | newClass _ _ ih => exact ih hx
  | newInstance _ _ ih => exact ih hx
  | setField _ _ _ _ ih => exact ih hx
  | keep _ _ ih => exact ih hx

/-- A method bound to an instance: a new scope, and `this` in it. -/
theorem bind (hh : Changes Defines h h') (f : Function) (i : InstanceId)
    (hthis : Defines ⟨h'.scopes.size⟩ thisName) : Changes Defines h (h'.bind f i).1 :=
  (hh.newScope f.closure).define _ (.inr hthis)

theorem defineAll {s : ScopeId} {params : List Token} {args : List Value}
    (hh : Changes Defines h h') (hparams : ∀ p ∈ params, Defines s p.lexeme) :
    Changes Defines h (h'.defineAll s params args) := by
  induction params generalizing h' args with
  | nil => exact hh
  | cons p params ih =>
    cases args with
    | nil => exact hh
    | cons arg args =>
      exact ih (hh.define arg (.inr (hparams p List.mem_cons_self)))
        fun q hq => hparams q (List.mem_cons_of_mem p hq)

/-- The scope of a call: a new scope, and the parameters in it. -/
theorem enter (hh : Changes Defines h h') (f : Function) (args : List Value)
    (hparams : ∀ p ∈ f.decl.params, Defines ⟨h'.scopes.size⟩ p.lexeme) :
    Changes Defines h (h'.enter f args).1 :=
  (hh.newScope f.closure).defineAll hparams

end Changes

/-! ## What lasts -/

/-- **Everything keeps its place**: a scope goes on being enclosed by the
same one and binding the names it bound, functions and classes stay as they
are, and instances stay of their class. -/
structure Lasts (h h' : Heap) : Prop where
  grown : h.Grown h'
  scopes : ∀ s scope, h.scope? s = some scope →
    ∃ scope', h'.scope? s = some scope' ∧ scope'.outer = scope.outer
  names : ∀ s x, (h.boundIn s x).isSome = true → (h'.boundIn s x).isSome = true
  functions : ∀ f fn, h.function? f = some fn → h'.function? f = some fn
  classes : ∀ c cls, h.class? c = some cls → h'.class? c = some cls
  instances : ∀ i inst, h.instance? i = some inst →
    ∃ inst', h'.instance? i = some inst' ∧ inst'.classOf = inst.classOf

namespace Lasts

theorem refl (h : Heap) : h.Lasts h :=
  ⟨.refl h, fun _ scope hs => ⟨scope, hs, rfl⟩, fun _ _ hx => hx, fun _ _ hf => hf,
    fun _ _ hc => hc, fun _ inst hi => ⟨inst, hi, rfl⟩⟩

theorem trans (first : h.Lasts h') (second : h'.Lasts h'') : h.Lasts h'' where
  grown := first.grown.trans second.grown
  scopes s scope hs := by
    obtain ⟨scope', hs', houter⟩ := first.scopes s scope hs
    obtain ⟨scope'', hs'', houter'⟩ := second.scopes s scope' hs'
    exact ⟨scope'', hs'', houter'.trans houter⟩
  names s x hx := second.names s x (first.names s x hx)
  functions f fn hf := second.functions f fn (first.functions f fn hf)
  classes c cls hc := second.classes c cls (first.classes c cls hc)
  instances i inst hi := by
    obtain ⟨inst', hi', hclass⟩ := first.instances i inst hi
    obtain ⟨inst'', hi'', hclass'⟩ := second.instances i inst' hi'
    exact ⟨inst'', hi'', hclass'.trans hclass⟩

/-- Something put behind what is there leaves that in its place. -/
theorem push_of_some {α : Type} {xs : Array α} {i : Nat} {a : α} (b : α) (hi : xs[i]? = some a) :
    (xs.push b)[i]? = some a := by
  have hlt : i < xs.size := (Array.getElem?_eq_some_iff.1 hi).1
  rw [Array.getElem?_push, if_neg (Nat.ne_of_lt hlt), hi]

theorem newScope (h : Heap) (outer : Option ScopeId) : h.Lasts (h.newScope outer).1 where
  grown := ⟨by simp [Heap.newScope], Nat.le_refl _, Nat.le_refl _, Nat.le_refl _, Nat.le_refl _⟩
  scopes _ scope hs := ⟨scope, push_of_some _ hs, rfl⟩
  names s x hx := by rwa [boundIn_newScope]
  functions _ _ hf := hf
  classes _ _ hc := hc
  instances _ inst hi := ⟨inst, hi, rfl⟩

theorem define (h : Heap) (s : ScopeId) (x : Text) (v : Value) : h.Lasts (h.define s x v) where
  grown := ⟨by simp [Heap.define], Nat.le_refl _, Nat.le_refl _, Nat.le_refl _, Nat.le_refl _⟩
  scopes t scope ht := by
    rw [scope?_define]
    split
    · rename_i hts
      subst hts
      refine ⟨{ scope with values := scope.values.insert x v }, ?_, rfl⟩
      rw [ht]
      rfl
    · exact ⟨scope, ht, rfl⟩
  names _ _ hy := isSome_boundIn_define.2 (.inl hy)
  functions _ _ hf := hf
  classes _ _ hc := hc
  instances _ inst hi := ⟨inst, hi, rfl⟩

theorem newFunction (h : Heap) (f : Function) : h.Lasts (h.newFunction f).1 where
  grown := ⟨Nat.le_refl _, by simp [Heap.newFunction], Nat.le_refl _, Nat.le_refl _,
    Nat.le_refl _⟩
  scopes _ scope hs := ⟨scope, hs, rfl⟩
  names _ _ hx := hx
  functions _ _ hf := push_of_some _ hf
  classes _ _ hc := hc
  instances _ inst hi := ⟨inst, hi, rfl⟩

theorem newClass (h : Heap) (cls : Class) : h.Lasts (h.newClass cls).1 where
  grown := ⟨Nat.le_refl _, Nat.le_refl _, Nat.le_refl _, by simp [Heap.newClass], Nat.le_refl _⟩
  scopes _ scope hs := ⟨scope, hs, rfl⟩
  names _ _ hx := hx
  functions _ _ hf := hf
  classes _ _ hc := push_of_some _ hc
  instances _ inst hi := ⟨inst, hi, rfl⟩

theorem newInstance (h : Heap) (c : ClassId) : h.Lasts (h.newInstance c).1 where
  grown := ⟨Nat.le_refl _, Nat.le_refl _, Nat.le_refl _, Nat.le_refl _, by
    simp [Heap.newInstance]⟩
  scopes _ scope hs := ⟨scope, hs, rfl⟩
  names _ _ hx := hx
  functions _ _ hf := hf
  classes _ _ hc := hc
  instances _ inst hi := ⟨inst, push_of_some _ hi, rfl⟩

theorem setField (h : Heap) (i : InstanceId) (x : Text) (v : Value) :
    h.Lasts (h.setField i x v) where
  grown := ⟨Nat.le_refl _, Nat.le_refl _, Nat.le_refl _, Nat.le_refl _, by simp [Heap.setField]⟩
  scopes _ scope hs := ⟨scope, hs, rfl⟩
  names _ _ hx := hx
  functions _ _ hf := hf
  classes _ _ hc := hc
  instances j inst hj := by
    simp only [Heap.instance?, Heap.setField, Array.getElem?_modify]
    split
    · rw [show h.instances[j.index]? = some inst from hj]
      exact ⟨_, rfl, rfl⟩
    · exact ⟨inst, hj, rfl⟩

theorem keep (h : Heap) (r : Registry) : h.Lasts (h.keep r) where
  grown := ⟨Nat.le_refl _, Nat.le_refl _, Nat.le_refl _, Nat.le_refl _, Nat.le_refl _⟩
  scopes _ scope hs := ⟨scope, hs, rfl⟩
  names _ _ hx := hx
  functions _ _ hf := hf
  classes _ _ hc := hc
  instances _ inst hi := ⟨inst, hi, rfl⟩

end Lasts

/-- **Whatever changes, all that is there lasts.** -/
theorem Changes.lasts (hh : Changes Defines h h') : h.Lasts h' := by
  induction hh with
  | refl => exact .refl h
  | newScope _ outer ih => exact ih.trans (.newScope _ _)
  | define _ v _ ih => exact ih.trans (.define _ _ _ _)
  | newFunction _ f ih => exact ih.trans (.newFunction _ f)
  | newClass _ cls ih => exact ih.trans (.newClass _ cls)
  | newInstance _ c ih => exact ih.trans (.newInstance _ c)
  | setField _ i x v ih => exact ih.trans (.setField _ i x v)
  | keep _ r ih => exact ih.trans (.keep _ r)

end Heap

end TanLang
