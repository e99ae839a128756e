import TanLang.Proofs.Evaluation.Preservation
import TanLang.Proofs.Scoping.Receivers
/-!
# The heap — scopes that hold `this`

A method bound to an instance gets a scope of its own, which binds `this` to
the instance and nothing else. `Steady` says what running may do to the heap:
**such a scope is never touched again, and no scope comes to bind `this` that
was made without it**. A heap is respectful if its scopes with `this` are all
of that kind, and if every function in it respects the shape of the scopes it
was made in. Each operation on the heap keeps both.
-/

namespace TanLang

open Scoping

/-- What may become of a scope. -/
structure Scope.Steady (before after : Scope) : Prop where
  outer : after.outer = before.outer
  holds : after.values.contains thisName = before.values.contains thisName
  values : before.values.contains thisName = true → after.values = before.values

theorem Scope.Steady.refl (scope : Scope) : scope.Steady scope := ⟨rfl, rfl, fun _ => rfl⟩

theorem Scope.Steady.trans {a b c : Scope} (h₁ : a.Steady b) (h₂ : b.Steady c) : a.Steady c where
  outer := h₂.outer.trans h₁.outer
  holds := h₂.holds.trans h₁.holds
  values hthis := (h₂.values (h₁.holds.trans hthis)).trans (h₁.values hthis)

/-- The names in the scope of a bound method: `this` and no other. -/
def receiverTable (i : InstanceId) : Table Value := Table.empty.insert thisName (.instanceRef i)

theorem contains_receiverTable {i : InstanceId} {x : Text} :
    (receiverTable i).contains x = true ↔ x = thisName := by
  rw [Table.contains, receiverTable, Table.isSome_find?_insert]
  exact or_iff_left Bool.false_ne_true

theorem find?_receiverTable (i : InstanceId) :
    (receiverTable i).find? thisName = some (.instanceRef i) :=
  Table.find?_insert_self _ _ _

namespace Heap

variable {P : ScopeId → InstanceId → Prop} {h h' h'' : Heap} {κ : Shape} {s t : ScopeId}
variable {i : InstanceId}

/-- **A scope receives an instance** if it binds `this` to it, and nothing
else. -/
def Receives (h : Heap) (s : ScopeId) (i : InstanceId) : Prop :=
  ∃ outer, h.scope? s = some ⟨receiverTable i, outer⟩

theorem Receives.boundIn (hs : h.Receives s i) : h.boundIn s thisName = some (.instanceRef i) := by
  obtain ⟨outer, hscope⟩ := hs
  rw [Heap.boundIn, hscope]
  exact find?_receiverTable i

/-- A scope receives one instance. -/
theorem Receives.unique {j : InstanceId} (hi : h.Receives s i) (hj : h.Receives s j) : i = j := by
  have heq := hi.boundIn.symm.trans hj.boundIn
  cases heq
  rfl

/-- **What running may do to a heap**: scopes with `this` stay as they are, the
others stay without it, and neither functions nor instances go away. -/
structure Steady (h h' : Heap) : Prop where
  scopes : ∀ s scope, h.scope? s = some scope →
    ∃ scope', h'.scope? s = some scope' ∧ scope.Steady scope'
  functions : ∀ f fn, h.function? f = some fn → h'.function? f = some fn
  instances : ∀ i inst, h.instance? i = some inst →
    ∃ inst', h'.instance? i = some inst' ∧ inst'.classOf = inst.classOf

namespace Steady

theorem refl (h : Heap) : h.Steady h :=
  ⟨fun _ scope hs => ⟨scope, hs, .refl scope⟩, fun _ _ hf => hf, fun _ inst hi => ⟨inst, hi, rfl⟩⟩

theorem trans (h₁ : h.Steady h') (h₂ : h'.Steady h'') : h.Steady h'' where
  scopes s scope hs := by
    obtain ⟨scope', hs', hsteady⟩ := h₁.scopes s scope hs
    obtain ⟨scope'', hs'', hsteady'⟩ := h₂.scopes s scope' hs'
    exact ⟨scope'', hs'', hsteady.trans hsteady'⟩
  functions f fn hf := h₂.functions f fn (h₁.functions f fn hf)
  instances i inst hi := by
    obtain ⟨inst', hi', hclass⟩ := h₁.instances i inst hi
    obtain ⟨inst'', hi'', hclass'⟩ := h₂.instances i inst' hi'
    exact ⟨inst'', hi'', hclass'.trans hclass⟩

/-- What changes only scopes. -/
theorem of_scopes (hfunctions : h'.functions = h.functions)
    (hinstances : h'.instances = h.instances)
    (hscopes : ∀ s scope, h.scope? s = some scope →
      ∃ scope', h'.scope? s = some scope' ∧ scope.Steady scope') : h.Steady h' where
  scopes := hscopes
  functions f fn hf := by rwa [Heap.function?, hfunctions]
  instances i inst hi := ⟨inst, by rwa [Heap.instance?, hinstances], rfl⟩

/-- A scope that receives an instance goes on doing so. -/
theorem receives (hsteady : h.Steady h') (hs : h.Receives s i) : h'.Receives s i := by
  obtain ⟨outer, hscope⟩ := hs
  obtain ⟨scope', hscope', hsame⟩ := hsteady.scopes s _ hscope
  refine ⟨scope'.outer, hscope'.trans ?_⟩
  rw [show receiverTable i = scope'.values from
    (hsame.values (contains_receiverTable.2 rfl)).symm]

/-- **A scope that receives an instance did so from the start.** -/
theorem receives_before (hsteady : h.Steady h') (hs : h'.Receives s i)
    (hthere : (h.scope? s).isSome = true) : h.Receives s i := by
  obtain ⟨outer, hscope'⟩ := hs
  obtain ⟨scope, hscope⟩ := Option.isSome_iff_exists.1 hthere
  obtain ⟨scope', hsame, hkept⟩ := hsteady.scopes s scope hscope
  cases hscope'.symm.trans hsame
  have hthis : scope.values.contains thisName = true :=
    hkept.holds.symm.trans (contains_receiverTable.2 rfl)
  refine ⟨scope.outer, hscope.trans ?_⟩
  rw [show receiverTable i = scope.values from hkept.values hthis]

theorem isSome_instance? (hsteady : h.Steady h') (hi : (h.instance? i).isSome = true) :
    (h'.instance? i).isSome = true := by
  obtain ⟨inst, hinst⟩ := Option.isSome_iff_exists.1 hi
  obtain ⟨inst', hinst', -⟩ := hsteady.instances i inst hinst
  rw [hinst']
  rfl

end Steady

/-! ## Chains of scopes -/

/-- **A shape tells which scopes of a chain hold `this`**, the globals apart. -/
inductive Shaped (h : Heap) : Shape → ScopeId → Prop where
  | globals : Shaped h [] Machine.globals
  | inside {κ : Shape} {s outer : ScopeId} {scope : Scope} {b : Bool}
      (hscope : h.scope? s = some scope) (hthis : scope.values.contains thisName = b)
      (houter : scope.outer = some outer) (hrest : Shaped h κ outer) : Shaped h (b :: κ) s

/-- **One scope is within another**: on the way out to it there is no scope
that holds `this`. -/
inductive Within (h : Heap) (target : ScopeId) : ScopeId → Prop where
  | here : Within h target target
  | inside {s outer : ScopeId} {scope : Scope} (hscope : h.scope? s = some scope)
      (hthis : scope.values.contains thisName = false) (houter : scope.outer = some outer)
      (hrest : Within h target outer) : Within h target s

theorem Shaped.steady (hshaped : h.Shaped κ s) (hsteady : h.Steady h') : h'.Shaped κ s := by
  induction hshaped with
  | globals => exact .globals
  | inside hscope hthis houter _ ih =>
    obtain ⟨scope', hscope', hsame⟩ := hsteady.scopes _ _ hscope
    exact .inside hscope' (hsame.holds.trans hthis) (hsame.outer.trans houter) ih

theorem Within.steady (hwithin : h.Within s t) (hsteady : h.Steady h') : h'.Within s t := by
  induction hwithin with
  | here => exact .here
  | inside hscope hthis houter _ ih =>
    obtain ⟨scope', hscope', hsame⟩ := hsteady.scopes _ _ hscope
    exact .inside hscope' (hsame.holds.trans hthis) (hsame.outer.trans houter) ih

/-- **Only one scope that receives an instance is the nearest.** -/
theorem Within.unique {s' : ScopeId} {j : InstanceId} (hs : h.Within s t) (hi : h.Receives s i)
    (hs' : h.Within s' t) (hj : h.Receives s' j) : s = s' := by
  have hheld : ∀ {s : ScopeId} {i : InstanceId} {scope : Scope}, h.Receives s i →
      h.scope? s = some scope → scope.values.contains thisName = true := by
    rintro s i scope ⟨outer, hreceives⟩ hscope
    cases hreceives.symm.trans hscope
    exact contains_receiverTable.2 rfl
  induction hs with
  | here =>
    cases hs' with
    | here => rfl
    | inside hscope hthis _ _ => cases hthis.symm.trans (hheld hi hscope)
  | inside hscope hthis houter _ ih =>
    cases hs' with
    | here => cases hthis.symm.trans (hheld hj hscope)
    | inside hscope' _ houter' hrest' =>
      cases hscope.symm.trans hscope'
      cases houter.symm.trans houter'
      exact ih hrest'

/-- What lies so many scopes out. -/
theorem Shaped.ancestor (hshaped : h.Shaped κ s) {d : Nat} {b : Bool} (hb : κ[d]? = some b) :
    ∃ t scope, h.ancestor s d = some t ∧ h.scope? t = some scope ∧
      scope.values.contains thisName = b := by
  induction hshaped generalizing d with
  | globals => cases hb
  | @inside κ s outer scope b' hscope hthis houter _ ih =>
    cases d with
    | zero =>
      cases hb
      exact ⟨s, scope, rfl, hscope, hthis⟩
    | succ d =>
      obtain ⟨t, scope', hancestor, hfound⟩ := ih hb
      exact ⟨t, scope', (Eval.ancestor_succ hscope houter).trans hancestor, hfound⟩

/-- **The nearest scope with `this`** is as far out as the shape says, and the
place it is found from is within it. -/
theorem Shaped.nearest (hshaped : h.Shaped κ s) {d : Nat} (hd : κ.findIdx? id = some d) :
    ∃ t scope, h.ancestor s d = some t ∧ h.scope? t = some scope ∧
      scope.values.contains thisName = true ∧ h.Within t s := by
  induction hshaped generalizing d with
  | globals => cases hd
  | @inside κ s outer scope b hscope hthis houter _ ih =>
    cases b with
    | true =>
      cases hd
      exact ⟨s, scope, rfl, hscope, hthis, .here⟩
    | false =>
      rw [List.findIdx?_cons] at hd
      obtain ⟨d', hd', rfl⟩ := Option.map_eq_some_iff.1 hd
      obtain ⟨t, scope', hancestor, hscope', hthis', hwithin⟩ := ih hd'
      exact ⟨t, scope', (Eval.ancestor_succ hscope houter).trans hancestor, hscope', hthis',
        .inside hscope hthis houter hwithin⟩

/-! ## Respectful heaps -/

/-- A function respects the shape of the scopes it was made in, and where it
sets up instances its own scope receives one. -/
def FunctionRespects (h : Heap) (f : Function) : Prop :=
  ∃ κ, h.Shaped κ f.closure ∧ RoutineRespects κ f.decl ∧
    (f.isInit = true → ∃ i, h.Receives f.closure i)

/-- The same for a method that is not bound to an instance yet: it will be in
a scope with `this`. Only `init` sets up instances. -/
def MethodRespects (h : Heap) (name : Text) (f : Function) : Prop :=
  (f.isInit = true ↔ name = initName) ∧
    ∃ κ, h.Shaped κ f.closure ∧ RoutineRespects (true :: κ) f.decl

/-- **A respectful heap.** -/
structure Respectful (h : Heap) : Prop where
  globals : ∃ scope, h.scope? Machine.globals = some scope ∧
    scope.values.contains thisName = false
  only : ∀ s scope, h.scope? s = some scope → scope.values.contains thisName = true →
    ∃ i, scope.values = receiverTable i ∧ (h.instance? i).isSome = true
  functions : ∀ f fn, h.function? f = some fn → h.FunctionRespects fn
  methods : ∀ c cls name fn, h.class? c = some cls → cls.methods.find? name = some fn →
    h.MethodRespects name fn

theorem FunctionRespects.steady {f : Function} (hf : h.FunctionRespects f)
    (hsteady : h.Steady h') : h'.FunctionRespects f := by
  obtain ⟨κ, hshaped, hrespects, hinit⟩ := hf
  refine ⟨κ, hshaped.steady hsteady, hrespects, fun hisInit => ?_⟩
  obtain ⟨i, hi⟩ := hinit hisInit
  exact ⟨i, hsteady.receives hi⟩

theorem MethodRespects.steady {name : Text} {f : Function} (hf : h.MethodRespects name f)
    (hsteady : h.Steady h') : h'.MethodRespects name f := by
  obtain ⟨hinit, κ, hshaped, hrespects⟩ := hf
  exact ⟨hinit, κ, hshaped.steady hsteady, hrespects⟩

namespace Respectful

/-- A scope that holds `this` receives an instance that is there. -/
theorem receives (hr : h.Respectful) {scope : Scope} (hscope : h.scope? s = some scope)
    (hthis : scope.values.contains thisName = true) :
    ∃ i, h.Receives s i ∧ (h.instance? i).isSome = true := by
  obtain ⟨i, hvalues, hi⟩ := hr.only s scope hscope hthis
  refine ⟨i, ⟨scope.outer, hscope.trans ?_⟩, hi⟩
  rw [← hvalues]

/-- A scope that binds another name does not hold `this`. -/
theorem not_holds (hr : h.Respectful) {scope : Scope} {x : Text} (hscope : h.scope? s = some scope)
    (hx : scope.values.contains x = true) (hname : x ≠ thisName) :
    scope.values.contains thisName = false := by
  refine Bool.eq_false_iff.2 fun hthis => hname ?_
  obtain ⟨i, hvalues, -⟩ := hr.only s scope hscope hthis
  rw [hvalues] at hx
  exact contains_receiverTable.1 hx

/-- The innermost scope of a shape that does not start with `this`. -/
theorem head (hr : h.Respectful) (hshaped : h.Shaped κ s) (hhead : κ.head? ≠ some true)
    {scope : Scope} (hscope : h.scope? s = some scope) :
    scope.values.contains thisName = false := by
  cases hshaped with
  | globals =>
    obtain ⟨top, htop, hthis⟩ := hr.globals
    cases htop.symm.trans hscope
    exact hthis
  | @inside κ s outer scope' b hscope' hthis _ _ =>
    cases hscope'.symm.trans hscope
    cases b with
    | true => exact absurd rfl hhead
    | false => exact hthis

/-- The scope at the start of a chain is there. -/
theorem isSome_scope? (hr : h.Respectful) (hshaped : h.Shaped κ s) :
    (h.scope? s).isSome = true := by
  cases hshaped with
  | globals =>
    obtain ⟨scope, hscope, -⟩ := hr.globals
    rw [hscope]
    rfl
  | inside hscope => rw [hscope]; rfl

/-- The method that a class has, also an inherited one. -/
theorem method? (hr : h.Respectful) {c : ClassId} {name : Text} {f : Function}
    (hf : h.method? c name = some f) : h.MethodRespects name f := by
  obtain ⟨c', cls, hc, hm⟩ := Heap.exists_class_of_method? hf
  exact hr.methods c' cls name f hc hm

/-- Functions and classes are not touched where only scopes are. -/
theorem of_steady (hr : h.Respectful) (hsteady : h.Steady h')
    (hfunctions : h'.functions = h.functions) (hclasses : h'.classes = h.classes)
    (honly : ∀ s scope, h'.scope? s = some scope → scope.values.contains thisName = true →
      ∃ i, scope.values = receiverTable i ∧ (h'.instance? i).isSome = true) : h'.Respectful where
  globals := by
    obtain ⟨scope, hscope, hthis⟩ := hr.globals
    obtain ⟨scope', hscope', hsame⟩ := hsteady.scopes _ _ hscope
    exact ⟨scope', hscope', hsame.holds.trans hthis⟩
  only := honly
  functions f fn hf := by
    rw [Heap.function?, hfunctions] at hf
    exact (hr.functions f fn hf).steady hsteady
  methods c cls name fn hc hfn := by
    rw [Heap.class?, hclasses] at hc
    exact (hr.methods c cls name fn hc hfn).steady hsteady

end Respectful

/-! ## What each operation does -/

/-- **A heap follows another one**: it is what running may make of it, and the
scopes that have come to receive an instance are among those expected. -/
structure Follows (P : ScopeId → InstanceId → Prop) (h h' : Heap) : Prop where
  steady : h.Steady h'
  made : ∀ s i, h'.Receives s i → h.Receives s i ∨ P s i
  respectful : h.Respectful → h'.Respectful

namespace Follows

theorem refl (h : Heap) : Follows P h h := ⟨.refl h, fun _ _ hs => .inl hs, fun hr => hr⟩

theorem trans (h₁ : Follows P h h') (h₂ : Follows P h' h'') : Follows P h h'' where
  steady := h₁.steady.trans h₂.steady
  made s i hs := (h₂.made s i hs).elim (h₁.made s i) .inr
  respectful hr := h₂.respectful (h₁.respectful hr)

/-- What leaves the code alone, and where each scope that holds `this` is one
from before. -/
theorem of_back (hsteady : h.Steady h') (hfunctions : h'.functions = h.functions)
    (hclasses : h'.classes = h.classes)
    (hback : ∀ s scope, h'.scope? s = some scope → scope.values.contains thisName = true →
      h.scope? s = some scope) : Follows P h h' where
  steady := hsteady
  made := by
    rintro s i ⟨outer, hscope⟩
    exact .inl ⟨outer, hback s _ hscope (contains_receiverTable.2 rfl)⟩
  respectful hr := by
    refine hr.of_steady hsteady hfunctions hclasses fun s scope hscope hthis => ?_
    obtain ⟨i, hvalues, hi⟩ := hr.only s scope (hback s scope hscope hthis) hthis
    exact ⟨i, hvalues, hsteady.isSome_instance? hi⟩

/-- What leaves the scopes and the code alone. -/
theorem of_scopes_eq (hsteady : h.Steady h') (hscopes : h'.scopes = h.scopes)
    (hfunctions : h'.functions = h.functions) (hclasses : h'.classes = h.classes) :
    Follows P h h' := by
  refine of_back hsteady hfunctions hclasses fun s scope hscope _ => ?_
  rwa [Heap.scope?, hscopes] at hscope

/-- **A name other than `this` bound in a scope without it.** -/
theorem define {x : Text} {v : Value} (hx : x ≠ thisName)
    (hs : ∀ scope, h.scope? s = some scope → scope.values.contains thisName = false) :
    Follows P h (h.define s x v) := by
  refine of_back (.of_scopes rfl rfl fun t scope hscope => ?_) rfl rfl
    fun t scope hscope hthis => ?_
  · rw [Heap.scope?_define]
    by_cases hts : t = s
    · subst hts
      rw [if_pos rfl, hscope]
      refine ⟨_, rfl, rfl, contains_insert v hx, fun hthis => ?_⟩
      cases (hs scope hscope).symm.trans hthis
    · rw [if_neg hts]
      exact ⟨scope, hscope, .refl scope⟩
  · rw [Heap.scope?_define] at hscope
    split at hscope
    · obtain ⟨old, hold, rfl⟩ := Option.map_eq_some_iff.1 hscope
      rw [contains_insert v hx, hs old hold] at hthis
      cases hthis
    · exact hscope

theorem newScope (outer : Option ScopeId) : Follows P h (h.newScope outer).1 := by
  refine of_back (.of_scopes rfl rfl fun t scope hscope => ⟨scope, ?_, .refl scope⟩) rfl rfl
    fun t scope hscope hthis => ?_
  · rw [Heap.scope?_newScope, if_neg (h.ne_newScope (by rw [hscope]; rfl)), hscope]
  · rw [Heap.scope?_newScope] at hscope
    split at hscope
    · cases hscope
      cases hthis
    · exact hscope

theorem newFunction {f : Function} (hf : h.Respectful → h.FunctionRespects f) :
    Follows P h (h.newFunction f).1 := by
  have hsteady : h.Steady (h.newFunction f).1 := by
    refine ⟨(Steady.refl h).scopes, fun g fn hg => ?_, (Steady.refl h).instances⟩
    have hlt : g.index < h.functions.size := (Array.getElem?_eq_some_iff.1 hg).1
    simp only [Heap.function?, Heap.newFunction, Array.getElem?_push, if_neg (Nat.ne_of_lt hlt)]
    exact hg
  refine ⟨hsteady, fun _ _ hs => .inl hs, fun hr => ⟨hr.globals, hr.only, ?_, ?_⟩⟩
  · intro g fn hg
    simp only [Heap.function?, Heap.newFunction, Array.getElem?_push] at hg
    split at hg
    · cases hg
      exact (hf hr).steady hsteady
    · exact (hr.functions g fn hg).steady hsteady
  · exact fun c cls name fn hc hfn => (hr.methods c cls name fn hc hfn).steady hsteady

theorem newClass {cls : Class} (hcls : ∀ name fn, cls.methods.find? name = some fn →
    h.MethodRespects name fn) : Follows P h (h.newClass cls).1 := by
  have hsteady : h.Steady (h.newClass cls).1 :=
    .of_scopes rfl rfl fun _ scope hs => ⟨scope, hs, .refl scope⟩
  refine ⟨hsteady, fun _ _ hs => .inl hs, fun hr => ⟨hr.globals, hr.only, ?_, ?_⟩⟩
  · exact fun f fn hf => (hr.functions f fn hf).steady hsteady
  · intro c cls' name fn hc hfn
    simp only [Heap.class?, Heap.newClass, Array.getElem?_push] at hc
    split at hc
    · cases hc
      exact (hcls name fn hfn).steady hsteady
    · exact (hr.methods c cls' name fn hc hfn).steady hsteady

theorem newInstance (c : ClassId) : Follows P h (h.newInstance c).1 := by
  refine of_scopes_eq ⟨(Steady.refl h).scopes, fun _ _ hf => hf, fun i inst hi => ?_⟩ rfl rfl rfl
  have hlt : i.index < h.instances.size := (Array.getElem?_eq_some_iff.1 hi).1
  simp only [Heap.instance?, Heap.newInstance, Array.getElem?_push, if_neg (Nat.ne_of_lt hlt)]
  exact ⟨inst, hi, rfl⟩

theorem setField (i : InstanceId) (x : Text) (v : Value) : Follows P h (h.setField i x v) := by
  refine of_scopes_eq ⟨(Steady.refl h).scopes, fun _ _ hf => hf, fun j inst hj => ?_⟩ rfl rfl rfl
  simp only [Heap.instance?, Heap.setField, Array.getElem?_modify]
  split
  · rw [show h.instances[j.index]? = some inst from hj]
    exact ⟨_, rfl, rfl⟩
  · exact ⟨inst, hj, rfl⟩

theorem keep (r : Registry) : Follows P h (h.keep r) :=
  of_scopes_eq ⟨(Steady.refl h).scopes, fun _ _ hf => hf, fun _ inst hi => ⟨inst, hi, rfl⟩⟩
    rfl rfl rfl

end Follows

/-! ## Methods and calls -/

theorem isSome_newInstance (h : Heap) (c : ClassId) :
    ((h.newInstance c).1.instance? (h.newInstance c).2).isSome = true := by
  simp [Heap.newInstance, Heap.instance?]

/-- What has a property is an instance. -/
theorem isSome_of_property? {x : Text} {p : Property} (hp : h.property? i x = some p) :
    (h.instance? i).isSome = true := by
  unfold Heap.property? at hp
  split at hp
  · cases hp
  · rename_i hi
    rw [hi]
    rfl

theorem contains_of_holder {x : Text} {scope : Scope} (hs : h.holder t x = some s)
    (hscope : h.scope? s = some scope) : scope.values.contains x = true := by
  obtain ⟨scope', hscope', hfind⟩ := h.boundIn_eq_some.1 (isSome_boundIn_of_holder hs)
  cases hscope'.symm.trans hscope
  exact hfind

theorem scope?_bind (h : Heap) (f : Function) (i : InstanceId) (t : ScopeId) :
    (h.bind f i).1.scope? t =
      if t = (h.bind f i).2.closure then some ⟨receiverTable i, some f.closure⟩
      else h.scope? t := by
  show ((h.newScope (some f.closure)).1.define (h.newScope (some f.closure)).2 thisName
    (.instanceRef i)).scope? t = if t = (h.newScope (some f.closure)).2 then _ else _
  simp only [Heap.scope?_define, Heap.scope?_newScope, if_true, Option.map_some]
  split <;> rfl

/-- The scope of a bound method receives the instance. -/
theorem receives_bind (h : Heap) (f : Function) (i : InstanceId) :
    (h.bind f i).1.Receives (h.bind f i).2.closure i :=
  ⟨_, (h.scope?_bind f i _).trans (if_pos rfl)⟩

/-- The scope of a bound method is new. -/
theorem ne_bind {f : Function} (ht : (h.scope? t).isSome = true) :
    t ≠ (h.bind f i).2.closure :=
  show t ≠ (h.newScope (some f.closure)).2 from h.ne_newScope ht

/-- **A method bound to an instance**, in a scope that was expected for it. -/
theorem Follows.bind {f : Function} (hi : (h.instance? i).isSome = true)
    (hP : P (h.bind f i).2.closure i) : Follows P h (h.bind f i).1 := by
  have hsteady : h.Steady (h.bind f i).1 := by
    refine .of_scopes rfl rfl fun t scope hscope => ⟨scope, ?_, .refl scope⟩
    rw [scope?_bind, if_neg (ne_bind (by rw [hscope]; rfl)), hscope]
  refine ⟨hsteady, ?_, fun hr => hr.of_steady hsteady rfl rfl ?_⟩
  · intro t j ht
    by_cases hnew : t = (h.bind f i).2.closure
    · subst hnew
      rw [ht.unique (h.receives_bind f i)]
      exact .inr hP
    · obtain ⟨outer, hscope⟩ := ht
      rw [scope?_bind, if_neg hnew] at hscope
      exact .inl ⟨outer, hscope⟩
  · intro t scope hscope hthis
    rw [scope?_bind] at hscope
    split at hscope
    · cases hscope
      exact ⟨i, rfl, hi⟩
    · exact hr.only t scope hscope hthis

/-- **A bound method respects its scopes**: binding makes the scope with
`this` that its text is in. -/
theorem MethodRespects.bind {name : Text} {f : Function} (hf : h.MethodRespects name f)
    (hsteady : h.Steady (h.bind f i).1) : (h.bind f i).1.FunctionRespects (h.bind f i).2 := by
  obtain ⟨-, κ, hshaped, hrespects⟩ := hf
  refine ⟨true :: κ, ?_, hrespects, fun _ => ⟨i, h.receives_bind f i⟩⟩
  exact .inside ((h.scope?_bind f i _).trans (if_pos rfl)) (contains_receiverTable.2 rfl) rfl
    (hshaped.steady hsteady)

/-- A new scope has no `this`. -/
theorem Shaped.newScope (hshaped : h.Shaped κ s) :
    (h.newScope (some s)).1.Shaped (false :: κ) (h.newScope (some s)).2 := by
  have hfollows : Follows (fun _ _ => False) h (h.newScope (some s)).1 := .newScope _
  exact .inside ((h.scope?_newScope _ _).trans (if_pos rfl)) rfl rfl
    (hshaped.steady hfollows.steady)

theorem Within.newScope (hwithin : h.Within t s) :
    (h.newScope (some s)).1.Within t (h.newScope (some s)).2 := by
  have hfollows : Follows (fun _ _ => False) h (h.newScope (some s)).1 := .newScope _
  exact .inside ((h.scope?_newScope _ _).trans (if_pos rfl)) rfl rfl
    (hwithin.steady hfollows.steady)

theorem Follows.defineAll {params : List Token} {args : List Value}
    (hparams : ∀ p ∈ params, p.lexeme ≠ thisName)
    (hs : ∀ scope, h.scope? s = some scope → scope.values.contains thisName = false) :
    Follows P h (h.defineAll s params args) := by
  induction params generalizing h args with
  | nil => cases args <;> exact .refl h
  | cons p params ih =>
    cases args with
    | nil => exact .refl h
    | cons arg args =>
      have hp : p.lexeme ≠ thisName := hparams p List.mem_cons_self
      have hfirst : Follows P h (h.define s p.lexeme arg) := .define hp hs
      refine hfirst.trans (ih (fun q hq => hparams q (List.mem_cons_of_mem p hq)) ?_)
      -- the scope is still without `this`
      intro scope hscope
      rw [Heap.scope?_define, if_pos rfl] at hscope
      obtain ⟨old, hold, rfl⟩ := Option.map_eq_some_iff.1 hscope
      exact (contains_insert arg hp).trans (hs old hold)

section

variable {f : Function} {args : List Value}

/-- The arguments of a call go into a new scope, which stays without `this`. -/
theorem Follows.fill (hparams : ∀ p ∈ f.decl.params, p.lexeme ≠ thisName) :
    Follows P (h.newScope (some f.closure)).1 (h.enter f args).1 := by
  have hnew : ∀ scope, (h.newScope (some f.closure)).1.scope? (h.newScope (some f.closure)).2 =
      some scope → scope.values.contains thisName = false := by
    intro scope hscope
    rw [Heap.scope?_newScope, if_pos rfl] at hscope
    cases hscope
    rfl
  exact .defineAll hparams hnew

theorem Follows.enter (hparams : ∀ p ∈ f.decl.params, p.lexeme ≠ thisName) :
    Follows P h (h.enter f args).1 :=
  (Follows.newScope _).trans (.fill hparams)

/-- **The scope of a call** has no `this`, and is right inside the function's
own scope. -/
theorem Shaped.enter (hshaped : h.Shaped κ f.closure)
    (hparams : ∀ p ∈ f.decl.params, p.lexeme ≠ thisName) :
    (h.enter f args).1.Shaped (false :: κ) (h.enter f args).2 :=
  hshaped.newScope.steady (Follows.fill (P := fun _ _ => False) hparams).steady

theorem Within.enter (hwithin : h.Within t f.closure)
    (hparams : ∀ p ∈ f.decl.params, p.lexeme ≠ thisName) :
    (h.enter f args).1.Within t (h.enter f args).2 :=
  hwithin.newScope.steady (Follows.fill (P := fun _ _ => False) hparams).steady

end

end Heap

end TanLang
