import TanLang.Proofs.Evaluation.Store
import TanLang.Proofs.Renaming
/-!
# The heap — one name renamed in some of its scopes

Two runs of a program, before and after a renaming, make the same scopes,
functions, classes and instances in the same order. A zone records which of
the scopes the renaming is for. In those, what the one heap has under the
old name the other has under the new one, **and everything else is the
same**: the scopes nest in the same way, the instances have the same fields,
and functions and methods differ by the renaming only, as seen from the
scopes they were made in.
-/

namespace TanLang

/-- What is related is missing on both sides or there on both. -/
theorem eq_of_rel {α β : Type} {R : α → β → Prop} {a : Option α} {b : Option β}
    (h : Option.Rel R a b) :
    (a = none ∧ b = none) ∨ ∃ x y, a = some x ∧ b = some y ∧ R x y := by
  cases h with
  | none => exact .inl ⟨rfl, rfl⟩
  | some h => exact .inr ⟨_, _, rfl, rfl, h⟩

theorem rel_imp {α β : Type} {R S : α → β → Prop} {a : Option α} {b : Option β}
    (h : Option.Rel R a b) (himp : ∀ x y, R x y → S x y) : Option.Rel S a b := by
  cases h with
  | none => exact .none
  | some h => exact .some (himp _ _ h)

/-- For each scope in the heap, whether a renaming is for it. -/
abbrev Zone := ScopeId → Bool

/-- The zone with a scope entered. -/
def Zone.enter (T : Zone) (s : ScopeId) (here : Bool) : Zone := fun t => if t = s then here else T t

/-- The scope with the two names of a renaming exchanged, if it is for it. -/
def Scope.rename (r : Renaming) (here : Bool) (scope : Scope) : Scope :=
  { scope with values := scope.values.rekey (r.swap here) }

namespace Heap

variable {r : Renaming} {T T' T₁ : Zone} {h h' k k' h₁ : Heap} {around : List Bool} {s t : ScopeId}

/-! ## The scopes around a scope -/

/-- **For which of the scopes from `s` outwards a renaming is**, the globals
left out. -/
inductive Around (T : Zone) (h : Heap) : List Bool → ScopeId → Prop where
  | globals : Around T h [] Machine.globals
  | inside {around : List Bool} {s outer : ScopeId} {scope : Scope}
      (hscope : h.scope? s = some scope) (houter : scope.outer = some outer)
      (hrest : Around T h around outer) : Around T h (T s :: around) s

/-- What running can do to a zone and the scopes there are: nothing, but
there may be more of them. -/
structure Extends (T : Zone) (h : Heap) (T' : Zone) (h' : Heap) : Prop where
  zone : ∀ s, (h.scope? s).isSome = true → T' s = T s
  scopes : ∀ s scope, h.scope? s = some scope →
    ∃ scope', h'.scope? s = some scope' ∧ scope'.outer = scope.outer

namespace Extends

theorem refl (T : Zone) (h : Heap) : Extends T h T h :=
  ⟨fun _ _ => rfl, fun _ scope hs => ⟨scope, hs, rfl⟩⟩

theorem trans (h₁₂ : Extends T h T₁ h₁) (h₂₃ : Extends T₁ h₁ T' h') : Extends T h T' h' := by
  constructor
  · intro s hs
    obtain ⟨scope, hscope⟩ := Option.isSome_iff_exists.1 hs
    obtain ⟨scope₁, hscope₁, -⟩ := h₁₂.scopes s scope hscope
    rw [h₂₃.zone s (by rw [hscope₁]; rfl), h₁₂.zone s hs]
  · intro s scope hs
    obtain ⟨scope₁, hscope₁, houter₁⟩ := h₁₂.scopes s scope hs
    obtain ⟨scope₂, hscope₂, houter₂⟩ := h₂₃.scopes s scope₁ hscope₁
    exact ⟨scope₂, hscope₂, houter₂.trans houter₁⟩

theorem of_scopes_eq (heq : h'.scopes = h.scopes) : Extends T h T h' := by
  refine ⟨fun _ _ => rfl, fun s scope hs => ⟨scope, ?_, rfl⟩⟩
  rwa [scope?, heq]

theorem define (s : ScopeId) (x : Text) (v : Value) : Extends T h T (h.define s x v) := by
  refine ⟨fun _ _ => rfl, fun t scope ht => ?_⟩
  rw [scope?_define]
  by_cases hts : t = s
  · subst hts
    rw [if_pos rfl, ht]
    exact ⟨_, rfl, rfl⟩
  · rw [if_neg hts]
    exact ⟨scope, ht, rfl⟩

theorem newScope (outer : Option ScopeId) (here : Bool) :
    Extends T h (T.enter (h.newScope outer).2 here) (h.newScope outer).1 := by
  refine ⟨fun s hs => if_neg (h.ne_newScope hs), fun t scope ht => ⟨scope, ?_, rfl⟩⟩
  rw [scope?_newScope, if_neg (h.ne_newScope (by rw [ht]; rfl)), ht]

end Extends

theorem Around.extend (haround : Around T h around s) (hext : Extends T h T' h') :
    Around T' h' around s := by
  induction haround with
  | globals => exact .globals
  | inside hscope houter _ ih =>
    obtain ⟨scope', hscope', houter'⟩ := hext.scopes _ _ hscope
    rw [← hext.zone _ (by rw [hscope]; rfl)]
    exact .inside hscope' (houter'.trans houter) ih

/-- A new scope inside one whose surroundings are known. -/
theorem Around.newScope (haround : Around T h around s) (here : Bool) :
    Around (T.enter (h.newScope (some s)).2 here) (h.newScope (some s)).1 (here :: around)
      (h.newScope (some s)).2 := by
  have hscope : (h.newScope (some s)).1.scope? (h.newScope (some s)).2 = some ⟨.empty, some s⟩ := by
    rw [scope?_newScope, if_pos rfl]
  have hhere : T.enter (h.newScope (some s)).2 here (h.newScope (some s)).2 = here := if_pos rfl
  have hnew := Around.inside hscope rfl (haround.extend (.newScope (some s) here))
  rwa [hhere] at hnew

theorem Around.head (haround : Around T h around s) (hglobals : T Machine.globals = false) :
    around.headD false = T s := by
  cases haround with
  | globals => exact hglobals.symm
  | inside => rfl

/-- **The distance tells for which scope the renaming is.** -/
theorem Around.isFor (haround : Around T h around s) (hglobals : T Machine.globals = false)
    (hend : (h.scope? Machine.globals).bind Scope.outer = none) {d : Nat}
    (ht : h.ancestor s d = some t) : Renaming.isFor around (some d) = T t := by
  induction haround generalizing d with
  | globals =>
    cases d with
    | zero =>
      obtain rfl := Option.some.inj ht
      exact hglobals.symm
    | succ d =>
      -- there is nothing outside the globals
      rw [ancestor, outwards, hend] at ht
      cases d <;> cases ht
  | inside hscope houter _ ih =>
    cases d with
    | zero =>
      obtain rfl := Option.some.inj ht
      rfl
    | succ d =>
      simp only [ancestor, outwards, hscope, Option.bind_some, houter] at ht
      exact ih ht

/-! ## Code -/

/-- **Two functions that differ by a renaming**, as seen from the scope they
were made in. The scopes of `inner` are still to be made between that scope
and their own; a method that is not bound yet lacks the one with `this`. -/
structure FunctionVaries (r : Renaming) (T : Zone) (h : Heap) (inner : List Bool)
    (fn fn' : Function) : Prop where
  code : ∃ around, Around T h around fn.closure ∧
    Stmt.RoutineVaries r.variation (inner ++ around) fn.decl fn'.decl ∧
    (fn.isInit = true → (inner ++ around).headD false = false)
  closure : fn'.closure = fn.closure
  isInit : fn'.isInit = fn.isInit

namespace FunctionVaries

variable {inner : List Bool} {fn fn' : Function}

theorem extend (hfn : FunctionVaries r T h inner fn fn') (hext : Extends T h T' h') :
    FunctionVaries r T' h' inner fn fn' := by
  obtain ⟨around, haround, hcode, hinit⟩ := hfn.code
  exact ⟨⟨around, haround.extend hext, hcode, hinit⟩, hfn.closure, hfn.isInit⟩

theorem name (hfn : FunctionVaries r T h inner fn fn') : fn'.decl.name = fn.decl.name := by
  obtain ⟨around, -, hcode, -⟩ := hfn.code
  exact hcode.name_eq

theorem arity (hfn : FunctionVaries r T h inner fn fn') :
    fn'.decl.params.length = fn.decl.params.length := by
  obtain ⟨around, -, hcode, -⟩ := hfn.code
  exact hcode.length_params

end FunctionVaries

/-- Two classes whose methods differ by a renaming. -/
structure ClassVaries (r : Renaming) (T : Zone) (h : Heap) (cls cls' : Class) : Prop where
  name : cls'.name = cls.name
  superclass : cls'.superclass = cls.superclass
  methods : ∀ x, Option.Rel (FunctionVaries r T h [false]) (cls.methods.find? x)
    (cls'.methods.find? x)

theorem ClassVaries.extend {cls cls' : Class} (hcls : ClassVaries r T h cls cls')
    (hext : Extends T h T' h') : ClassVaries r T' h' cls cls' :=
  ⟨hcls.name, hcls.superclass, fun x => rel_imp (hcls.methods x) fun _ _ h => h.extend hext⟩

/-! ## Heaps -/

/-- **Two heaps that differ by a renaming.** -/
structure Mirrors (r : Renaming) (T : Zone) (h h' : Heap) : Prop where
  scopeCount : h'.scopes.size = h.scopes.size
  scopes : ∀ s, h'.scope? s = (h.scope? s).map (Scope.rename r (T s))
  globals : T Machine.globals = false ∧
    ∃ scope, h.scope? Machine.globals = some scope ∧ scope.outer = none
  functionCount : h'.functions.size = h.functions.size
  functions : ∀ f, Option.Rel (FunctionVaries r T h []) (h.function? f) (h'.function? f)
  classCount : h'.classes.size = h.classes.size
  classes : ∀ c, Option.Rel (ClassVaries r T h) (h.class? c) (h'.class? c)
  natives : h'.natives = h.natives
  instances : h'.instances = h.instances
  registry : h'.registry = h.registry

namespace Mirrors

/-- Only scopes have changed. -/
theorem of_scopes (hm : Mirrors r T h h') (hext : Extends T h T' k)
    (hk : k = { h with scopes := k.scopes }) (hk' : k' = { h' with scopes := k'.scopes })
    (hglobals : T' Machine.globals = T Machine.globals)
    (hcount : k'.scopes.size = k.scopes.size)
    (hscopes : ∀ s, k'.scope? s = (k.scope? s).map (Scope.rename r (T' s))) :
    Mirrors r T' k k' where
  scopeCount := hcount
  scopes := hscopes
  globals := by
    obtain ⟨hzone, scope, hscope, houter⟩ := hm.globals
    obtain ⟨scope', hscope', houter'⟩ := hext.scopes _ _ hscope
    exact ⟨hglobals.trans hzone, scope', hscope', houter'.trans houter⟩
  functionCount := by
    rw [hk, hk']
    exact hm.functionCount
  functions f := by
    have hf : Option.Rel (FunctionVaries r T h []) (k.function? f) (k'.function? f) := by
      rw [hk, hk']
      exact hm.functions f
    exact rel_imp hf fun _ _ hfn => hfn.extend hext
  classCount := by
    rw [hk, hk']
    exact hm.classCount
  classes c := by
    have hc : Option.Rel (ClassVaries r T h) (k.class? c) (k'.class? c) := by
      rw [hk, hk']
      exact hm.classes c
    exact rel_imp hc fun _ _ hcls => hcls.extend hext
  natives := by
    rw [hk, hk']
    exact hm.natives
  instances := by
    rw [hk, hk']
    exact hm.instances
  registry := by
    rw [hk, hk']
    exact hm.registry

/-! ### Scopes -/

variable (hm : Mirrors r T h h')

include hm

theorem isSome_globals : (h.scope? Machine.globals).isSome = true := by
  obtain ⟨-, scope, hscope, -⟩ := hm.globals
  rw [hscope]
  rfl

theorem isSome_scope (haround : Around T h around s) : (h.scope? s).isSome = true := by
  cases haround with
  | globals => exact hm.isSome_globals
  | inside hscope => rw [hscope]; rfl

/-- **A name bound in both heaps**, as it is spelled in each. -/
theorem define (s : ScopeId) (x : Text) (v : Value) :
    Mirrors r T (h.define s x v) (h'.define s (r.swap (T s) x) v) := by
  refine hm.of_scopes (.define s x v) rfl rfl rfl ?_ fun t => ?_
  · simpa only [Heap.define, Array.size_modify] using hm.scopeCount
  · rw [scope?_define, scope?_define]
    by_cases hts : t = s
    · subst hts
      rw [if_pos rfl, if_pos rfl, hm.scopes]
      cases h.scope? t with
      | none => rfl
      | some scope =>
        simp only [Option.map_some, Scope.rename, Table.rekey_insert (Renaming.swap_injective _)]
    · rw [if_neg hts, if_neg hts, hm.scopes]

theorem newScope_id (outer : Option ScopeId) : (h'.newScope outer).2 = (h.newScope outer).2 := by
  simp only [Heap.newScope, hm.scopeCount]

/-- **A new scope in both heaps.** -/
theorem newScope (outer : Option ScopeId) (here : Bool) :
    Mirrors r (T.enter (h.newScope outer).2 here) (h.newScope outer).1 (h'.newScope outer).1 := by
  refine hm.of_scopes (.newScope outer here) rfl rfl ?_ ?_ fun t => ?_
  · exact if_neg (h.ne_newScope hm.isSome_globals)
  · simp only [Heap.newScope, Array.size_push, hm.scopeCount]
  · rw [scope?_newScope, scope?_newScope, hm.newScope_id]
    by_cases ht : t = (h.newScope outer).2
    · rw [if_pos ht, if_pos ht]
      rfl
    · rw [if_neg ht, if_neg ht, hm.scopes, Zone.enter, if_neg ht]

theorem boundIn (s : ScopeId) (x : Text) :
    h'.boundIn s (r.swap (T s) x) = h.boundIn s x := by
  simp only [Heap.boundIn, hm.scopes]
  cases h.scope? s with
  | none => rfl
  | some scope => exact Table.find?_rekey (Renaming.swap_injective _) _ _

theorem ancestor (s : ScopeId) (d : Nat) : h'.ancestor s d = h.ancestor s d := by
  have houtwards : ∀ d place, h'.outwards d place = h.outwards d place := by
    intro d
    induction d with
    | zero => exact fun _ => rfl
    | succ d ih =>
      intro place
      cases place with
      | none => rfl
      | some s =>
        have houter : (h'.scope? s).bind Scope.outer = (h.scope? s).bind Scope.outer := by
          rw [hm.scopes]
          cases h.scope? s <;> rfl
        rw [outwards, outwards, houter, ih]
  rw [Heap.ancestor, Heap.ancestor, houtwards]

/-- The globals are the same in both heaps. -/
theorem scope?_globals : h'.scope? Machine.globals = h.scope? Machine.globals := by
  rw [hm.scopes, hm.globals.1]
  cases h.scope? Machine.globals with
  | none => rfl
  | some scope =>
    have hsame : scope.values.rekey (r.swap false) = scope.values := Table.rekey_id scope.values
    simp only [Option.map_some, Scope.rename, hsame]

theorem listing_globals : h'.listing Machine.globals = h.listing Machine.globals := by
  rw [listing, listing, hm.scope?_globals]

/-- From the globals on, only the globals can hold a name. -/
theorem holder_globals (x : Text) :
    h'.holder Machine.globals x = h.holder Machine.globals x ∧
      ∀ s, h.holder Machine.globals x = some s → s = Machine.globals := by
  obtain ⟨-, scope, hscope, houter⟩ := hm.globals
  rw [holder, holder, hm.scopeCount]
  cases h.scopes.size with
  | zero => exact ⟨rfl, nofun⟩
  | succ n =>
    simp only [holderWithin, hm.scope?_globals, hscope, houter]
    refine ⟨trivial, fun s hs => ?_⟩
    split at hs
    · exact (Option.some.inj hs).symm
    · cases hs

/-! ### Functions, classes and instances -/

theorem newFunction {fn fn' : Function} (hfn : FunctionVaries r T h [] fn fn') :
    Mirrors r T (h.newFunction fn).1 (h'.newFunction fn').1 ∧
      (h'.newFunction fn').2 = (h.newFunction fn).2 := by
  have hext : Extends T h T (h.newFunction fn).1 := .of_scopes_eq rfl
  refine ⟨{
    scopeCount := hm.scopeCount
    scopes := hm.scopes
    globals := hm.globals
    functionCount := by simp only [Heap.newFunction, Array.size_push, hm.functionCount]
    functions := fun f => ?_
    classCount := hm.classCount
    classes := fun c => ?_
    natives := hm.natives
    instances := hm.instances
    registry := hm.registry }, by simp only [Heap.newFunction, hm.functionCount]⟩
  · simp only [function?, Heap.newFunction, Array.getElem?_push, hm.functionCount]
    split
    · exact .some (hfn.extend hext)
    · exact rel_imp (hm.functions f) fun _ _ hold => hold.extend hext
  · exact rel_imp (hm.classes c) fun _ _ hcls => hcls.extend hext

theorem newClass {cls cls' : Class} (hcls : ClassVaries r T h cls cls') :
    Mirrors r T (h.newClass cls).1 (h'.newClass cls').1 ∧
      (h'.newClass cls').2 = (h.newClass cls).2 := by
  have hext : Extends T h T (h.newClass cls).1 := .of_scopes_eq rfl
  refine ⟨{
    scopeCount := hm.scopeCount
    scopes := hm.scopes
    globals := hm.globals
    functionCount := hm.functionCount
    functions := fun f => ?_
    classCount := by simp only [Heap.newClass, Array.size_push, hm.classCount]
    classes := fun c => ?_
    natives := hm.natives
    instances := hm.instances
    registry := hm.registry }, by simp only [Heap.newClass, hm.classCount]⟩
  · exact rel_imp (hm.functions f) fun _ _ hfn => hfn.extend hext
  · simp only [class?, Heap.newClass, Array.getElem?_push, hm.classCount]
    split
    · exact .some (hcls.extend hext)
    · exact rel_imp (hm.classes c) fun _ _ hold => hold.extend hext

/-- Only instances have changed, and in the same way. -/
theorem of_instances (instances : Array Instance) :
    Mirrors r T { h with instances := instances } { h' with instances := instances } := by
  have hext : Extends T h T { h with instances := instances } := .of_scopes_eq rfl
  exact {
    scopeCount := hm.scopeCount
    scopes := hm.scopes
    globals := hm.globals
    functionCount := hm.functionCount
    functions := fun f => rel_imp (hm.functions f) fun _ _ hfn => hfn.extend hext
    classCount := hm.classCount
    classes := fun c => rel_imp (hm.classes c) fun _ _ hcls => hcls.extend hext
    natives := hm.natives
    instances := rfl
    registry := hm.registry }

/-- What the natives keep has changed, and in the same way. -/
theorem keep (kept : Registry) : Mirrors r T (h.keep kept) (h'.keep kept) := by
  have hext : Extends T h T (h.keep kept) := .of_scopes_eq rfl
  exact { hm with
    functions := fun f => rel_imp (hm.functions f) fun _ _ hfn => hfn.extend hext
    classes := fun c => rel_imp (hm.classes c) fun _ _ hcls => hcls.extend hext
    registry := rfl }

theorem newInstance (c : ClassId) :
    Mirrors r T (h.newInstance c).1 (h'.newInstance c).1 ∧
      (h'.newInstance c).2 = (h.newInstance c).2 := by
  simp only [Heap.newInstance, hm.instances]
  exact ⟨hm.of_instances _, trivial⟩

theorem setField (i : InstanceId) (x : Text) (v : Value) :
    Mirrors r T (h.setField i x v) (h'.setField i x v) := by
  simp only [Heap.setField, hm.instances]
  exact hm.of_instances _

/-- **A class has the same methods in both heaps**, but for the renaming. -/
theorem method? (c : ClassId) (x : Text) :
    Option.Rel (FunctionVaries r T h [false]) (h.method? c x) (h'.method? c x) := by
  have hwithin : ∀ steps c, Option.Rel (FunctionVaries r T h [false])
      (h.methodWithin x steps c) (h'.methodWithin x steps c) := by
    intro steps
    induction steps with
    | zero => exact fun _ => .none
    | succ steps ih =>
      intro c
      rw [methodWithin, methodWithin]
      rcases eq_of_rel (hm.classes c) with ⟨hc, hc'⟩ | ⟨cls, cls', hc, hc', hcls⟩
      · rw [hc, hc']
        exact .none
      · simp only [hc, hc', hcls.superclass]
        rcases eq_of_rel (hcls.methods x) with ⟨hx, hx'⟩ | ⟨fn, fn', hx, hx', hfn⟩
        · simp only [hx, hx']
          split
          · exact .none
          · exact ih _
        · simp only [hx, hx']
          exact .some hfn
  rw [Heap.method?, Heap.method?, hm.classCount]
  exact hwithin _ _

/-- **A method bound to an instance in both heaps.** The scope with `this`
is never one that the renaming is for. -/
theorem bind {fn fn' : Function} (hfn : FunctionVaries r T h [false] fn fn') (i : InstanceId) :
    ∃ T', Extends T h T' (h.bind fn i).1 ∧ Mirrors r T' (h.bind fn i).1 (h'.bind fn' i).1 ∧
      FunctionVaries r T' (h.bind fn i).1 [] (h.bind fn i).2 (h'.bind fn' i).2 := by
  obtain ⟨around, haround, hcode, hinit⟩ := hfn.code
  have hnew := hm.newScope (some fn.closure) false
  have hid := hm.newScope_id (some fn.closure)
  have hzone : T.enter (h.newScope (some fn.closure)).2 false (h.newScope (some fn.closure)).2 =
      false := if_pos rfl
  have hdefine := hnew.define (h.newScope (some fn.closure)).2 thisName (.instanceRef i)
  have hext : Extends T h _ (h.bind fn i).1 :=
    (Extends.newScope (some fn.closure) false).trans (.define _ thisName (.instanceRef i))
  rw [hzone, Renaming.swap_false] at hdefine
  refine ⟨_, hext, ?_, ⟨false :: around, ?_, hcode, hinit⟩, ?_, hfn.isInit⟩
  · simp only [Heap.bind, hfn.closure, hid]
    exact hdefine
  · exact (haround.newScope false).extend (.define _ thisName (.instanceRef i))
  · simp only [Heap.bind, hfn.closure, hid]

/-! ### Calls -/

/-- Parameters are bound in both heaps, as they are spelled in each. -/
theorem defineAll {params params' : List Token}
    (hparams : List.Forall₂ (r.Respells (T s)) params params') (args : List Value) :
    Extends T h T (h.defineAll s params args) ∧
      Mirrors r T (h.defineAll s params args) (h'.defineAll s params' args) := by
  induction hparams generalizing h h' args with
  | nil => exact ⟨.refl T h, hm⟩
  | @cons p p' _ _ hp _ ih =>
    cases args with
    | nil => exact ⟨.refl T h, hm⟩
    | cons arg args =>
      have hdefine := hm.define s p.lexeme arg
      rw [← hp.lexeme] at hdefine
      obtain ⟨hext, hall⟩ := ih hdefine args
      exact ⟨(Extends.define s p.lexeme arg).trans hext, hall⟩

/-- **The scope of a call in both heaps.** -/
theorem enter {fn fn' : Function} (hfn : FunctionVaries r T h [] fn fn') (args : List Value) :
    ∃ T' around, Extends T h T' (h.enter fn args).1 ∧
      Mirrors r T' (h.enter fn args).1 (h'.enter fn' args).1 ∧
      (h'.enter fn' args).2 = (h.enter fn args).2 ∧
      Around T' (h.enter fn args).1 around (h.enter fn args).2 ∧
      Stmt.VariesAll r.variation around fn.decl.body fn'.decl.body := by
  obtain ⟨around, haround, hcode, -⟩ := hfn.code
  have hid := hm.newScope_id (some fn.closure)
  unfold Heap.enter
  rw [hfn.closure]
  cases hd : fn.decl
  cases hd' : fn'.decl
  rw [hd, hd'] at hcode
  cases hcode with
  | intro here name hparams hbody =>
    have hnew := hm.newScope (some fn.closure) here
    have hzone : T.enter (h.newScope (some fn.closure)).2 here (h.newScope (some fn.closure)).2 =
        here := if_pos rfl
    obtain ⟨hext, hall⟩ := hnew.defineAll (s := (h.newScope (some fn.closure)).2)
      (by rw [hzone]; exact hparams) args
    simp only [hid]
    exact ⟨_, here :: around, (Extends.newScope (some fn.closure) here).trans hext, hall, trivial,
      (haround.newScope here).extend hext, hbody⟩

/-- **A call answers the same.** -/
theorem answer {fn fn' : Function} (hfn : FunctionVaries r T h [] fn fn') (c : Completion) :
    h'.answer fn' c = h.answer fn c := by
  obtain ⟨around, haround, -, hinit⟩ := hfn.code
  unfold Heap.answer
  rw [hfn.isInit, hfn.closure]
  split
  · rename_i hset
    have hzone : T fn.closure = false := (haround.head hm.globals.1).symm.trans (hinit hset)
    have hbound := hm.boundIn fn.closure thisName
    rw [hzone, Renaming.swap_false] at hbound
    rw [hbound]
  · rfl

theorem arity? (v : Value) : h'.arity? v = h.arity? v := by
  cases v with
  | function i =>
    rcases eq_of_rel (hm.functions i) with ⟨hi, hi'⟩ | ⟨fn, fn', hi, hi', hfn⟩
    · simp only [Heap.arity?, hi, hi', Option.map_none]
    · simp only [Heap.arity?, hi, hi', Option.map_some, hfn.arity]
  | native i => simp only [Heap.arity?, native?, hm.natives]
  | classRef c =>
    rcases eq_of_rel (hm.method? c initName) with ⟨hc, hc'⟩ | ⟨fn, fn', hc, hc', hfn⟩
    · simp only [Heap.arity?, classArity, hc, hc']
    · simp only [Heap.arity?, classArity, hc, hc', hfn.arity]
  | _ => rfl

/-! ### Printing -/

/-- **A value prints the same in both heaps.** -/
theorem text (v : Value) : h'.text v = h.text v := by
  have hclass : ∀ c, text.className h' c = text.className h c := by
    intro c
    rcases eq_of_rel (hm.classes c) with ⟨hc, hc'⟩ | ⟨cls, cls', hc, hc', hcls⟩
    · simp only [text.className, hc, hc', Option.map_none]
    · simp only [text.className, hc, hc', Option.map_some, hcls.name]
  cases v with
  | function i =>
    rcases eq_of_rel (hm.functions i) with ⟨hi, hi'⟩ | ⟨fn, fn', hi, hi', hfn⟩
    · simp only [Heap.text, text.functionName, hi, hi', Option.map_none]
    · simp only [Heap.text, text.functionName, hi, hi', Option.map_some, hfn.name]
  | native i => simp only [Heap.text, text.nativeName, native?, hm.natives]
  | classRef c => simp only [Heap.text, hclass]
  | instanceRef i =>
    simp only [Heap.text, text.instanceClassName, instance?, hm.instances, hclass]
  | _ => rfl

theorem argument (v : Value) : h'.argument v = h.argument v := by
  simp only [Heap.argument, hm.text]

end Mirrors

end Heap

end TanLang
