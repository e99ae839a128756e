import TanLang.Proofs.Evaluation.Store
import TanLang.Proofs.Heap.Renaming
import TanLang.Proofs.WritingOut
/-!
# The heap — scopes that are only there for loops written out

A program and the same program with its `for` loops written out make the
same functions, classes and instances in the same order, and also the same
scopes, but between those the second makes extra ones. A pairing records
which scope of the second heap stands for which one of the first. **Scopes
that are paired bind the same names to the same values**, and going out from
them one comes past paired scopes, with extra ones in between.

Nothing has to be known of what is in the extra scopes, for no distance
leads to one.
-/

namespace TanLang

/-- For each scope of the first heap, the one of the second that stands for
it. -/
abbrev Pairing := ScopeId → ScopeId

/-- The pairing with a new scope on either side. -/
def Pairing.enter (σ : Pairing) (s s' : ScopeId) : Pairing := fun t => if t = s then s' else σ t

namespace Heap

variable {σ σ₁ σ₂ : Pairing} {h h' k k' l l' : Heap} {layers : Layers} {s s' t : ScopeId}

/-! ## The scopes around two scopes -/

/-- **Two scopes correspond**: going out from them one comes past scopes that
are paired, up to the globals, and on one side past extra ones, too. -/
inductive Paired (σ : Pairing) (h h' : Heap) : Layers → ScopeId → ScopeId → Prop where
  | globals : Paired σ h h' [] Machine.globals Machine.globals
  | both {layers : Layers} {s outer outer' : ScopeId} {scope scope' : Scope}
      (hscope : h.scope? s = some scope) (houter : scope.outer = some outer)
      (hscope' : h'.scope? (σ s) = some scope') (houter' : scope'.outer = some outer')
      (hrest : Paired σ h h' layers outer outer') : Paired σ h h' (false :: layers) s (σ s)
  | extra {layers : Layers} {s s' outer' : ScopeId} {scope' : Scope}
      (hscope' : h'.scope? s' = some scope') (houter' : scope'.outer = some outer')
      (hrest : Paired σ h h' layers s outer') : Paired σ h h' (true :: layers) s s'

/-- The scopes of a heap stay where they are; there may be more of them. -/
def Keeps (h k : Heap) : Prop := ∀ s scope, h.scope? s = some scope →
  ∃ scope', k.scope? s = some scope' ∧ scope'.outer = scope.outer

theorem Keeps.refl (h : Heap) : h.Keeps h := fun _ scope hs => ⟨scope, hs, rfl⟩

theorem Keeps.trans (h₁ : h.Keeps k) (h₂ : k.Keeps l) : h.Keeps l := by
  intro s scope hs
  obtain ⟨scope₁, hscope₁, houter₁⟩ := h₁ s scope hs
  obtain ⟨scope₂, hscope₂, houter₂⟩ := h₂ s scope₁ hscope₁
  exact ⟨scope₂, hscope₂, houter₂.trans houter₁⟩

theorem Keeps.isSome (hkeeps : h.Keeps k) (hs : (h.scope? s).isSome = true) :
    (k.scope? s).isSome = true := by
  obtain ⟨scope, hscope⟩ := Option.isSome_iff_exists.1 hs
  obtain ⟨scope', hscope', -⟩ := hkeeps s scope hscope
  rw [hscope']
  rfl

theorem Keeps.of_scopes_eq (heq : k.scopes = h.scopes) : h.Keeps k := by
  intro s scope hs
  refine ⟨scope, ?_, rfl⟩
  rwa [scope?, heq]

theorem Keeps.define (s : ScopeId) (x : Text) (v : Value) : h.Keeps (h.define s x v) := by
  intro t scope ht
  rw [scope?_define]
  by_cases hts : t = s
  · subst hts
    rw [if_pos rfl, ht]
    exact ⟨_, rfl, rfl⟩
  · rw [if_neg hts]
    exact ⟨scope, ht, rfl⟩

theorem Keeps.newScope (outer : Option ScopeId) : h.Keeps (h.newScope outer).1 := by
  intro t scope ht
  refine ⟨scope, ?_, rfl⟩
  rw [scope?_newScope, if_neg (h.ne_newScope (by rw [ht]; rfl)), ht]

/-- What running can do to a pairing and to both heaps. -/
structure Widens (σ : Pairing) (h h' : Heap) (σ₁ : Pairing) (k k' : Heap) : Prop where
  pairing : ∀ s, (h.scope? s).isSome = true → σ₁ s = σ s
  left : h.Keeps k
  right : h'.Keeps k'

namespace Widens

theorem refl (σ : Pairing) (h h' : Heap) : Widens σ h h' σ h h' :=
  ⟨fun _ _ => rfl, .refl h, .refl h'⟩

theorem trans (h₁ : Widens σ h h' σ₁ k k') (h₂ : Widens σ₁ k k' σ₂ l l') :
    Widens σ h h' σ₂ l l' :=
  ⟨fun s hs => (h₂.pairing s (h₁.left.isSome hs)).trans (h₁.pairing s hs),
    h₁.left.trans h₂.left, h₁.right.trans h₂.right⟩

/-- The pairing stays as it is. -/
theorem of_keeps (hleft : h.Keeps k) (hright : h'.Keeps k') : Widens σ h h' σ k k' :=
  ⟨fun _ _ => rfl, hleft, hright⟩

end Widens

theorem Paired.widen (hpaired : Paired σ h h' layers s s') (hwidens : Widens σ h h' σ₁ k k') :
    Paired σ₁ k k' layers s s' := by
  induction hpaired with
  | globals => exact .globals
  | @both layers s outer outer' scope scope' hscope houter hscope' houter' _ ih =>
    obtain ⟨left, hleft, hleft'⟩ := hwidens.left _ _ hscope
    obtain ⟨right, hright, hright'⟩ := hwidens.right _ _ hscope'
    have hsame := hwidens.pairing s (by rw [hscope]; rfl)
    rw [← hsame] at hright ⊢
    exact .both hleft (hleft'.trans houter) hright (hright'.trans houter') ih
  | extra hscope' houter' _ ih =>
    obtain ⟨right, hright, hright'⟩ := hwidens.right _ _ hscope'
    exact .extra hright (hright'.trans houter') ih

/-- **Distances that correspond lead to scopes that are paired.** -/
theorem Paired.ancestor (hpaired : Paired σ h h' layers s s') {d d' : Nat}
    (hd : layers.Apart d d') : ∃ t, h.ancestor s d = some t ∧ h'.ancestor s' d' = some (σ t) ∧
      (h.scope? t).isSome = true := by
  induction hpaired generalizing d d' with
  | globals => cases hd
  | @both _ s _ _ _ _ hscope houter hscope' houter' _ ih =>
    cases hd with
    | here => exact ⟨s, rfl, rfl, by rw [hscope]; rfl⟩
    | next hd =>
      simp only [Heap.ancestor, outwards, hscope, hscope', Option.bind_some, houter, houter']
      exact ih hd
  | extra hscope' houter' _ ih =>
    cases hd with
    | skip hd =>
      obtain ⟨t, ht, ht', hsome⟩ := ih hd
      refine ⟨t, ht, ?_, hsome⟩
      rw [Heap.ancestor, outwards, hscope', Option.bind_some, houter']
      exact ht'

/-! ## Code -/

/-- **Two functions that differ by their `for` loops**, as seen from the
scopes they were made in. The scopes of `inner` are still to be made between
those and their own; a method that is not bound yet lacks the one with
`this`. -/
structure FunctionWrittenOut (σ : Pairing) (h h' : Heap) (inner : Layers)
    (fn fn' : Function) : Prop where
  code : ∃ layers : Layers, Paired σ h h' layers fn.closure fn'.closure ∧ layers.Own ∧
    Stmt.WrittenOutRoutine (inner ++ layers) fn.decl fn'.decl
  isInit : fn'.isInit = fn.isInit

namespace FunctionWrittenOut

variable {inner : Layers} {fn fn' : Function}

theorem widen (hfn : FunctionWrittenOut σ h h' inner fn fn')
    (hwidens : Widens σ h h' σ₁ k k') : FunctionWrittenOut σ₁ k k' inner fn fn' := by
  obtain ⟨layers, hpaired, hown, hcode⟩ := hfn.code
  exact ⟨⟨layers, hpaired.widen hwidens, hown, hcode⟩, hfn.isInit⟩

theorem name (hfn : FunctionWrittenOut σ h h' inner fn fn') : fn'.decl.name = fn.decl.name := by
  obtain ⟨layers, -, -, hcode⟩ := hfn.code
  exact hcode.name

theorem params (hfn : FunctionWrittenOut σ h h' inner fn fn') :
    fn'.decl.params = fn.decl.params := by
  obtain ⟨layers, -, -, hcode⟩ := hfn.code
  exact hcode.params

end FunctionWrittenOut

/-- Two classes whose methods differ by their `for` loops. -/
structure ClassWrittenOut (σ : Pairing) (h h' : Heap) (cls cls' : Class) : Prop where
  name : cls'.name = cls.name
  superclass : cls'.superclass = cls.superclass
  methods : ∀ x, Option.Rel (FunctionWrittenOut σ h h' [false]) (cls.methods.find? x)
    (cls'.methods.find? x)

theorem ClassWrittenOut.widen {cls cls' : Class} (hcls : ClassWrittenOut σ h h' cls cls')
    (hwidens : Widens σ h h' σ₁ k k') : ClassWrittenOut σ₁ k k' cls cls' :=
  ⟨hcls.name, hcls.superclass, fun x => rel_imp (hcls.methods x) fun _ _ h => h.widen hwidens⟩

/-! ## Heaps -/

/-- The globals are there, and in nothing else. -/
def Rooted (h : Heap) : Prop := ∃ scope, h.scope? Machine.globals = some scope ∧ scope.outer = none

/-- **Two heaps that differ by extra scopes** and by the `for` loops in their
code. -/
structure Matches (σ : Pairing) (h h' : Heap) : Prop where
  scopes : ∀ s scope, h.scope? s = some scope →
    ∃ scope', h'.scope? (σ s) = some scope' ∧ scope'.values = scope.values
  injective : ∀ s t, (h.scope? s).isSome = true → (h.scope? t).isSome = true → σ s = σ t → s = t
  globals : σ Machine.globals = Machine.globals
  left : h.Rooted
  right : h'.Rooted
  functionCount : h'.functions.size = h.functions.size
  functions : ∀ f, Option.Rel (FunctionWrittenOut σ h h' []) (h.function? f) (h'.function? f)
  classCount : h'.classes.size = h.classes.size
  classes : ∀ c, Option.Rel (ClassWrittenOut σ h h') (h.class? c) (h'.class? c)
  natives : h'.natives = h.natives
  instances : h'.instances = h.instances
  registry : h'.registry = h.registry

theorem Rooted.keep (hg : h.Rooted) (hkeeps : h.Keeps k) : k.Rooted := by
  obtain ⟨scope, hscope, houter⟩ := hg
  obtain ⟨scope', hscope', houter'⟩ := hkeeps _ _ hscope
  exact ⟨scope', hscope', houter'.trans houter⟩

theorem Rooted.isSome (hg : h.Rooted) : (h.scope? Machine.globals).isSome = true := by
  obtain ⟨scope, hscope, -⟩ := hg
  rw [hscope]
  rfl

namespace Matches

/-- Only scopes have changed. -/
theorem of_scopes (hm : Matches σ h h') (hwidens : Widens σ h h' σ₁ k k')
    (hk : k = { h with scopes := k.scopes }) (hk' : k' = { h' with scopes := k'.scopes })
    (hscopes : ∀ s scope, k.scope? s = some scope →
      ∃ scope', k'.scope? (σ₁ s) = some scope' ∧ scope'.values = scope.values)
    (hinjective : ∀ s t, (k.scope? s).isSome = true → (k.scope? t).isSome = true →
      σ₁ s = σ₁ t → s = t) : Matches σ₁ k k' where
  scopes := hscopes
  injective := hinjective
  globals := (hwidens.pairing _ hm.left.isSome).trans hm.globals
  left := hm.left.keep hwidens.left
  right := hm.right.keep hwidens.right
  functionCount := by
    rw [hk, hk']
    exact hm.functionCount
  functions f := by
    have hf : Option.Rel (FunctionWrittenOut σ h h' []) (k.function? f) (k'.function? f) := by
      rw [hk, hk']
      exact hm.functions f
    exact rel_imp hf fun _ _ hfn => hfn.widen hwidens
  classCount := by
    rw [hk, hk']
    exact hm.classCount
  classes c := by
    have hc : Option.Rel (ClassWrittenOut σ h h') (k.class? c) (k'.class? c) := by
      rw [hk, hk']
      exact hm.classes c
    exact rel_imp hc fun _ _ hcls => hcls.widen hwidens
  natives := by
    rw [hk, hk']
    exact hm.natives
  instances := by
    rw [hk, hk']
    exact hm.instances
  registry := by
    rw [hk, hk']
    exact hm.registry

variable (hm : Matches σ h h')

include hm

/-! ### Scopes -/

/-- Where something can be declared, the scopes themselves are paired. -/
theorem eq_of_own (hpaired : Paired σ h h' layers s s') (hown : layers.Own) :
    s' = σ s ∧ (h.scope? s).isSome = true := by
  cases hpaired with
  | globals => exact ⟨hm.globals.symm, hm.left.isSome⟩
  | both hscope => exact ⟨rfl, by rw [hscope]; rfl⟩
  | extra => cases hown

theorem isSome_right (hs : (h.scope? s).isSome = true) : (h'.scope? (σ s)).isSome = true := by
  obtain ⟨scope, hscope⟩ := Option.isSome_iff_exists.1 hs
  obtain ⟨scope', hscope', -⟩ := hm.scopes s scope hscope
  rw [hscope']
  rfl

/-- **Scopes that are paired bind the same.** -/
theorem boundIn (hs : (h.scope? s).isSome = true) (x : Text) :
    h'.boundIn (σ s) x = h.boundIn s x := by
  obtain ⟨scope, hscope⟩ := Option.isSome_iff_exists.1 hs
  obtain ⟨scope', hscope', hvalues⟩ := hm.scopes s scope hscope
  simp only [Heap.boundIn, hscope, hscope', Option.bind_some, hvalues]

theorem listing_globals : h'.listing Machine.globals = h.listing Machine.globals := by
  obtain ⟨scope, hscope, -⟩ := hm.left
  obtain ⟨scope', hscope', hvalues⟩ := hm.scopes _ scope hscope
  rw [hm.globals] at hscope'
  simp only [listing, hscope, hscope', hvalues]

/-- **A name bound in paired scopes.** -/
theorem define (hs : (h.scope? s).isSome = true) (x : Text) (v : Value) :
    Matches σ (h.define s x v) (h'.define (σ s) x v) := by
  have hkeeps : h.Keeps (h.define s x v) := .define s x v
  have hback : ∀ t, ((h.define s x v).scope? t).isSome = true → (h.scope? t).isSome = true := by
    intro t ht
    rw [scope?_define] at ht
    split at ht
    · rename_i hts
      rw [hts]
      exact hs
    · exact ht
  refine hm.of_scopes (.of_keeps hkeeps (.define _ x v)) rfl rfl (fun t scope ht => ?_)
    fun t u ht hu hsame => hm.injective t u (hback t ht) (hback u hu) hsame
  rw [scope?_define] at ht ⊢
  by_cases hts : t = s
  · subst hts
    rw [if_pos rfl] at ht ⊢
    obtain ⟨old, hold, rfl⟩ := Option.map_eq_some_iff.1 ht
    obtain ⟨old', hold', hvalues⟩ := hm.scopes t old hold
    rw [hold']
    exact ⟨_, rfl, congrArg (Table.insert · x v) hvalues⟩
  · have hne : σ t ≠ σ s := by
      intro hsame
      rw [if_neg hts] at ht
      exact hts (hm.injective t s (by rw [ht]; rfl) hs hsame)
    rw [if_neg hts] at ht
    rw [if_neg hne]
    exact hm.scopes t scope ht

/-- **A new scope on both sides**, each in a scope that corresponds to the
other. -/
theorem newScope (hpaired : Paired σ h h' layers s s') :
    let σ₁ := σ.enter (h.newScope (some s)).2 (h'.newScope (some s')).2
    Widens σ h h' σ₁ (h.newScope (some s)).1 (h'.newScope (some s')).1 ∧
      Matches σ₁ (h.newScope (some s)).1 (h'.newScope (some s')).1 ∧
      Paired σ₁ (h.newScope (some s)).1 (h'.newScope (some s')).1 (false :: layers)
        (h.newScope (some s)).2 (h'.newScope (some s')).2 := by
  intro σ₁
  have hold : ∀ t, (h.scope? t).isSome = true → σ₁ t = σ t := fun t ht =>
    if_neg (h.ne_newScope ht)
  have hnew : σ₁ (h.newScope (some s)).2 = (h'.newScope (some s')).2 := if_pos rfl
  have hwidens : Widens σ h h' σ₁ (h.newScope (some s)).1 (h'.newScope (some s')).1 :=
    ⟨hold, .newScope _, .newScope _⟩
  have hscope' : (h'.newScope (some s')).1.scope? (h'.newScope (some s')).2 =
      some ⟨.empty, some s'⟩ := by rw [scope?_newScope, if_pos rfl]
  have hscope : (h.newScope (some s)).1.scope? (h.newScope (some s)).2 =
      some ⟨.empty, some s⟩ := by rw [scope?_newScope, if_pos rfl]
  -- an old scope is paired with an old one, so with none that is new
  have hapart : ∀ t, (h.scope? t).isSome = true → σ₁ t ≠ (h'.newScope (some s')).2 := by
    intro t ht
    rw [hold t ht]
    exact h'.ne_newScope (hm.isSome_right ht)
  have hback : ∀ t, t ≠ (h.newScope (some s)).2 →
      ((h.newScope (some s)).1.scope? t).isSome = true → (h.scope? t).isSome = true := by
    intro t ht hsome
    rwa [scope?_newScope, if_neg ht] at hsome
  refine ⟨hwidens, hm.of_scopes hwidens rfl rfl (fun t scope ht => ?_)
    fun t u ht hu hsame => ?_, ?_⟩
  · rw [scope?_newScope] at ht
    by_cases htnew : t = (h.newScope (some s)).2
    · rw [if_pos htnew] at ht
      cases ht
      rw [htnew, hnew]
      exact ⟨_, hscope', rfl⟩
    · rw [if_neg htnew] at ht
      have hsome : (h.scope? t).isSome = true := by rw [ht]; rfl
      rw [scope?_newScope, if_neg (hapart t hsome), hold t hsome]
      exact hm.scopes t scope ht
  · by_cases htnew : t = (h.newScope (some s)).2
    · by_cases hunew : u = (h.newScope (some s)).2
      · rw [htnew, hunew]
      · rw [htnew, hnew] at hsame
        exact absurd hsame.symm (hapart u (hback u hunew hu))
    · by_cases hunew : u = (h.newScope (some s)).2
      · rw [hunew, hnew] at hsame
        exact absurd hsame (hapart t (hback t htnew ht))
      · rw [hold t (hback t htnew ht), hold u (hback u hunew hu)] at hsame
        exact hm.injective t u (hback t htnew ht) (hback u hunew hu) hsame
  · have hpair : Paired σ₁ (h.newScope (some s)).1 (h'.newScope (some s')).1 (false :: layers)
        (h.newScope (some s)).2 (σ₁ (h.newScope (some s)).2) := by
      rw [← hnew] at hscope'
      exact .both hscope rfl hscope' rfl (hpaired.widen hwidens)
    rwa [hnew] at hpair

/-- **An extra scope**, on the one side only. -/
theorem extraScope (hpaired : Paired σ h h' layers s s') :
    Widens σ h h' σ h (h'.newScope (some s')).1 ∧
      Matches σ h (h'.newScope (some s')).1 ∧
      Paired σ h (h'.newScope (some s')).1 (true :: layers) s (h'.newScope (some s')).2 := by
  have hwidens : Widens σ h h' σ h (h'.newScope (some s')).1 :=
    .of_keeps (.refl h) (.newScope _)
  refine ⟨hwidens, hm.of_scopes hwidens rfl rfl (fun t scope ht => ?_) hm.injective, ?_⟩
  · have hsome := hm.isSome_right (s := t) (by rw [ht]; rfl)
    rw [scope?_newScope, if_neg (h'.ne_newScope hsome)]
    exact hm.scopes t scope ht
  · have hscope' : (h'.newScope (some s')).1.scope? (h'.newScope (some s')).2 =
        some ⟨.empty, some s'⟩ := by rw [scope?_newScope, if_pos rfl]
    exact .extra hscope' rfl (hpaired.widen hwidens)

/-- From the globals on, only the globals can hold a name. -/
theorem holder_globals (x : Text) :
    h'.holder Machine.globals x = h.holder Machine.globals x ∧
      ∀ s, h.holder Machine.globals x = some s → s = Machine.globals := by
  have hholder : ∀ {k : Heap} {scope : Scope}, k.scope? Machine.globals = some scope →
      scope.outer = none → k.holder Machine.globals x =
        if scope.values.contains x then some Machine.globals else none := by
    intro k scope hscope houter
    have hlt : 0 < k.scopes.size := (Array.getElem?_eq_some_iff.1 hscope).1
    obtain ⟨n, hn⟩ := Nat.exists_eq_succ_of_ne_zero (Nat.ne_of_gt hlt)
    rw [holder, hn, holderWithin, hscope]
    simp only [houter]
  obtain ⟨scope, hscope, houter⟩ := hm.left
  obtain ⟨scope', hscope', houter'⟩ := hm.right
  obtain ⟨again, hagain, hvalues⟩ := hm.scopes _ scope hscope
  rw [hm.globals, hscope'] at hagain
  cases hagain
  rw [hholder hscope houter, hholder hscope' houter', hvalues]
  refine ⟨rfl, fun s hs => ?_⟩
  split at hs
  · exact (Option.some.inj hs).symm
  · cases hs

/-! ### Functions, classes and instances -/

theorem newFunction {fn fn' : Function} (hfn : FunctionWrittenOut σ h h' [] fn fn') :
    Matches σ (h.newFunction fn).1 (h'.newFunction fn').1 ∧
      (h'.newFunction fn').2 = (h.newFunction fn).2 := by
  have hwidens : Widens σ h h' σ (h.newFunction fn).1 (h'.newFunction fn').1 :=
    .of_keeps (.of_scopes_eq rfl) (.of_scopes_eq rfl)
  refine ⟨{ hm with
    functionCount := by simp only [Heap.newFunction, Array.size_push, hm.functionCount]
    functions := fun f => ?_
    classes := fun c => ?_ }, by simp only [Heap.newFunction, hm.functionCount]⟩
  · simp only [function?, Heap.newFunction, Array.getElem?_push, hm.functionCount]
    split
    · exact .some (hfn.widen hwidens)
    · exact rel_imp (hm.functions f) fun _ _ hold => hold.widen hwidens
  · exact rel_imp (hm.classes c) fun _ _ hcls => hcls.widen hwidens

theorem newClass {cls cls' : Class} (hcls : ClassWrittenOut σ h h' cls cls') :
    Matches σ (h.newClass cls).1 (h'.newClass cls').1 ∧
      (h'.newClass cls').2 = (h.newClass cls).2 := by
  have hwidens : Widens σ h h' σ (h.newClass cls).1 (h'.newClass cls').1 :=
    .of_keeps (.of_scopes_eq rfl) (.of_scopes_eq rfl)
  refine ⟨{ hm with
    functions := fun f => ?_
    classCount := by simp only [Heap.newClass, Array.size_push, hm.classCount]
    classes := fun c => ?_ }, by simp only [Heap.newClass, hm.classCount]⟩
  · exact rel_imp (hm.functions f) fun _ _ hfn => hfn.widen hwidens
  · simp only [class?, Heap.newClass, Array.getElem?_push, hm.classCount]
    split
    · exact .some (hcls.widen hwidens)
    · exact rel_imp (hm.classes c) fun _ _ hold => hold.widen hwidens

/-- Only instances have changed, and in the same way. -/
theorem of_instances (instances : Array Instance) :
    Matches σ { h with instances := instances } { h' with instances := instances } := by
  have hwidens : Widens σ h h' σ { h with instances := instances }
      { h' with instances := instances } := .of_keeps (.of_scopes_eq rfl) (.of_scopes_eq rfl)
  exact { hm with
    functions := fun f => rel_imp (hm.functions f) fun _ _ hfn => hfn.widen hwidens
    classes := fun c => rel_imp (hm.classes c) fun _ _ hcls => hcls.widen hwidens
    instances := rfl }

/-- What the natives keep has changed, and in the same way. -/
theorem keep (kept : Registry) : Matches σ (h.keep kept) (h'.keep kept) := by
  have hwidens : Widens σ h h' σ (h.keep kept) (h'.keep kept) :=
    .of_keeps (.of_scopes_eq rfl) (.of_scopes_eq rfl)
  exact { hm with
    functions := fun f => rel_imp (hm.functions f) fun _ _ hfn => hfn.widen hwidens
    classes := fun c => rel_imp (hm.classes c) fun _ _ hcls => hcls.widen hwidens
    registry := rfl }

theorem newInstance (c : ClassId) :
    Matches σ (h.newInstance c).1 (h'.newInstance c).1 ∧
      (h'.newInstance c).2 = (h.newInstance c).2 := by
  simp only [Heap.newInstance, hm.instances]
  exact ⟨hm.of_instances _, trivial⟩

theorem setField (i : InstanceId) (x : Text) (v : Value) :
    Matches σ (h.setField i x v) (h'.setField i x v) := by
  simp only [Heap.setField, hm.instances]
  exact hm.of_instances _

/-- **A class has the same methods in both heaps**, but for their loops. -/
theorem method? (c : ClassId) (x : Text) :
    Option.Rel (FunctionWrittenOut σ h h' [false]) (h.method? c x) (h'.method? c x) := by
  have hwithin : ∀ steps c, Option.Rel (FunctionWrittenOut σ h h' [false])
      (h.methodWithin x steps c) (h'.methodWithin x steps c) := by
    intro steps
    induction steps with
    | zero => exact fun _ => .none
    | succ steps ih =>
      intro c
      rw [methodWithin, methodWithin]
      rcases eq_of_rel (hm.classes c) with ⟨hc, hc'⟩ | ⟨cls, cls', hc, hc', hcls⟩
      · rw [hc, hc']
        exact .none
      · simp only [hc, hc', hcls.superclass]
        rcases eq_of_rel (hcls.methods x) with ⟨hx, hx'⟩ | ⟨fn, fn', hx, hx', hfn⟩
        · simp only [hx, hx']
          split
          · exact .none
          · exact ih _
        · simp only [hx, hx']
          exact .some hfn
  rw [Heap.method?, Heap.method?, hm.classCount]
  exact hwithin _ _

/-- **A method bound to an instance on both sides.** -/
theorem bind {fn fn' : Function} (hfn : FunctionWrittenOut σ h h' [false] fn fn')
    (i : InstanceId) : ∃ σ₁, Widens σ h h' σ₁ (h.bind fn i).1 (h'.bind fn' i).1 ∧
      Matches σ₁ (h.bind fn i).1 (h'.bind fn' i).1 ∧
      FunctionWrittenOut σ₁ (h.bind fn i).1 (h'.bind fn' i).1 [] (h.bind fn i).2
        (h'.bind fn' i).2 := by
  obtain ⟨layers, hpaired, -, hcode⟩ := hfn.code
  obtain ⟨hwidens, hnew, hinside⟩ := hm.newScope hpaired
  obtain ⟨hid, hsome⟩ := hnew.eq_of_own hinside rfl
  have hdefine := hnew.define hsome thisName (.instanceRef i)
  rw [← hid] at hdefine
  have hbound : Widens _ (h.newScope (some fn.closure)).1 (h'.newScope (some fn'.closure)).1
      (σ.enter (h.newScope (some fn.closure)).2 (h'.newScope (some fn'.closure)).2)
      (h.bind fn i).1 (h'.bind fn' i).1 :=
    .of_keeps (.define _ thisName (.instanceRef i)) (.define _ thisName (.instanceRef i))
  exact ⟨_, hwidens.trans hbound, hdefine,
    ⟨false :: layers, hinside.widen hbound, rfl, hcode⟩, hfn.isInit⟩

/-! ### Calls -/

/-- Parameters are bound in both heaps. -/
theorem defineAll (hs : (h.scope? s).isSome = true) (params : List Token) (args : List Value) :
    Widens σ h h' σ (h.defineAll s params args) (h'.defineAll (σ s) params args) ∧
      Matches σ (h.defineAll s params args) (h'.defineAll (σ s) params args) := by
  induction params generalizing h h' args with
  | nil => exact ⟨.refl σ h h', hm⟩
  | cons p rest ih =>
    cases args with
    | nil => exact ⟨.refl σ h h', hm⟩
    | cons arg args =>
      have hfirst : Widens σ h h' σ (h.define s p.lexeme arg) (h'.define (σ s) p.lexeme arg) :=
        .of_keeps (.define _ _ _) (.define _ _ _)
      obtain ⟨hwidens, hall⟩ :=
        ih (hm.define hs p.lexeme arg) (hfirst.left.isSome hs) args
      exact ⟨hfirst.trans hwidens, hall⟩

/-- **The scope of a call on both sides.** -/
theorem enter {fn fn' : Function} (hfn : FunctionWrittenOut σ h h' [] fn fn')
    (args : List Value) : ∃ σ₁ layers,
      Widens σ h h' σ₁ (h.enter fn args).1 (h'.enter fn' args).1 ∧
      Matches σ₁ (h.enter fn args).1 (h'.enter fn' args).1 ∧
      Paired σ₁ (h.enter fn args).1 (h'.enter fn' args).1 layers (h.enter fn args).2
        (h'.enter fn' args).2 ∧
      Stmt.WrittenOutAll layers fn.decl.body fn'.decl.body := by
  obtain ⟨layers, hpaired, -, hcode⟩ := hfn.code
  obtain ⟨hwidens, hnew, hinside⟩ := hm.newScope hpaired
  obtain ⟨hid, hsome⟩ := hnew.eq_of_own hinside rfl
  obtain ⟨hall, hmatches⟩ := hnew.defineAll hsome fn.decl.params args
  rw [← hid] at hall hmatches
  unfold Heap.enter
  rw [hfn.params]
  exact ⟨_, false :: layers, hwidens.trans hall, hmatches, hinside.widen hall, hcode.body⟩

/-- **A call answers the same.** -/
theorem answer {fn fn' : Function} (hfn : FunctionWrittenOut σ h h' [] fn fn')
    (c : Completion) : h'.answer fn' c = h.answer fn c := by
  obtain ⟨layers, hpaired, hown, -⟩ := hfn.code
  obtain ⟨hid, hsome⟩ := hm.eq_of_own hpaired hown
  unfold Heap.answer
  rw [hfn.isInit, hid, hm.boundIn hsome]

theorem arity? (v : Value) : h'.arity? v = h.arity? v := by
  cases v with
  | function i =>
    rcases eq_of_rel (hm.functions i) with ⟨hi, hi'⟩ | ⟨fn, fn', hi, hi', hfn⟩
    · simp only [Heap.arity?, hi, hi', Option.map_none]
    · simp only [Heap.arity?, hi, hi', Option.map_some, hfn.params]
  | native i => simp only [Heap.arity?, native?, hm.natives]
  | classRef c =>
    rcases eq_of_rel (hm.method? c initName) with ⟨hc, hc'⟩ | ⟨fn, fn', hc, hc', hfn⟩
    · simp only [Heap.arity?, classArity, hc, hc']
    · simp only [Heap.arity?, classArity, hc, hc', hfn.params]
  | _ => rfl

/-! ### Printing -/

/-- **A value prints the same in both heaps.** -/
theorem text (v : Value) : h'.text v = h.text v := by
  have hclass : ∀ c, text.className h' c = text.className h c := by
    intro c
    rcases eq_of_rel (hm.classes c) with ⟨hc, hc'⟩ | ⟨cls, cls', hc, hc', hcls⟩
    · simp only [text.className, hc, hc', Option.map_none]
    · simp only [text.className, hc, hc', Option.map_some, hcls.name]
  cases v with
  | function i =>
    rcases eq_of_rel (hm.functions i) with ⟨hi, hi'⟩ | ⟨fn, fn', hi, hi', hfn⟩
    · simp only [Heap.text, text.functionName, hi, hi', Option.map_none]
    · simp only [Heap.text, text.functionName, hi, hi', Option.map_some, hfn.name]
  | native i => simp only [Heap.text, text.nativeName, native?, hm.natives]
  | classRef c => simp only [Heap.text, hclass]
  | instanceRef i =>
    simp only [Heap.text, text.instanceClassName, instance?, hm.instances, hclass]
  | _ => rfl

theorem argument (v : Value) : h'.argument v = h.argument v := by
  simp only [Heap.argument, hm.text]

end Matches

end Heap

end TanLang
