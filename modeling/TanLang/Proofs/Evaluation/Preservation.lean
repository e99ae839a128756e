import TanLang.Proofs.Evaluation.Natives
import TanLang.Proofs.Evaluation.Store
/-!
# Evaluation — running keeps the heap sound

Code that fits a context is run where the context stands, in a sound heap,
with names found by their distance. Whatever comes of it, the heap is sound
afterwards, the active scope is the one it was, and **nothing that was
needed was missing**: no action crashes. After a statement that ran to its
end, the context with the statement's own name in it stands there.
-/

namespace TanLang

open Scoping

namespace Eval

variable {α β : Type} {strict : Prop} {L : Ledger} {m : Machine}

/-! ## What an action keeps -/

/-- The heap of a later machine grew out of an earlier one and is sound, and
the same scope is active. -/
structure Kept (strict : Prop) (L : Ledger) (m : Machine) (L' : Ledger) (m' : Machine) : Prop where
  grows : Grows L m.heap L' m'.heap
  sound : Sound strict L' m'.heap
  active : m'.active = m.active

/-- **An action keeps the heap sound and does not crash**; what else holds
of its answer. -/
def Keeps (strict : Prop) (L : Ledger) (x : Action α) (m : Machine)
    (Then : Ledger → α → Machine → Prop) : Prop :=
  match x m with
  | .done a m' => ∃ L', Kept strict L m L' m' ∧ Then L' a m'
  | .raised _ m' => ∃ L', Kept strict L m L' m'
  | .crashed _ => False
  | .exhausted m' => ∃ L', Kept strict L m L' m'

/-- Nothing else is asked of the answer. -/
def Any : Ledger → α → Machine → Prop := fun _ _ _ => True

theorem Kept.refl (h : Sound strict L m.heap) : Kept strict L m L m := ⟨.refl _ _, h, rfl⟩

theorem Kept.trans {L₁ L₂ : Ledger} {m₁ m₂ : Machine} (h₁ : Kept strict L m L₁ m₁)
    (h₂ : Kept strict L₁ m₁ L₂ m₂) : Kept strict L m L₂ m₂ :=
  ⟨h₁.grows.trans h₂.grows, h₂.sound, h₂.active.trans h₁.active⟩

/-- A context goes on standing at the active scope. -/
theorem Kept.stands {L' : Ledger} {m' : Machine} {Γ : Context} (h : Kept strict L m L' m')
    (hstands : Stands L m.heap Γ m.active) : Stands L' m'.heap Γ m'.active := by
  rw [h.active]
  exact hstands.grow h.grows

namespace Keeps

variable {x : Action α} {f : α → Action β} {Then : Ledger → α → Machine → Prop}
variable {After : Ledger → β → Machine → Prop}

/-- **One action after another.** -/
theorem bind (hx : Keeps strict L x m Then)
    (hf : ∀ a L' m', Kept strict L m L' m' → Then L' a m' → Keeps strict L' (f a) m' After) :
    Keeps strict L (x >>= f) m After := by
  change match Action.andThen x f m with
    | .done b m' => ∃ L', Kept strict L m L' m' ∧ After L' b m'
    | .raised _ m' => ∃ L', Kept strict L m L' m'
    | .crashed _ => False
    | .exhausted m' => ∃ L', Kept strict L m L' m'
  unfold Keeps at hx
  unfold Action.andThen
  -- only an answer goes on; then what both have kept is put together
  cases hxm : x m with
  | done a m' =>
    simp only [hxm] at hx ⊢
    obtain ⟨L', hkept, hthen⟩ := hx
    have hnext := hf a L' m' hkept hthen
    unfold Keeps at hnext
    cases hfm : f a m' with
    | done b m'' =>
      simp only [hfm] at hnext ⊢
      obtain ⟨L'', hkept', hafter⟩ := hnext
      exact ⟨L'', hkept.trans hkept', hafter⟩
    | raised error m'' =>
      simp only [hfm] at hnext ⊢
      obtain ⟨L'', hkept'⟩ := hnext
      exact ⟨L'', hkept.trans hkept'⟩
    | crashed m'' => simp only [hfm] at hnext
    | exhausted m'' =>
      simp only [hfm] at hnext ⊢
      obtain ⟨L'', hkept'⟩ := hnext
      exact ⟨L'', hkept.trans hkept'⟩
  | raised error m' => simpa only [hxm] using hx
  | crashed m' => simp only [hxm] at hx
  | exhausted m' => simpa only [hxm] using hx

theorem mono {Then' : Ledger → α → Machine → Prop} (hx : Keeps strict L x m Then)
    (h : ∀ L' a m', Kept strict L m L' m' → Then L' a m' → Then' L' a m') :
    Keeps strict L x m Then' := by
  unfold Keeps at hx ⊢
  cases hxm : x m with
  | done a m' =>
    simp only [hxm] at hx ⊢
    obtain ⟨L', hkept, hthen⟩ := hx
    exact ⟨L', hkept, h L' a m' hkept hthen⟩
  | raised error m' => simpa only [hxm] using hx
  | crashed m' => simp only [hxm] at hx
  | exhausted m' => simpa only [hxm] using hx

/-- However an action ends, it kept the heap sound. -/
theorem kept (hx : Keeps strict L x m Then) : ∃ L', Kept strict L m L' (x m).machine := by
  unfold Keeps at hx
  cases hxm : x m with
  | done a m' =>
    simp only [hxm] at hx
    obtain ⟨L', hkept, -⟩ := hx
    exact ⟨L', hkept⟩
  | raised error m' =>
    simp only [hxm] at hx
    exact hx
  | crashed m' => simp only [hxm] at hx
  | exhausted m' =>
    simp only [hxm] at hx
    exact hx

theorem not_crashed (hx : Keeps strict L x m Then) (m' : Machine) : x m ≠ .crashed m' := by
  intro hcrashed
  unfold Keeps at hx
  simp only [hcrashed] at hx

/-- An action that only changes the heap, and answers. -/
theorem of_done {a : α} {L' : Ledger} {m' : Machine} (hx : x m = .done a m')
    (hkept : Kept strict L m L' m') (hthen : Then L' a m') : Keeps strict L x m Then := by
  unfold Keeps
  simp only [hx]
  exact ⟨L', hkept, hthen⟩

theorem of_raised {error : RuntimeError} (hx : x m = .raised error m)
    (hsound : Sound strict L m.heap) : Keeps strict L x m Then := by
  unfold Keeps
  simp only [hx]
  exact ⟨L, .refl hsound⟩

theorem pure {a : α} (hsound : Sound strict L m.heap) (hthen : Then L a m) :
    Keeps strict L (Pure.pure a) m Then :=
  of_done (x := Action.result a) rfl (.refl hsound) hthen

theorem stop (hsound : Sound strict L m.heap) : Keeps strict L (Action.stop : Action α) m Then :=
  ⟨L, .refl hsound⟩

/-- An action with the machine set up before it and put back after it. -/
theorem around {m₁ : Machine} {g : Machine → Machine} (hx : Keeps strict L x m₁ Then)
    (hheap : m₁.heap = m.heap) (hg : ∀ m', (g m').heap = m'.heap)
    (hactive : ∀ m', m'.active = m₁.active → (g m').active = m.active) :
    Keeps strict L (fun _ => (x m₁).mapMachine g) m Any := by
  have hback : ∀ {L' m'}, Kept strict L m₁ L' m' → Kept strict L m L' (g m') := by
    intro L' m' hkept
    refine ⟨?_, ?_, hactive m' hkept.active⟩
    · rw [hg, ← hheap]
      exact hkept.grows
    · rw [hg]
      exact hkept.sound
  unfold Keeps at hx ⊢
  cases hxm : x m₁ with
  | done a m' =>
    simp only [hxm] at hx
    obtain ⟨L', hkept, -⟩ := hx
    exact ⟨L', hback hkept, trivial⟩
  | raised error m' =>
    simp only [hxm] at hx
    obtain ⟨L', hkept⟩ := hx
    exact ⟨L', hback hkept⟩
  | crashed m' => simp only [hxm] at hx
  | exhausted m' =>
    simp only [hxm] at hx
    obtain ⟨L', hkept⟩ := hx
    exact ⟨L', hback hkept⟩

/-- An action in another scope. -/
theorem inScope {s : ScopeId} (hx : Keeps strict L x { m with active := s } Then) :
    Keeps strict L (Action.inScope s x) m Any :=
  hx.around rfl (fun _ => rfl) fun _ _ => rfl

/-- An action counted as an open call. -/
theorem counted (hx : Keeps strict L x { m with depth := m.depth + 1 } Then) :
    Keeps strict L (Action.counted x) m Any :=
  hx.around rfl (fun _ => rfl) fun _ h => h

/-- An action in a new scope, which a context is extended by. -/
theorem inNewScope {Γ : Context} (allowed : Text → Prop) (hsound : Sound strict L m.heap)
    (hstands : Stands L m.heap Γ m.active)
    (hx : ∀ L' m', Sound strict L' m'.heap →
      Stands L' m'.heap (⟨.empty, allowed⟩ :: Γ) m'.active → Keeps strict L' x m' Then) :
    Keeps strict L (Action.inNewScope x) m Any := by
  have hnew := leads_newScope hsound hstands allowed
  have hkept : Kept strict L m _ { m with heap := (m.heap.newScope (some m.active)).1 } :=
    ⟨hnew.grows, hnew.sound, rfl⟩
  have hinner := hx _ { m with
    heap := (m.heap.newScope (some m.active)).1, active := (m.heap.newScope (some m.active)).2 }
    hnew.sound hnew.stands
  have hstart : Keeps strict L (fun m => .done (m.heap.newScope (some m.active)).2
      { m with heap := (m.heap.newScope (some m.active)).1 } : Action ScopeId) m
      fun L' s m' => Keeps strict L' x { m' with active := s } Then :=
    of_done rfl hkept hinner
  exact hstart.bind (f := fun s => Action.inScope s x) fun s L' m' _ h => h.inScope

end Keeps

/-! ## Uses of names -/

section

variable {Γ : Context} {x : Text} {address : Address}

/-- Going out one scope less from the enclosing one. -/
theorem ancestor_succ {h : Heap} {s outer : ScopeId} {scope : Scope} {d : Nat}
    (hscope : h.scope? s = some scope) (houter : scope.outer = some outer) :
    h.ancestor s (d + 1) = h.ancestor outer d := by
  simp only [Heap.ancestor, Heap.outwards, hscope, Option.bind_some, houter]

/-- **Going out in the heap is going out in the context.** -/
theorem Stands.ancestor {h : Heap} {s : ScopeId} (hstands : Stands L h Γ s) {d : Nat}
    (hd : d ≤ Γ.length) : ∃ t, h.ancestor s d = some t ∧ Stands L h (Γ.drop d) t := by
  induction d generalizing Γ s with
  | zero => exact ⟨s, rfl, hstands⟩
  | succ d ih =>
    cases hstands with
    -- there is nothing outside the globals, but no distance leads there
    | globals => cases hd
    | inside hscope houter _ _ _ hrest =>
      rw [ancestor_succ hscope houter]
      exact ih hrest (Nat.le_of_succ_le_succ hd)

/-- **A read that fits finds its name bound.** -/
theorem Stands.bound_of_reads {h : Heap} {s : ScopeId} (hstands : Stands L h Γ s)
    (hreads : Reads strict Γ x address) {d : Nat} (hd : address = some d) :
    ∃ t, h.ancestor s d = some t ∧ (h.boundIn t x).isSome = true := by
  obtain ⟨E, hE, hmark⟩ := hreads.readable d hd
  obtain ⟨hlt, hget⟩ := List.getElem?_eq_some_iff.1 hE
  obtain ⟨t, ht, hstands'⟩ := hstands.ancestor (Nat.le_of_lt hlt)
  rw [List.drop_eq_getElem_cons hlt, hget] at hstands'
  cases hstands' with
  | inside hscope _ _ _ hbound _ =>
    exact ⟨t, ht, (Heap.boundIn_eq_some _).2 ⟨_, hscope, hbound x hmark⟩⟩

/-- **A write that fits finds a scope** where its name may be bound. -/
theorem Stands.scope_of_writes {h : Heap} {s : ScopeId} (hstands : Stands L h Γ s)
    (hwrites : Writes strict Γ x address) {d : Nat} (hd : address = some d) :
    ∃ t, h.ancestor s d = some t ∧ (h.scope? t).isSome = true ∧ L t x := by
  obtain ⟨E, hE, hallowed⟩ := hwrites.declarable d hd
  obtain ⟨hlt, hget⟩ := List.getElem?_eq_some_iff.1 hE
  obtain ⟨t, ht, hstands'⟩ := hstands.ancestor (Nat.le_of_lt hlt)
  rw [List.drop_eq_getElem_cons hlt, hget] at hstands'
  cases hstands' with
  | inside hscope _ _ hledger _ _ =>
    exact ⟨t, ht, by rw [hscope]; rfl, by rw [hledger]; exact hallowed⟩

/-- From the globals on, only the globals can hold a name. -/
theorem Sound.holder_globals {h : Heap} (hsound : Sound strict L h) {s : ScopeId}
    (hs : h.holder Machine.globals x = some s) : s = Machine.globals := by
  obtain ⟨scope, hscope, houter⟩ := hsound.globals
  unfold Heap.holder at hs
  cases hsize : h.scopes.size with
  | zero =>
    rw [hsize] at hs
    cases hs
  | succ n =>
    rw [hsize, Heap.holderWithin, hscope] at hs
    simp only [houter] at hs
    split at hs
    · exact (Option.some.inj hs).symm
    · cases hs

variable {rules : Rules} {name : Token}

/-- By its distance, a use takes place so many scopes out. -/
theorem place_some {d : Nat} {t : ScopeId} (hrules : rules.addressing = .distance)
    (ht : m.heap.ancestor m.active d = some t) : m.place rules x (some d) = .scope t := by
  simp only [Machine.place, hrules, ht]

/-- Without a distance, a use takes place in the globals, if anywhere. -/
theorem place_none (hrules : rules.addressing = .distance) (hsound : Sound strict L m.heap) :
    m.place rules x none = .scope Machine.globals ∨ m.place rules x none = .unbound := by
  simp only [Machine.place, hrules, Machine.place.held]
  cases hheld : m.heap.holder Machine.globals x with
  | none => exact .inr rfl
  | some s =>
    obtain rfl := hsound.holder_globals hheld
    exact .inl rfl

theorem read_keeps (hrules : rules.addressing = .distance) (hsound : Sound strict L m.heap)
    (hstands : Stands L m.heap Γ m.active) (hreads : Reads strict Γ name.lexeme address) :
    Keeps strict L (Action.read rules name address) m Any := by
  have hplace : (∃ t, m.place rules name.lexeme address = .scope t) ∨
      m.place rules name.lexeme address = .unbound := by
    cases address with
    | some d =>
      obtain ⟨t, ht, -⟩ := hstands.bound_of_reads hreads rfl
      exact .inl ⟨t, place_some hrules ht⟩
    | none => exact (place_none hrules hsound).imp_left fun h => ⟨_, h⟩
  rcases hplace with ⟨t, ht⟩ | hunbound
  · have hread : Action.read rules name address m =
        .done ((m.heap.boundIn t name.lexeme).getD .nil) m := by
      simp only [Action.read, ht]
    exact .of_done hread (.refl hsound) trivial
  · have hread : Action.read rules name address m =
        .raised ⟨.undefinedVariable name.lexeme, name⟩ m := by
      simp only [Action.read, hunbound]
    exact .of_raised hread hsound

theorem write_keeps {v : Value} (hrules : rules.addressing = .distance)
    (hsound : Sound strict L m.heap) (hstands : Stands L m.heap Γ m.active)
    (hwrites : Writes strict Γ name.lexeme address) :
    Keeps strict L (Action.write rules name address v) m Any := by
  have hplace : (∃ t, m.place rules name.lexeme address = .scope t ∧
      ∀ scope, m.heap.scope? t = some scope → scope.outer.isSome = true → L t name.lexeme) ∨
      m.place rules name.lexeme address = .unbound := by
    cases address with
    | some d =>
      obtain ⟨t, ht, -, hname⟩ := hstands.scope_of_writes hwrites rfl
      exact .inl ⟨t, place_some hrules ht, fun _ _ _ => hname⟩
    | none => exact (place_none hrules hsound).imp_left fun h => ⟨_, h, hsound.allows_globals⟩
  rcases hplace with ⟨t, ht, hname⟩ | hunbound
  · have hwrite : Action.write rules name address v m =
        .done () { m with heap := m.heap.define t name.lexeme v } := by
      simp only [Action.write, ht]
    exact .of_done hwrite ⟨.define _ _ _, hsound.define hname, rfl⟩ trivial
  · have hwrite : Action.write rules name address v m =
        .raised ⟨.undefinedVariable name.lexeme, name⟩ m := by
      simp only [Action.write, hunbound]
    exact .of_raised hwrite hsound

end

/-! ## Single actions -/

section

variable {Γ : Context}

theorem liftFault_keeps {token : Token} {result : Except Fault α}
    (hsound : Sound strict L m.heap) : Keeps strict L (Action.liftFault token result) m Any := by
  cases result with
  | ok a => exact .of_done rfl (.refl hsound) trivial
  | error fault => exact .of_raised rfl hsound

theorem expectInstance_keeps {token : Token} {fault : Fault} {v : Value}
    (hsound : Sound strict L m.heap) : Keeps strict L (expectInstance token fault v) m Any := by
  cases v with
  | instanceRef i => exact .of_done rfl (.refl hsound) trivial
  | _ => exact .of_raised rfl hsound

theorem readProperty_keeps {i : InstanceId} {name : Token} (hsound : Sound strict L m.heap) :
    Keeps strict L (readProperty i name) m Any := by
  cases hproperty : m.heap.property? i name.lexeme with
  | none =>
    have hread : readProperty i name m =
        .raised ⟨.undefinedProperty name.lexeme, name⟩ m := by
      simp only [readProperty, hproperty]
    exact .of_raised hread hsound
  | some p =>
    have hread : readProperty i name m =
        .done (m.heap.fetch i p).2 { m with heap := (m.heap.fetch i p).1 } := by
      simp only [readProperty, hproperty]
    cases p with
    | field v => exact .of_done hread ⟨.refl _ _, hsound, rfl⟩ trivial
    | method f =>
      -- a method that is read becomes a function of its own
      obtain ⟨c, hf⟩ := Heap.exists_method?_of_property? hproperty
      obtain ⟨L', hgrows, hsound', hfits⟩ := leads_bind hsound (hsound.method? hf) i
      have hkept : Kept strict L m L' { m with heap := (m.heap.fetch i (.method f)).1 } := by
        rw [Heap.fetch]
        exact ⟨hgrows.trans (.of_scopes_eq rfl), hsound'.newFunction hfits, rfl⟩
      exact .of_done hread hkept trivial

theorem writeField_keeps {i : InstanceId} {name : Token} {v : Value}
    (hsound : Sound strict L m.heap) : Keeps strict L (writeField i name v) m Any :=
  .of_done rfl ⟨.of_scopes_eq rfl, hsound.of_eq rfl rfl rfl, rfl⟩ trivial

theorem print_keeps {v : Value} (hsound : Sound strict L m.heap) :
    Keeps strict L (Action.print v) m Any :=
  .of_done rfl ⟨.refl _ _, hsound, rfl⟩ trivial

theorem define_keeps {x : Text} {v : Value} (hsound : Sound strict L m.heap)
    (hstands : Stands L m.heap Γ m.active) (hx : Γ.Allows x) :
    Keeps strict L (Action.define x v) m fun L' _ m' =>
      Stands L' m'.heap (Γ.mark x true) m'.active := by
  have hleads := leads_define hsound hstands hx v
  exact .of_done rfl ⟨hleads.grows, hleads.sound, rfl⟩ hleads.stands

/-- A function made here can see itself, for its name is bound last. -/
theorem declareFunction_keeps {decl : Routine (Stmt Address)} (hsound : Sound strict L m.heap)
    (hstands : Stands L m.heap Γ m.active) (hname : Γ.Allows decl.name.lexeme)
    (hfits : RoutineFits strict (Γ.mark decl.name.lexeme true) decl) :
    Keeps strict L (declareFunction decl) m fun L' _ m' =>
      Stands L' m'.heap (Γ.mark decl.name.lexeme true) m'.active := by
  have hleads := leads_define hsound hstands hname (.function ⟨m.heap.functions.size⟩)
  obtain ⟨h₁, hh₁⟩ : ∃ h₁, h₁ = m.heap.define m.active decl.name.lexeme
      (.function ⟨m.heap.functions.size⟩) := ⟨_, rfl⟩
  rw [← hh₁] at hleads
  have hfunction : FunctionFits strict L h₁ ⟨decl, m.active, false⟩ :=
    ⟨_, hleads.stands, hfits, nofun⟩
  have hgrows : Grows L h₁ L (h₁.newFunction ⟨decl, m.active, false⟩).1 := .of_scopes_eq rfl
  have hdone : declareFunction decl m =
      .done () { m with heap := (h₁.newFunction ⟨decl, m.active, false⟩).1 } := by
    rw [hh₁]
    rfl
  exact .of_done hdone ⟨hleads.grows.trans hgrows, hleads.sound.newFunction hfunction, rfl⟩
    (hleads.stands.grow hgrows)

/-- The methods in a table are those it was made of. -/
theorem of_find?_methodTable {scope : ScopeId} {methods : List (Routine (Stmt Address))}
    {name : Text} {fn : Function} (h : (methodTable scope methods).find? name = some fn) :
    fn.decl ∈ methods ∧ fn.closure = scope ∧ fn.isInit = (name == initName) := by
  have hfold : ∀ (methods : List (Routine (Stmt Address))) (table : Table Function),
      (methods.foldl (fun table decl =>
        table.insert decl.name.lexeme ⟨decl, scope, decl.name.lexeme == initName⟩)
        table).find? name = some fn →
      (fn.decl ∈ methods ∧ fn.closure = scope ∧ fn.isInit = (name == initName)) ∨
        table.find? name = some fn := by
    intro methods
    induction methods with
    | nil => exact fun table h => .inr h
    | cons decl rest ih =>
      intro table h
      rcases ih _ h with ⟨hmem, hmade⟩ | h
      · exact .inl ⟨List.mem_cons_of_mem _ hmem, hmade⟩
      · by_cases hname : name = decl.name.lexeme
        · subst hname
          rw [Table.find?_insert_self] at h
          cases h
          exact .inl ⟨List.mem_cons_self, rfl, rfl⟩
        · rw [Table.find?_insert_of_ne _ _ hname] at h
          exact .inr h
  rcases hfold methods .empty h with h | h
  · exact h
  · cases h

/-- A scope that binds a name holds it. -/
theorem holder_of_boundIn {h : Heap} {s : ScopeId} {x : Text}
    (hx : (h.boundIn s x).isSome = true) : h.holder s x = some s := by
  obtain ⟨scope, hscope, hfind⟩ := h.boundIn_eq_some.1 hx
  have hsize : s.index < h.scopes.size := (Array.getElem?_eq_some_iff.1 hscope).1
  obtain ⟨n, hn⟩ : ∃ n, h.scopes.size = n + 1 := ⟨h.scopes.size - 1, by omega⟩
  rw [Heap.holder, hn, Heap.holderWithin, hscope]
  simp only [Table.contains, hfind, if_true]

/-- **A class is declared wherever the active scope is there**: its name is
assigned along the chain, which stops at the binding just made. -/
theorem declareClass_eq {name : Token} {superclass : Option ClassId}
    {methods : List (Routine (Stmt Address))} (hactive : (m.heap.scope? m.active).isSome = true) :
    declareClass name superclass methods m = .done () { m with
      heap := ((m.heap.define m.active name.lexeme .nil).newClass
        ⟨name.lexeme, superclass, methodTable m.active methods⟩).1.define m.active name.lexeme
          (.classRef ⟨m.heap.classes.size⟩) } := by
  have hholder : ((m.heap.define m.active name.lexeme .nil).newClass
      ⟨name.lexeme, superclass, methodTable m.active methods⟩).1.holder m.active name.lexeme =
        some m.active := by
    refine holder_of_boundIn ((Heap.boundIn_eq_some _).2 ?_)
    obtain ⟨scope, hscope⟩ := Option.isSome_iff_exists.1 hactive
    have hdefined : (m.heap.define m.active name.lexeme .nil).scope? m.active =
        some { scope with values := scope.values.insert name.lexeme .nil } := by
      rw [Heap.scope?_define, if_pos rfl, hscope]
      rfl
    exact ⟨_, hdefined, Table.isSome_find?_insert.2 (.inl rfl)⟩
  simp only [declareClass, hholder]
  rfl

/-- The name of a class is bound before its methods are made, and again to
the class. -/
theorem declareClass_keeps {name : Token} {superclass : Option ClassId}
    {methods : List (Routine (Stmt Address))} (hsound : Sound strict L m.heap)
    (hstands : Stands L m.heap Γ m.active) (hname : Γ.Allows name.lexeme)
    (hfits : MethodsFit strict (thisEntry :: Γ.mark name.lexeme true) methods) :
    Keeps strict L (declareClass name superclass methods) m fun L' _ m' =>
      Stands L' m'.heap (Γ.mark name.lexeme true) m'.active := by
  have hfirst := leads_define hsound hstands hname .nil
  have hgrows : Grows L (m.heap.define m.active name.lexeme .nil) L
      ((m.heap.define m.active name.lexeme .nil).newClass
        ⟨name.lexeme, superclass, methodTable m.active methods⟩).1 := .of_scopes_eq rfl
  have hclass : Sound strict L ((m.heap.define m.active name.lexeme .nil).newClass
      ⟨name.lexeme, superclass, methodTable m.active methods⟩).1 := by
    refine hfirst.sound.newClass fun x fn hfn => ?_
    obtain ⟨hmem, hclosure, -⟩ := of_find?_methodTable hfn
    exact ⟨_, hclosure ▸ hfirst.stands, routineFits_of_mem strict hfits hmem⟩
  have hallows : (Γ.mark name.lexeme true).Allows name.lexeme := by
    cases Γ with
    | nil => nofun
    | cons E outer =>
      intro E' hE'
      cases hE'
      exact hname E rfl
  have hstands₁ := hfirst.stands.grow hgrows
  have hlast := leads_define hclass hstands₁ hallows (.classRef ⟨m.heap.classes.size⟩)
  exact .of_done (declareClass_eq (hstands.isSome_scope hsound))
    ⟨(hfirst.grows.trans hgrows).trans hlast.grows, hlast.sound, rfl⟩ (hstands₁.grow hlast.grows)

theorem readSuperclass_keeps {rules : Rules} {superclass : Option (Token × Address)}
    (hrules : rules.addressing = .distance) (hsound : Sound strict L m.heap)
    (hstands : Stands L m.heap Γ m.active) (hfits : SuperclassFits strict Γ superclass) :
    Keeps strict L (readSuperclass rules superclass) m Any := by
  cases superclass with
  | none => exact .of_done rfl (.refl hsound) trivial
  | some named =>
    obtain ⟨name, address⟩ := named
    refine (read_keeps hrules hsound hstands hfits).bind fun v L' m' hkept _ => ?_
    cases v with
    | classRef c => exact .of_done rfl (.refl hkept.sound) trivial
    | _ => exact .of_raised rfl hkept.sound

/-- After the check, a value takes as many arguments as it is given. -/
theorem checkCall_keeps {paren : Token} {callee : Value} {given : Nat}
    (hsound : Sound strict L m.heap) :
    Keeps strict L (checkCall paren callee given) m fun _ _ m' =>
      m'.heap.arity? callee = some given := by
  cases harity : m.heap.arity? callee with
  | none =>
    have hcheck : checkCall paren callee given m = .raised ⟨.notCallable, paren⟩ m := by
      simp only [checkCall, harity]
    exact .of_raised hcheck hsound
  | some expected =>
    by_cases hgiven : given = expected
    · have hcheck : checkCall paren callee given m = .done () m := by
        simp only [checkCall, harity, hgiven, if_true]
      exact .of_done hcheck (.refl hsound) (by rw [harity, hgiven])
    · have hcheck : checkCall paren callee given m =
          .raised ⟨.wrongArity expected given, paren⟩ m := by
        simp only [checkCall, harity, hgiven, if_false]
      exact .of_raised hcheck hsound

theorem checkDepth_keeps {rules : Rules} {paren : Token} (hsound : Sound strict L m.heap) :
    Keeps strict L (checkDepth rules paren) m fun _ _ m' => m'.heap = m.heap := by
  by_cases hdepth : rules.maxDepth ≤ m.depth
  · have hcheck : checkDepth rules paren m = .raised ⟨.stackOverflow, paren⟩ m := by
      simp only [checkDepth, hdepth, if_true]
    exact .of_raised hcheck hsound
  · have hcheck : checkDepth rules paren m = .done () m := by
      simp only [checkDepth, hdepth, if_false]
    exact .of_done hcheck (.refl hsound) rfl

theorem callNative_keeps {rules : Rules} {paren : Token} {f : NativeId} {args : List Value}
    {given : Nat} (hsound : Sound strict L m.heap)
    (harity : m.heap.arity? (.native f) = some given) :
    Keeps strict L (callNative rules paren f args) m Any := by
  obtain ⟨native, hnative, -⟩ := Option.map_eq_some_iff.1 harity
  have hkept : ∀ r, Kept strict L m L (m.keep r) := fun _ =>
    ⟨.of_scopes_eq rfl, hsound.of_eq rfl rfl rfl, rfl⟩
  unfold Keeps
  refine callNative_cases (fun hnone => ?_) (fun _ _ _ _ => ?_) fun _ _ _ _ => ?_
  · cases hnone.symm.trans hnative
  · exact ⟨L, hkept _, trivial⟩
  · exact ⟨L, hkept _⟩

/-- What an instance is set up by fits, and takes the arguments of its
class. -/
theorem instantiate_keeps {c : ClassId} {given : Nat} (hsound : Sound strict L m.heap)
    (harity : m.heap.arity? (.classRef c) = some given) :
    Keeps strict L (instantiate c) m fun L' made m' => ∀ init, made.2 = some init →
      FunctionFits strict L' m'.heap init ∧ init.decl.params.length = given := by
  have hsound₁ : Sound strict L (m.heap.newInstance c).1 := hsound.of_eq rfl rfl rfl
  have hgrows₁ : Grows L m.heap L (m.heap.newInstance c).1 := .of_scopes_eq rfl
  cases hmethod : (m.heap.newInstance c).1.method? c initName with
  | none =>
    have hdone : instantiate c m = .done ((m.heap.newInstance c).2, none)
        { m with heap := (m.heap.newInstance c).1 } := by
      simp only [instantiate, hmethod]
    refine .of_done hdone ⟨hgrows₁, hsound₁, rfl⟩ fun init hinit => ?_
    cases hinit
  | some method =>
    obtain ⟨L', hgrows, hsound', hfits⟩ :=
      leads_bind hsound₁ (hsound₁.method? hmethod) (m.heap.newInstance c).2
    have hdone : instantiate c m = .done ((m.heap.newInstance c).2,
        some ((m.heap.newInstance c).1.bind method (m.heap.newInstance c).2).2)
        { m with heap := ((m.heap.newInstance c).1.bind method (m.heap.newInstance c).2).1 } := by
      simp only [instantiate, hmethod]
    have hdecl : ((m.heap.newInstance c).1.bind method (m.heap.newInstance c).2).2.decl =
        method.decl := rfl
    refine .of_done hdone ⟨hgrows₁.trans hgrows, hsound', rfl⟩ fun init hinit => ?_
    obtain rfl := Option.some.inj hinit
    refine ⟨hfits, ?_⟩
    rw [hdecl]
    -- one more instance does not change what a class has
    have hclasses : m.heap.classes = (m.heap.newInstance c).1.classes := rfl
    have hmethod' : m.heap.method? c initName = some method :=
      (Heap.method?_congr hclasses).trans hmethod
    simp only [Heap.arity?, Heap.classArity, hmethod', Option.some.injEq] at harity
    exact harity

theorem fetchFunction_keeps {f : FunctionId} {given : Nat} (hsound : Sound strict L m.heap)
    (harity : m.heap.arity? (.function f) = some given) :
    Keeps strict L (fetchFunction f) m fun L' fn m' =>
      FunctionFits strict L' m'.heap fn ∧ fn.decl.params.length = given := by
  obtain ⟨fn, hfn, hgiven⟩ := Option.map_eq_some_iff.1 harity
  have hdone : fetchFunction f m = .done fn m := by
    simp only [fetchFunction, hfn]
  exact .of_done hdone (.refl hsound) ⟨hsound.functions f fn hfn, hgiven⟩

/-- **A call is entered with enough arguments.** -/
theorem enterCall_eq {f : Function} {args : List Value}
    (hargs : f.decl.params.length ≤ args.length) :
    enterCall f args m =
      .done (m.heap.enter f args).2 { m with heap := (m.heap.enter f args).1 } := by
  simp only [enterCall, if_neg (Nat.not_lt.2 hargs)]

/-- The scope of a call is one that the body can run in. -/
theorem enterCall_keeps {f : Function} {args : List Value} (hsound : Sound strict L m.heap)
    (hf : FunctionFits strict L m.heap f) (hargs : f.decl.params.length ≤ args.length) :
    Keeps strict L (enterCall f args) m fun L' s m' =>
      ∃ Γ', Stands L' m'.heap Γ' s ∧ BodyFits strict Γ' f.decl.body ∧ ∀ x, ¬ Γ'.Makes x := by
  obtain ⟨L', Γ', hleads, hbody⟩ := leads_enter hsound hf hargs
  exact .of_done (enterCall_eq hargs) ⟨hleads.grows, hleads.sound, rfl⟩
    ⟨Γ', hleads.stands, hbody⟩

end

/-! ## Code -/

/-- After a statement that ran to its end, its name can be read. -/
def StandsAfter {σ : Type} (Γ : Context) (s : Stmt σ) : Ledger → Completion → Machine → Prop :=
  fun L c m => c = .normal → Stands L m.heap (Γ.after s) m.active

/-- **What running code within a bound keeps.** -/
structure Preserves (strict : Prop) (rules : Rules) (n : Nat) : Prop where
  evaluate : ∀ {L m Γ e}, Sound strict L m.heap → Stands L m.heap Γ m.active →
    ExprFits strict Γ e → Keeps strict L (evaluate rules n e) m Any
  evaluateAll : ∀ {L m Γ es}, Sound strict L m.heap → Stands L m.heap Γ m.active →
    ExprsFit strict Γ es → Keeps strict L (evaluateAll rules n es) m Any
  apply : ∀ {L m paren callee args}, Sound strict L m.heap →
    Keeps strict L (apply rules n paren callee args) m Any
  invoke : ∀ {L m paren callee args}, Sound strict L m.heap →
    m.heap.arity? callee = some args.length →
    Keeps strict L (invoke rules n paren callee args) m Any
  runFunction : ∀ {L m f args}, Sound strict L m.heap → FunctionFits strict L m.heap f →
    f.decl.params.length ≤ args.length → Keeps strict L (runFunction rules n f args) m Any
  execute : ∀ {L m Γ s}, Sound strict L m.heap → Stands L m.heap Γ m.active →
    StmtFits strict Γ s → Keeps strict L (execute rules n s) m (StandsAfter Γ s)
  evaluateOption : ∀ {L m Γ e}, Sound strict L m.heap → Stands L m.heap Γ m.active →
    ExprOptionFits strict Γ e → Keeps strict L (evaluateOption rules n e) m Any
  executeOption : ∀ {L m Γ s}, Sound strict L m.heap → Stands L m.heap Γ m.active →
    StmtOptionFits strict Γ s → Keeps strict L (executeOption rules n s) m Any
  executeAll : ∀ {L m Γ ss}, Sound strict L m.heap → Stands L m.heap Γ m.active →
    BodyFits strict Γ ss → Keeps strict L (executeAll rules n ss) m Any
  repeatWhile : ∀ {L m Γ cond body}, Sound strict L m.heap → Stands L m.heap Γ m.active →
    ExprFits strict Γ cond → StmtOptionFits strict Γ body →
    Keeps strict L (repeatWhile rules n cond body) m Any

/-- Statements in a scope that is not the active one. -/
theorem Preserves.executeAll_inScope {rules : Rules} {n : Nat} {Γ : Context} {s : ScopeId}
    {ss : List (Stmt Address)} (h : Preserves strict rules n) (hsound : Sound strict L m.heap)
    (hstands : Stands L m.heap Γ s) (hfits : BodyFits strict Γ ss) :
    Keeps strict L (Action.inScope s (Eval.executeAll rules n ss)) m Any := by
  have hrun : Keeps strict L (Eval.executeAll rules n ss) { m with active := s } Any :=
    h.executeAll hsound hstands hfits
  exact hrun.inScope

section

variable {rules : Rules} {n : Nat} {Γ : Context}
variable (hrules : rules.addressing = .distance) (ih : Preserves strict rules n)

include hrules ih

theorem evaluate_keeps {e : Expr Address} (hsound : Sound strict L m.heap)
    (hstands : Stands L m.heap Γ m.active) (hfits : ExprFits strict Γ e) :
    Keeps strict L (evaluate rules (n + 1) e) m Any := by
  cases e <;> rw [evaluate]
  case literal token value => exact .pure hsound trivial
  case grouping paren inner => exact ih.evaluate hsound hstands hfits
  case unary op operand =>
    have hoperand : ExprFits strict Γ operand := hfits
    refine (ih.evaluate hsound hstands hoperand).bind fun v L' m' hkept _ => ?_
    exact liftFault_keeps hkept.sound
  case binary left op right =>
    obtain ⟨hleft, hright⟩ := hfits
    refine (ih.evaluate hsound hstands hleft).bind fun l L₁ m₁ hkept₁ _ => ?_
    refine (ih.evaluate hkept₁.sound (hkept₁.stands hstands) hright).bind
      fun r L₂ m₂ hkept₂ _ => ?_
    exact liftFault_keeps hkept₂.sound
  case ternary cond mark yes no =>
    obtain ⟨hcond, hyes, hno⟩ := hfits
    refine (ih.evaluate hsound hstands hcond).bind fun c L' m' hkept _ => ?_
    split
    · exact ih.evaluate hkept.sound (hkept.stands hstands) hyes
    · exact ih.evaluate hkept.sound (hkept.stands hstands) hno
  case logical left op right =>
    obtain ⟨hleft, hright⟩ := hfits
    refine (ih.evaluate hsound hstands hleft).bind fun l L' m' hkept _ => ?_
    split
    · exact .pure hkept.sound trivial
    · exact ih.evaluate hkept.sound (hkept.stands hstands) hright
  case var name address => exact read_keeps hrules hsound hstands hfits
  case receiver keyword address => exact read_keeps hrules hsound hstands hfits
  case assign name address value =>
    obtain ⟨hwrites, hvalue⟩ := hfits
    refine (ih.evaluate hsound hstands hvalue).bind fun v L₁ m₁ hkept₁ _ => ?_
    refine (write_keeps hrules hkept₁.sound (hkept₁.stands hstands) hwrites).bind
      fun _ L₂ m₂ hkept₂ _ => ?_
    exact .pure hkept₂.sound trivial
  case call callee paren args =>
    obtain ⟨hcallee, hargs⟩ := hfits
    refine (ih.evaluate hsound hstands hcallee).bind fun f L₁ m₁ hkept₁ _ => ?_
    refine (ih.evaluateAll hkept₁.sound (hkept₁.stands hstands) hargs).bind
      fun vs L₂ m₂ hkept₂ _ => ?_
    exact ih.apply hkept₂.sound
  case get object name =>
    have hobject : ExprFits strict Γ object := hfits
    refine (ih.evaluate hsound hstands hobject).bind fun o L₁ m₁ hkept₁ _ => ?_
    refine (expectInstance_keeps hkept₁.sound).bind fun i L₂ m₂ hkept₂ _ => ?_
    exact readProperty_keeps hkept₂.sound
  case set object name value =>
    obtain ⟨hobject, hvalue⟩ := hfits
    refine (ih.evaluate hsound hstands hobject).bind fun o L₁ m₁ hkept₁ _ => ?_
    refine (expectInstance_keeps hkept₁.sound).bind fun i L₂ m₂ hkept₂ _ => ?_
    have hstands₂ := hkept₂.stands (hkept₁.stands hstands)
    refine (ih.evaluate hkept₂.sound hstands₂ hvalue).bind fun v L₃ m₃ hkept₃ _ => ?_
    refine (writeField_keeps hkept₃.sound).bind fun _ L₄ m₄ hkept₄ _ => ?_
    exact .pure hkept₄.sound trivial

omit hrules in
theorem evaluateAll_keeps {es : List (Expr Address)} (hsound : Sound strict L m.heap)
    (hstands : Stands L m.heap Γ m.active) (hfits : ExprsFit strict Γ es) :
    Keeps strict L (evaluateAll rules (n + 1) es) m Any := by
  cases es <;> rw [evaluateAll]
  case nil => exact .pure hsound trivial
  case cons e rest =>
    obtain ⟨he, hrest⟩ := hfits
    refine (ih.evaluate hsound hstands he).bind fun v L₁ m₁ hkept₁ _ => ?_
    refine (ih.evaluateAll hkept₁.sound (hkept₁.stands hstands) hrest).bind
      fun vs L₂ m₂ hkept₂ _ => ?_
    exact .pure hkept₂.sound trivial

omit hrules in
theorem apply_keeps {paren : Token} {callee : Value} {args : List Value}
    (hsound : Sound strict L m.heap) :
    Keeps strict L (apply rules (n + 1) paren callee args) m Any := by
  rw [apply]
  refine (checkCall_keeps hsound).bind fun _ L₁ m₁ hkept₁ harity => ?_
  refine (checkDepth_keeps hkept₁.sound).bind fun _ L₂ m₂ hkept₂ hheap => ?_
  have harity₂ : m₂.heap.arity? callee = some args.length := by rw [hheap, harity]
  have hinvoke : Keeps strict L₂ (invoke rules n paren callee args)
      { m₂ with depth := m₂.depth + 1 } Any := ih.invoke hkept₂.sound harity₂
  exact hinvoke.counted

omit hrules in
theorem invoke_keeps {paren : Token} {callee : Value} {args : List Value}
    (hsound : Sound strict L m.heap) (harity : m.heap.arity? callee = some args.length) :
    Keeps strict L (invoke rules (n + 1) paren callee args) m Any := by
  cases callee <;> simp only [invoke]
  case function f =>
    refine (fetchFunction_keeps hsound harity).bind fun fn L' m' hkept hfn => ?_
    exact ih.runFunction hkept.sound hfn.1 (Nat.le_of_eq hfn.2)
  case native f => exact callNative_keeps hsound harity
  case classRef c =>
    refine (instantiate_keeps hsound harity).bind fun made L' m' hkept hinit => ?_
    obtain ⟨i, init⟩ := made
    cases init with
    | none => exact .pure hkept.sound trivial
    | some init =>
      obtain ⟨hfits, hparams⟩ := hinit init rfl
      refine (ih.runFunction hkept.sound hfits (Nat.le_of_eq hparams)).bind
        fun _ L'' m'' hkept' _ => ?_
      exact .pure hkept'.sound trivial
  all_goals exact .of_raised rfl hsound

omit hrules in
theorem runFunction_keeps {f : Function} {args : List Value} (hsound : Sound strict L m.heap)
    (hf : FunctionFits strict L m.heap f) (hargs : f.decl.params.length ≤ args.length) :
    Keeps strict L (runFunction rules (n + 1) f args) m Any := by
  rw [runFunction]
  refine (enterCall_keeps hsound hf hargs).bind fun s L₁ m₁ hkept₁ hbody => ?_
  obtain ⟨Γ', hstands, hfits, -⟩ := hbody
  refine (ih.executeAll_inScope hkept₁.sound hstands hfits).bind fun c L₂ m₂ hkept₂ _ => ?_
  exact .of_done rfl (.refl hkept₂.sound) trivial

omit hrules ih in
/-- What declares nothing leaves its context as it is. -/
theorem Keeps.standsAfter {x : Action Completion} {s : Stmt Address} (hdeclared : s.declared = none)
    (hstands : Stands L m.heap Γ m.active) (hx : Keeps strict L x m Any) :
    Keeps strict L x m (StandsAfter Γ s) := by
  refine hx.mono fun L' c m' hkept _ _ => ?_
  rw [Context.after_of_none hdeclared]
  exact hkept.stands hstands

theorem execute_keeps {s : Stmt Address} (hsound : Sound strict L m.heap)
    (hstands : Stands L m.heap Γ m.active) (hfits : StmtFits strict Γ s) :
    Keeps strict L (execute rules (n + 1) s) m (StandsAfter Γ s) := by
  cases s
  -- a `for` loop does not fit: it has been written out
  case forLoop => exact hfits.elim
  all_goals rw [execute]
  case expr e =>
    have he : ExprFits strict Γ e := hfits
    refine .standsAfter rfl hstands ?_
    refine (ih.evaluate hsound hstands he).bind fun _ L' m' hkept _ => ?_
    exact .pure hkept.sound trivial
  case print keyword value =>
    have hvalue : ExprFits strict Γ value := hfits
    refine .standsAfter rfl hstands ?_
    refine (ih.evaluate hsound hstands hvalue).bind fun v L₁ m₁ hkept₁ _ => ?_
    refine (print_keeps hkept₁.sound).bind fun _ L₂ m₂ hkept₂ _ => ?_
    exact .pure hkept₂.sound trivial
  case varDecl name initial =>
    obtain ⟨hname, hinitial⟩ := hfits
    -- nothing is promised of the name while its first value is evaluated
    refine (ih.evaluateOption hsound (hstands.mark_false _) hinitial).bind
      fun v L₁ m₁ hkept₁ _ => ?_
    refine (define_keeps hkept₁.sound (hkept₁.stands hstands) hname).bind
      fun _ L₂ m₂ hkept₂ hstands₂ => ?_
    exact .pure hkept₂.sound fun _ => hstands₂
  case block brace body =>
    obtain ⟨allowed, hbody⟩ := hfits
    have hrun : ∀ L' m', Sound strict L' m'.heap →
        Stands L' m'.heap (⟨.empty, allowed⟩ :: Γ) m'.active →
        Keeps strict L' (executeAll rules n body) m' Any :=
      fun L' m' hsound' hstands' => ih.executeAll hsound' hstands' hbody
    exact .standsAfter rfl hstands (.inNewScope allowed hsound hstands hrun)
  case branch keyword cond yes no =>
    obtain ⟨hcond, ⟨-, hyes⟩, hno⟩ := hfits
    refine .standsAfter rfl hstands ?_
    refine (ih.evaluate hsound hstands hcond).bind fun c L' m' hkept _ => ?_
    split
    · exact (ih.execute hkept.sound (hkept.stands hstands) hyes).mono fun _ _ _ _ _ => trivial
    · exact ih.executeOption hkept.sound (hkept.stands hstands) hno
  case loop keyword cond body =>
    obtain ⟨hcond, hbody⟩ := hfits
    exact .standsAfter rfl hstands (ih.repeatWhile hsound hstands hcond hbody)
  case function decl =>
    obtain ⟨hname, hdecl⟩ := hfits
    refine (declareFunction_keeps hsound hstands hname hdecl).bind
      fun _ L' m' hkept hstands' => ?_
    exact .pure hkept.sound fun _ => hstands'
  case ret keyword value =>
    have hvalue : ExprOptionFits strict Γ value := hfits
    refine .standsAfter rfl hstands ?_
    refine (ih.evaluateOption hsound hstands hvalue).bind fun v L' m' hkept _ => ?_
    exact .pure hkept.sound trivial
  case classDecl name superclass methods =>
    obtain ⟨hname, hsuperclass, hmethods⟩ := hfits
    refine (readSuperclass_keeps hrules hsound hstands hsuperclass).bind
      fun c L₁ m₁ hkept₁ _ => ?_
    refine (declareClass_keeps hkept₁.sound (hkept₁.stands hstands) hname hmethods).bind
      fun _ L₂ m₂ hkept₂ hstands₂ => ?_
    exact .pure hkept₂.sound fun _ => hstands₂

omit hrules in
theorem evaluateOption_keeps {e : Option (Expr Address)} (hsound : Sound strict L m.heap)
    (hstands : Stands L m.heap Γ m.active) (hfits : ExprOptionFits strict Γ e) :
    Keeps strict L (evaluateOption rules (n + 1) e) m Any := by
  cases e <;> rw [evaluateOption]
  case none => exact .pure hsound trivial
  case some e => exact ih.evaluate hsound hstands hfits

omit hrules in
theorem executeOption_keeps {s : Option (Stmt Address)} (hsound : Sound strict L m.heap)
    (hstands : Stands L m.heap Γ m.active) (hfits : StmtOptionFits strict Γ s) :
    Keeps strict L (executeOption rules (n + 1) s) m Any := by
  cases s <;> rw [executeOption]
  case none => exact .pure hsound trivial
  case some s => exact (ih.execute hsound hstands hfits.2).mono fun _ _ _ _ _ => trivial

omit hrules in
theorem executeAll_keeps {ss : List (Stmt Address)} (hsound : Sound strict L m.heap)
    (hstands : Stands L m.heap Γ m.active) (hfits : BodyFits strict Γ ss) :
    Keeps strict L (executeAll rules (n + 1) ss) m Any := by
  cases ss <;> rw [executeAll]
  case nil => exact .pure hsound trivial
  case cons s rest =>
    obtain ⟨hs, hrest⟩ := hfits
    refine (ih.execute hsound hstands hs).bind fun c L' m' hkept hafter => ?_
    -- only after a statement that ran to its end is its name promised
    cases c with
    | returning v => exact .pure hkept.sound trivial
    | normal => exact ih.executeAll hkept.sound (hafter rfl) hrest

omit hrules in
theorem repeatWhile_keeps {cond : Expr Address} {body : Option (Stmt Address)}
    (hsound : Sound strict L m.heap) (hstands : Stands L m.heap Γ m.active)
    (hcond : ExprFits strict Γ cond) (hbody : StmtOptionFits strict Γ body) :
    Keeps strict L (repeatWhile rules (n + 1) cond body) m Any := by
  rw [repeatWhile]
  refine (ih.evaluate hsound hstands hcond).bind fun v L₁ m₁ hkept₁ _ => ?_
  split
  · have hstands₁ := hkept₁.stands hstands
    refine (ih.executeOption hkept₁.sound hstands₁ hbody).bind fun c L₂ m₂ hkept₂ _ => ?_
    cases c with
    | returning v => exact .pure hkept₂.sound trivial
    | normal => exact ih.repeatWhile hkept₂.sound (hkept₂.stands hstands₁) hcond hbody
  · exact .pure hkept₁.sound trivial

end

/-- **Running code that fits keeps the heap sound**, whatever the bound. -/
theorem preserves {rules : Rules} (hrules : rules.addressing = .distance) :
    ∀ n, Preserves strict rules n
  | 0 =>
    { evaluate := fun hsound _ _ => .stop hsound
      evaluateAll := fun hsound _ _ => .stop hsound
      apply := fun hsound => .stop hsound
      invoke := fun hsound _ => .stop hsound
      runFunction := fun hsound _ _ => .stop hsound
      execute := fun hsound _ _ => .stop hsound
      evaluateOption := fun hsound _ _ => .stop hsound
      executeOption := fun hsound _ _ => .stop hsound
      executeAll := fun hsound _ _ => .stop hsound
      repeatWhile := fun hsound _ _ _ => .stop hsound }
  | n + 1 =>
    have ih := preserves hrules n
    { evaluate := evaluate_keeps hrules ih
      evaluateAll := evaluateAll_keeps ih
      apply := apply_keeps ih
      invoke := invoke_keeps ih
      runFunction := runFunction_keeps ih
      execute := execute_keeps hrules ih
      evaluateOption := evaluateOption_keeps ih
      executeOption := executeOption_keeps ih
      executeAll := executeAll_keeps ih
      repeatWhile := repeatWhile_keeps ih }

end Eval

end TanLang
