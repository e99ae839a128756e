import TanLang.Proofs.Evaluation.Agreement
import TanLang.Proofs.Heap.Changes
/-!
# Evaluation — assignments and the names of scopes

An assignment gives a new value to a name that its target binds, or it fails
in the globals. There is one exception. A variable is declared as soon as its
initial value is resolved, and is bound only when that value is there: **an
assignment to the variable in its own initial value** goes to the scope that
is still to bind it, and binds it there.
-/

namespace TanLang

open Scoping

namespace Eval

variable {strict : Prop} {L : Ledger} {Γ : Context} {rules : Rules} {m m' : Machine}
variable {name : Token} {address : Address} {v : Value}

/-! ## What an assignment does -/

/-- The scope that an assignment aims at: the one at its distance, or else the
globals. -/
def target (m : Machine) : Address → Option ScopeId
  | some d => m.heap.ancestor m.active d
  | none => some Machine.globals

/-- **An assignment overwrites**: its target binds the name and gives it the
new value, and every scope goes on binding the same names. Or it fails, for
the globals do not bind the name, and changes nothing. -/
inductive Overwrites (rules : Rules) (name : Token) (address : Address) (v : Value)
    (m : Machine) : Prop where
  | done {s : ScopeId} (htarget : target m address = some s)
      (hbound : (m.heap.boundIn s name.lexeme).isSome = true)
      (hwrite : Action.write rules name address v m =
        .done () { m with heap := m.heap.define s name.lexeme v })
      (hnames : ∀ t y, ((m.heap.define s name.lexeme v).boundIn t y).isSome = true ↔
        (m.heap.boundIn t y).isSome = true)
  | fails (haddress : address = none)
      (hunbound : (m.heap.boundIn Machine.globals name.lexeme).isSome = false)
      (hwrite : Action.write rules name address v m =
        .raised ⟨.undefinedVariable name.lexeme, name⟩ m)

/-- **An assignment declares**: it aims at the active scope, which does not bind
the name, and from then on does. -/
structure Declares (rules : Rules) (name : Token) (address : Address) (v : Value)
    (m : Machine) : Prop where
  innermost : address = some 0
  unbound : (m.heap.boundIn m.active name.lexeme).isSome = false
  write : Action.write rules name address v m =
    .done () { m with heap := m.heap.define m.active name.lexeme v }
  names : ∀ t y, ((m.heap.define m.active name.lexeme v).boundIn t y).isSome = true ↔
    (m.heap.boundIn t y).isSome = true ∨ t = m.active ∧ y = name.lexeme

/-- With a distance, an assignment is one so many scopes out. -/
theorem write_at {d : Nat} (hrules : rules.addressing = .distance) :
    Action.write rules name (some d) v m =
      (m.heap.assignAt m.active d name.lexeme v).elim (.crashed m) fun h =>
        .done () { m with heap := h } := by
  simp only [Action.write, Machine.place, hrules, Heap.assignAt]
  cases m.heap.ancestor m.active d <;> rfl

/-- Without a distance, an assignment is one in the globals. -/
theorem write_globals (hrules : rules.addressing = .distance) :
    Action.write rules name none v m =
      (m.heap.assign Machine.globals name.lexeme v).elim
        (.raised ⟨.undefinedVariable name.lexeme, name⟩ m) fun h =>
          .done () { m with heap := h } := by
  simp only [Action.write, Machine.place, hrules, Machine.place.held, Heap.assign]
  cases m.heap.holder Machine.globals name.lexeme <;> rfl

/-- An assignment by a distance gives its name a value where it leads. -/
theorem write_of_ancestor (hrules : rules.addressing = .distance) {d : Nat} {s : ScopeId}
    (hs : m.heap.ancestor m.active d = some s) :
    Action.write rules name (some d) v m =
      .done () { m with heap := m.heap.define s name.lexeme v } := by
  rw [write_at hrules, Heap.assignAt, hs]
  rfl

/-- An assignment by a distance to a scope that binds the name. -/
theorem overwrites_of_bound (hrules : rules.addressing = .distance) {d : Nat} {s : ScopeId}
    (hs : m.heap.ancestor m.active d = some s)
    (hbound : (m.heap.boundIn s name.lexeme).isSome = true) :
    Overwrites rules name (some d) v m :=
  .done hs hbound (write_of_ancestor hrules hs) fun _ _ =>
    Heap.isSome_boundIn_define_of_bound hbound

/-- **An assignment without a distance overwrites a global, or fails.** -/
theorem overwrites_globals (hrules : rules.addressing = .distance)
    (hsound : Sound strict L m.heap) : Overwrites rules name none v m := by
  have hwrite := @write_globals rules m name v hrules
  cases hheld : m.heap.holder Machine.globals name.lexeme with
  | some s =>
    obtain rfl := hsound.holder_globals hheld
    have hbound := Heap.isSome_boundIn_of_holder hheld
    rw [Heap.assign, hheld] at hwrite
    exact .done rfl hbound hwrite fun _ _ => Heap.isSome_boundIn_define_of_bound hbound
  | none =>
    rw [Heap.assign, hheld] at hwrite
    refine .fails rfl (Bool.eq_false_iff.2 fun hbound => ?_) hwrite
    rw [holder_of_boundIn hbound] at hheld
    cases hheld

/-- **An assignment that fits a context overwrites**, unless its name is in
the making there. -/
theorem overwrites_or_declares (hrules : rules.addressing = .distance)
    (hsound : Sound strict L m.heap) (hstands : Stands L m.heap Γ m.active)
    (hwrites : Writes strict Γ name.lexeme address) :
    Overwrites rules name address v m ∨
      Declares rules name address v m ∧ Γ.Makes name.lexeme := by
  cases address with
  | none => exact .inl (overwrites_globals hrules hsound)
  | some d =>
    obtain ⟨E, hE, hmark | ⟨rfl, hmark⟩⟩ := hwrites.marked d rfl
    · -- what can be read is bound
      have hreads : Reads strict Γ name.lexeme (some d) := by
        refine ⟨fun d' hd' => ?_, hwrites.home⟩
        cases hd'
        exact ⟨E, hE, hmark⟩
      obtain ⟨s, hs, hbound⟩ := hstands.bound_of_reads hreads rfl
      exact .inl (overwrites_of_bound hrules hs hbound)
    · -- what is in the making may be bound all the same
      obtain ⟨s, hs, hscope, -⟩ := hstands.scope_of_writes hwrites rfl
      obtain rfl : m.active = s := Option.some.inj hs
      cases hbound : (m.heap.boundIn m.active name.lexeme).isSome with
      | true => exact .inl (overwrites_of_bound hrules hs hbound)
      | false =>
        refine .inr ⟨⟨rfl, hbound, write_of_ancestor hrules hs, fun t y => ?_⟩, ?_⟩
        · simp only [Heap.isSome_boundIn_define, hscope, and_true]
        · exact ⟨E, by rwa [List.head?_eq_getElem?], hmark⟩

/-! ## Where names are in the making -/

/-- **A task is reached from the initial value of a variable**, and the scope
that is to bind the variable is active. -/
def InInitial (rules : Rules) (Comes : Task → Machine → Prop) (x : Text) (t : Task)
    (m : Machine) : Prop :=
  ∃ n declared initial m₁, Comes (.execute (.varDecl declared initial)) m₁ ∧
    declared.lexeme = x ∧ m₁.active = m.active ∧ Reaches rules n (.evaluateOption initial) m₁ t m

theorem InInitial.mono {Comes Comes' : Task → Machine → Prop} {x : Text} {t : Task}
    (h : InInitial rules Comes x t m) (himp : ∀ t m, Comes t m → Comes' t m) :
    InInitial rules Comes' x t m := by
  obtain ⟨n, declared, initial, m₁, hcomes, hrest⟩ := h
  exact ⟨n, declared, initial, m₁, himp _ _ hcomes, hrest⟩

/-- **Whatever a task that fits a context reaches, fits one.** A name that is
in the making there was in the making from the start, or is a variable whose
initial value is being evaluated. -/
theorem Reaches.fitsIn {n : Nat} {t t' : Task} (hrules : rules.addressing = .distance)
    (hreach : Reaches rules n t m t' m') (hsound : Sound strict L m.heap)
    (hfits : t.FitsIn strict L m Γ) :
    ∃ L' Γ', Sound strict L' m'.heap ∧ t'.FitsIn strict L' m' Γ' ∧
      ∀ x, Γ'.Makes x → (Γ.Makes x ∧ m'.active = m.active) ∨
        InInitial rules (Reaches rules n t m) x t' m' := by
  induction hreach generalizing L Γ with
  | here => exact ⟨L, Γ, hsound, hfits, fun x hx => .inl ⟨hx, rfl⟩⟩
  | @call n t m t₁ m₁ t' m' hcall hrest ih =>
    obtain ⟨L₁, Γ₁, hsound₁, hfits₁, hmakes₁⟩ := hcall.fitsIn hrules hsound hfits
    obtain ⟨L', Γ', hsound', hfits', hmakes'⟩ := ih hsound₁ hfits₁
    refine ⟨L', Γ', hsound', hfits', fun x hx => ?_⟩
    rcases hmakes' x hx with ⟨hx₁, hactive'⟩ | hinitial
    · obtain ⟨hactive₁, hx | ⟨declared, initial, rfl, hname⟩⟩ := hmakes₁ x hx₁
      · exact .inl ⟨hx, hactive'.trans hactive₁⟩
      · -- the task declares the variable, and what it calls is the initial value
        cases hcall
        exact .inr ⟨n, declared, initial, m, .here, hname, hactive'.symm, hrest⟩
    · exact .inr (hinitial.mono fun _ _ h => .call hcall h)

end Eval

end TanLang
