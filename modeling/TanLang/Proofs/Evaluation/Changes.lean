import TanLang.Proofs.Evaluation.Receivers
import TanLang.Proofs.Heap.Changes
/-!
# Evaluation — how a run changes the heap

Whatever a task does itself comes to changes of the heap, and the names it
binds where they were not are few: a declaration binds its own name in the
active scope, a call its parameters in a new scope, a method that is bound
`this` in a new scope, and an assignment its name where it takes place. So
**every heap that a run comes to is the first one after changes**, and every
name bound meanwhile was introduced by a task that the run reaches.
-/

namespace TanLang

namespace Eval

/-- **The names that a task introduces** in a machine, and the scopes it binds
them in: names that are not bound there yet. -/
def Task.Introduces (rules : Rules) (m : Machine) : Task → ScopeId → Text → Prop
  | .execute s, scope, x => scope = m.active ∧ ∃ name, s.declared = some name ∧ name.lexeme = x
  | .runFunction f _, scope, x =>
    m.heap.scopes.size ≤ scope.index ∧ ∃ p ∈ f.decl.params, p.lexeme = x
  | .evaluate (.get _ _), scope, x => m.heap.scopes.size ≤ scope.index ∧ x = thisName
  | .invoke _ (.classRef _) _, scope, x => m.heap.scopes.size ≤ scope.index ∧ x = thisName
  | .write name address _, scope, x =>
    m.place rules name.lexeme address = .scope scope ∧ x = name.lexeme ∧
      (m.heap.boundIn scope x).isSome = false
  | _, _, _ => False

variable {α : Type} {rules : Rules} {n bound : Nat} {t t' : Task} {m m' : Machine}
variable {Defines : ScopeId → Text → Prop} {p : Program Address}

/-! ## Single actions -/

theorem changes_write {name : Token} {address : Address} {v : Value}
    (hname : ∀ s x, (Task.write name address v).Introduces rules m s x → Defines s x) :
    m.heap.Changes Defines (Action.write rules name address v m).machine.heap := by
  unfold Action.write
  split
  · rename_i s hplace
    refine .define .refl v ?_
    cases hbound : (m.heap.boundIn s name.lexeme).isSome with
    | true => exact .inl rfl
    | false => exact .inr (hname s _ ⟨hplace, rfl, hbound⟩)
  · exact .refl
  · exact .refl

theorem changes_readProperty {i : InstanceId} {name : Token}
    (hthis : Defines ⟨m.heap.scopes.size⟩ thisName) :
    m.heap.Changes Defines (readProperty i name m).machine.heap := by
  unfold readProperty
  split
  · exact .refl
  · rename_i property hproperty
    cases property with
    | field v => exact .refl
    | method f => exact (Heap.Changes.refl.bind f i hthis).newFunction _

theorem changes_instantiate {c : ClassId} (hthis : Defines ⟨m.heap.scopes.size⟩ thisName) :
    m.heap.Changes Defines (instantiate c m).machine.heap := by
  have hnew : m.heap.Changes Defines (m.heap.newInstance c).1 := .newInstance .refl c
  rw [instantiate_eq]
  split
  · exact hnew
  · exact hnew.bind _ _ hthis

theorem changes_declareClass {name : Token} {superclass : Option ClassId}
    {methods : List (Routine (Stmt Address))} (hname : Defines m.active name.lexeme) :
    m.heap.Changes Defines (declareClass name superclass methods m).machine.heap := by
  have hclass : m.heap.Changes Defines ((m.heap.define m.active name.lexeme .nil).newClass
      ⟨name.lexeme, superclass, methodTable m.active methods⟩).1 :=
    (Heap.Changes.refl.define .nil (.inr hname)).newClass _
  unfold declareClass
  simp only
  split
  · -- the name is assigned where it was just bound
    exact hclass.define _ (.inl (Heap.isSome_boundIn_of_holder ‹_›))
  · exact hclass

/-! ## Tasks -/

/-- **What a task does itself changes the heap**, and binds no names but those
that the task introduces. -/
theorem Acts.changes {x : Action α} (hacts : Acts rules n t m m' x)
    (hsize : m.heap.scopes.size ≤ m'.heap.scopes.size)
    (ht : ∀ s x, t.Introduces rules m s x → Defines s x) :
    m'.heap.Changes Defines (x m').machine.heap := by
  -- most actions leave the machine alone
  have hstill : ∀ {β : Type} {y : Action β}, (y m').machine = m' →
      m'.heap.Changes Defines (y m').machine.heap := by
    intro β y hsame
    rw [hsame]
    exact .refl
  have hactive : m'.active = m.active := hacts.active_eq
  cases hacts with
  | prefixed _ | combine _ _ => exact hstill (machine_liftFault _ _ _)
  | object _ | target _ => exact hstill (machine_expectInstance _ _ _ _)
  | checkCall => exact hstill (machine_checkCall _ _ _ _)
  | checkDepth _ => exact hstill (machine_checkDepth _ _ _)
  | fetch => exact hstill (machine_fetchFunction _ _)
  | native =>
    obtain ⟨r, hkept⟩ := machine_callNative _ _ _ _ _
    rw [hkept]
    exact .keep .refl r
  | read => exact hstill (machine_read _ _ _ _)
  | property hobject hinstance => exact changes_readProperty (ht _ _ ⟨hsize, rfl⟩)
  | field _ _ _ => exact .setField .refl _ _ _
  | instantiate => exact changes_instantiate (ht _ _ ⟨hsize, rfl⟩)
  | enter =>
    unfold enterCall
    split
    · exact .refl
    · exact Heap.Changes.refl.enter _ _ fun p hp => ht _ _ ⟨hsize, p, hp, rfl⟩
  | define _ => exact .define .refl _ (.inr (ht _ _ ⟨hactive, _, rfl, rfl⟩))
  | declareFunction =>
    exact (Heap.Changes.refl.newFunction _).define _ (.inr (ht _ _ ⟨rfl, _, rfl, rfl⟩))
  | declareClass _ => exact changes_declareClass (ht _ _ ⟨hactive, _, rfl, rfl⟩)
  | write => exact changes_write ht
  | notCallable | print _ | notClass _ | leave => exact .refl

/-- **Only names that are told are introduced** on the way from a task. -/
def Told (rules : Rules) (Defines : ScopeId → Text → Prop) (n : Nat) (t : Task) (m : Machine) :
    Prop :=
  ∀ t' m', Reaches rules n t m t' m' → ∀ s x, t'.Introduces rules m' s x → Defines s x

/-- **Every task changes the heap**, by way of every moment it comes to. -/
theorem told_upholds (rules : Rules) (Defines : ScopeId → Text → Prop) :
    Upholds rules (Told rules Defines) (Heap.Changes Defines) where
  refl _ := .refl
  trans := .trans
  opens m := .newScope .refl m.active
  calls htold hcall _ := fun t' m' hreach => htold t' m' (.call hcall hreach)
  acts htold hacts hchanges := hacts.changes hchanges.lasts.grown.scopes (htold _ _ .here)
  ends := by
    intro t m htold
    cases t with
    | write name address v => exact changes_write (htold _ _ .here)
    | read name address =>
      show m.heap.Changes Defines (Action.read rules name address m).machine.heap
      rw [machine_read]
      exact .refl
    | _ => exact .refl

/-- A name is introduced while a program runs. -/
def IntroducedDuring (rules : Rules) (bound : Nat) (p : Program Address) (m : Machine)
    (s : ScopeId) (x : Text) : Prop :=
  ∃ t m', During rules bound p m t m' ∧ t.Introduces rules m' s x

theorem told_all (hall : ∀ t m', During rules bound p m t m' →
      ∀ s x, t.Introduces rules m' s x → Defines s x) :
    FineAll rules (Told rules Defines) (Heap.Changes Defines) bound p m := by
  induction p generalizing m with
  | nil => trivial
  | cons s rest ih =>
    exact ⟨fun t m' hreach => hall t m' (.first hreach),
      fun c m' hdone _ => ih fun t m'' hduring => hall t m'' (.next hdone hduring)⟩

/-- **Every heap that a program comes to is the first one after changes**, and
the last one is every other one after changes. The names that are bound
meanwhile are those that it introduces. -/
theorem During.changes (hduring : During rules bound p m t m') :
    m.heap.Changes (IntroducedDuring rules bound p m) m'.heap ∧
      m'.heap.Changes (IntroducedDuring rules bound p m) (interpret rules bound p m).machine.heap :=
  ((told_upholds rules _).during hduring (told_all fun t m' h _ _ hx => ⟨t, m', h, hx⟩)).2

theorem interpret_changes (rules : Rules) (bound : Nat) (p : Program Address) (m : Machine) :
    m.heap.Changes (IntroducedDuring rules bound p m) (interpret rules bound p m).machine.heap :=
  (told_upholds rules _).interpret (told_all fun t m' h _ _ hx => ⟨t, m', h, hx⟩)

end Eval

end TanLang
