import TanLang.Native.Database
import TanLang.Proofs.Heap.Grounding
/-!
# The heap — what natives answer with

A native sees nothing of the heap, and what drivers find in a database is not
in the heap either. So **the natives of a program answer with values that
refer to nothing**, whatever the drivers reply, and a heap in which such
natives are installed stays grounded.
-/

namespace TanLang

/-- What is in a database refers to nothing. -/
theorem Cell.bare_value (cell : Cell) : cell.value.Bare := by
  intro h
  cases cell <;> trivial

namespace Native

variable {α β : Type} {P : α → Prop}

/-! ## What a procedure comes to -/

/-- **Whatever a procedure comes to is of a kind**, with whatever registry it
starts. -/
def Yields (p : Procedure α) (P : α → Prop) : Prop := ∀ r a, (p.run.run r).1 = .ok a → P a

theorem yields_return {a : α} (h : P a) : Yields (pure a) P := by
  rintro r _ ⟨⟩
  exact h

theorem yields_throw {message : Text} : Yields (throw message) P := nofun

/-- One procedure after another comes to what the second one comes to. -/
theorem yields_bind {p : Procedure β} {f : β → Procedure α} (hf : ∀ b, Yields (f b) P) :
    Yields (p >>= f) P := by
  intro r a ha
  simp only [ExceptT.run_bind, StateT.run_bind] at ha
  rcases hp : p.run.run r with ⟨result, r'⟩
  rw [hp] at ha
  cases result with
  | ok b => exact hf b r' a ha
  | error message => cases ha

/-- **A native that follows a procedure is grounded** if the procedure yields
nothing but values that refer to nothing. -/
theorem grounded_ofProcedure {name : String} {arity : Nat} {p : List Argument → Procedure Value}
    (hp : ∀ args, Yields (p args) Value.Bare) : (ofProcedure name arity p).Grounded :=
  fun w args v hv => hp args w.registry v hv

/-! ## The natives of a program -/

variable (drivers : Drivers)

theorem grounded_dbOpen : (dbOpen drivers).Grounded := by
  refine grounded_ofProcedure fun args => ?_
  refine yields_bind fun driver => yields_bind fun name => yields_bind fun _ => ?_
  refine yields_bind fun registry => yields_bind fun reply => yields_bind fun _ => ?_
  refine yields_bind fun _ => yields_bind fun handle => yields_bind fun _ => ?_
  exact yields_return fun _ => trivial

theorem grounded_dbExec : (dbExec drivers).Grounded := by
  refine grounded_ofProcedure fun args => ?_
  refine yields_bind fun handle => yields_bind fun db => yields_bind fun sql => ?_
  refine yields_bind fun reply => yields_bind fun affected => ?_
  exact yields_return fun _ => trivial

/-- The one that answers with what is in a database. -/
theorem grounded_dbQuery : (dbQuery drivers).Grounded := by
  refine grounded_ofProcedure fun args => ?_
  refine yields_bind fun handle => yields_bind fun db => yields_bind fun sql => ?_
  refine yields_bind fun reply => yields_bind fun rows => ?_
  cases rows with
  | none => exact yields_return fun _ => trivial
  | broken problem => exact yields_throw
  | first row =>
    refine yields_bind fun cells => yields_return ?_
    cases cells with
    | nil => exact fun _ => trivial
    | cons cell _ => exact cell.bare_value

theorem grounded_dbClose : (dbClose drivers).Grounded := by
  refine grounded_ofProcedure fun args => ?_
  refine yields_bind fun handle => yields_bind fun db => yields_bind fun _ => ?_
  refine yields_bind fun reply => yields_bind fun _ => ?_
  exact yields_return fun _ => trivial

theorem grounded_clock : clock.Grounded := by
  rintro w args _ ⟨⟩
  exact fun _ => trivial

theorem grounded_str : str.Grounded := by
  rintro w args _ ⟨⟩
  exact fun _ => trivial

variable {drivers}

/-- What is true of each of the natives is true of those that a program has. -/
theorem forall_available {Q : Native → Prop} (hclock : Q clock) (hstr : Q str)
    (hopen : Q (dbOpen drivers)) (hexec : Q (dbExec drivers)) (hquery : Q (dbQuery drivers))
    (hclose : Q (dbClose drivers)) (withDatabase : Bool) :
    ∀ f ∈ available withDatabase drivers, Q f := by
  have hcore : ∀ f ∈ core, Q f :=
    List.forall_mem_cons.2 ⟨hclock, List.forall_mem_singleton.2 hstr⟩
  have hdatabase : ∀ f ∈ database drivers, Q f :=
    List.forall_mem_cons.2 ⟨hopen, List.forall_mem_cons.2 ⟨hexec, List.forall_mem_cons.2
      ⟨hquery, List.forall_mem_singleton.2 hclose⟩⟩⟩
  cases withDatabase with
  | false => exact hcore
  | true => exact List.forall_mem_append.2 ⟨hcore, hdatabase⟩

/-- **Whatever the drivers reply, the natives of a program are grounded.** -/
theorem grounded_available (withDatabase : Bool) (drivers : Drivers) :
    ∀ f ∈ available withDatabase drivers, f.Grounded :=
  forall_available grounded_clock grounded_str (grounded_dbOpen drivers) (grounded_dbExec drivers)
    (grounded_dbQuery drivers) (grounded_dbClose drivers) withDatabase

end Native

/-- Drivers that reach every database, and find the text of a query in it. -/
def Drivers.echoing : Drivers := fun _ r =>
  match r with
  | .open _ _ | .ping _ | .close _ => .ok ()
  | .limit _ => ()
  | .exec _ _ => .ok 0
  | .query _ sql => .ok (.first (.ok [.text sql]))

namespace Machine

/-- Grounded natives installed in a grounded heap. -/
theorem grounded_install {h : Heap} (hh : h.Grounded) {natives : List Native}
    (hnatives : ∀ f ∈ natives, f.Grounded) :
    Heap.Grounded.To h (install h natives) := by
  induction natives generalizing h with
  | nil => exact ⟨hh, .refl _⟩
  | cons native rest ih =>
    have hnew := hh.newNative (hnatives native List.mem_cons_self)
    have hknows : (h.newNative native).1.Knows (.native (h.newNative native).2) := by
      simp [Heap.Knows, Heap.newNative]
    have hdefine := hnew.grounded.define (s := globals) (x := native.name) hknows
    exact (hnew.trans hdefine).trans
      (ih hdefine.grounded fun other hother => hnatives other (List.mem_cons_of_mem _ hother))

end Machine

end TanLang
