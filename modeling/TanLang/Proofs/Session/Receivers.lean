import TanLang.Proofs.Evaluation.Methods
import TanLang.Proofs.Heap.Natives
import TanLang.Proofs.Session.Rejection
/-!
# Sessions — `this` stays what it is

A scope that binds `this` comes about only where a method is bound to an
instance. Over all the units that a session runs, also those that fail, **such
a scope binds `this` to its instance and nothing else, and no other scope ever
binds `this`**. So the instance that a method was fetched from is what `this`
means in its code, and what calls of `init` and of its class answer with.
-/

namespace TanLang

open Scoping

namespace Eval

/-! ## The heap before any program has run -/

/-- Installing natives binds no `this`. -/
theorem follows_install {P : ScopeId → InstanceId → Prop} {natives : List Native}
    (hnames : ∀ native ∈ natives, native.name ≠ thisName) {h : Heap} (hr : h.Respectful) :
    Heap.Follows P h (Machine.install h natives) := by
  induction natives generalizing h with
  | nil => exact .refl h
  | cons native rest ih =>
    have hmade : Heap.Follows P h (h.newNative native).1 :=
      .of_scopes_eq (.of_scopes rfl rfl (Heap.Steady.refl h).scopes) rfl rfl rfl
    have hdefined : Heap.Follows P (h.newNative native).1
        ((h.newNative native).1.define Machine.globals native.name
          (.native (h.newNative native).2)) :=
      .define (hnames native List.mem_cons_self) fun scope hscope =>
        (hmade.respectful hr).head .globals nofun hscope
    have hfirst := hmade.trans hdefined
    exact hfirst.trans (ih (fun n hn => hnames n (List.mem_cons_of_mem _ hn))
      (hfirst.respectful hr))

/-- **Before any program has run no scope binds `this`.** -/
theorem respectful_start {natives : List Native}
    (hnames : ∀ native ∈ natives, native.name ≠ thisName) :
    (Machine.start natives).heap.Respectful ∧
      ∀ s i, ¬ (Machine.start natives).heap.Receives s i := by
  have hempty : ∀ s scope, (Heap.newScope {} none).1.scope? s = some scope →
      scope = ⟨.empty, none⟩ := by
    intro s scope hscope
    rw [Heap.scope?_newScope] at hscope
    split at hscope <;> cases hscope
    rfl
  have hr : (Heap.newScope {} none).1.Respectful := by
    refine ⟨⟨⟨.empty, none⟩, rfl, rfl⟩, fun s scope hscope hthis => ?_, ?_, ?_⟩
    · rw [hempty s scope hscope] at hthis
      cases hthis
    · intro f fn hf
      cases hf
    · intro c cls name fn hc
      cases hc
  have hfollows := follows_install (P := fun _ _ => False) hnames hr
  refine ⟨hfollows.respectful hr, fun s i hreceives => ?_⟩
  rcases hfollows.made s i hreceives with ⟨outer, hscope⟩ | hnone
  · have hvalues := congrArg Scope.values (hempty s _ hscope)
    cases hvalues
  · exact hnone

end Eval

namespace Session

open Eval

/-! ## Methods that a session has bound -/

/-- **A method was bound to an instance in a session**, in a unit that was
executed: the scope that was made for it. -/
inductive Bound (natives : List Native) : Session → ScopeId → InstanceId → Prop
  | now {s : Session} {src : Text} {bound : Nat} {h : Heap} {name : Text} {f : Function}
      {i : InstanceId} (hs : Reachable natives s) (hclear : s.tally.hadError = false)
      (hsrc : Source.Compiles src)
      (hbinds : BindsDuring s.rules bound (Source.compiled src) s.fresh h name f i) :
      Bound natives (s.run src bound).1 (h.bind f i).2.closure i
  | run {s : Session} {scope : ScopeId} {i : InstanceId} (h : Bound natives s scope i)
      (src : Text) (bound : Nat) : Bound natives (s.run src bound).1 scope i
  | reset {s : Session} {scope : ScopeId} {i : InstanceId} (h : Bound natives s scope i) :
      Bound natives s.reset scope i
  | close {s : Session} {scope : ScopeId} {i : InstanceId} (h : Bound natives s scope i)
      (drivers : Drivers) : Bound natives (s.close drivers).1 scope i

variable {natives : List Native} {s : Session} {src : Text} {bound : Nat} {scope : ScopeId}
variable {i : InstanceId}

theorem Bound.reachable (h : Bound natives s scope i) : Reachable natives s := by
  induction h with
  | now hs _ _ _ => exact hs.run _ _
  | run _ src bound ih => exact ih.run src bound
  | reset _ ih => exact ih.reset
  | close _ drivers ih => exact ih.close drivers

/-- A unit is executed, or the machine stays as it is. -/
theorem executed_or_rejected (s : Session) (src : Text) (bound : Nat) :
    (s.tally.hadError = false ∧ Source.Compiles src ∧ (s.run src bound).1.machine =
      (interpret s.rules bound (Source.compiled src) s.fresh).machine) ∨
    (s.run src bound).1.machine = s.machine := by
  by_cases hclear : s.tally.hadError = false
  · by_cases hsrc : Source.Compiles src
    · exact .inl ⟨hclear, hsrc, (run_spec hclear hsrc bound).1⟩
    · obtain ⟨tally, hrun⟩ := (run_rejected (.inr hsrc) bound).1
      exact .inr (by rw [hrun])
  · have herror : s.tally.hadError = true ∨ ¬ Source.Compiles src :=
      .inl (Bool.not_eq_false _ ▸ hclear)
    obtain ⟨tally, hrun⟩ := (run_rejected herror bound).1
    exact .inr (by rw [hrun])

/-- **What holds of the machine between units**: each scope with `this` was
made for an instance. -/
structure Settled (natives : List Native) (s : Session) : Prop where
  heap : s.machine.heap.Respectful
  active : s.machine.active = Machine.globals
  bound : ∀ scope i, s.machine.heap.Receives scope i → s.Bound natives scope i

/-- A unit that compiles is in order in such a machine. -/
theorem Settled.fineAll (h : Settled natives s) (hsrc : Source.Compiles src)
    {P : ScopeId → InstanceId → Prop}
    (hP : ∀ h name f i, BindsDuring s.rules bound (Source.compiled src) s.fresh h name f i →
      P (h.bind f i).2.closure i) :
    FineAll s.rules (InOrder s.rules P) (Heap.Follows P) bound (Source.compiled src) s.fresh :=
  fineAll_inOrder h.heap h.active (resolve_respects hsrc.core hsrc.resolved) hP

/-- **Every unit leaves the machine so**, if no native goes by the name
`this`. -/
theorem Reachable.settled (hnames : ∀ f ∈ natives, f.name ≠ thisName)
    (h : Reachable natives s) : Settled natives s := by
  induction h with
  | start =>
    obtain ⟨hr, hnone⟩ := respectful_start hnames
    exact ⟨hr, rfl, fun scope i hreceives => absurd hreceives (hnone scope i)⟩
  | @run s hs src bound ih =>
    rcases executed_or_rejected s src bound with ⟨hclear, hsrc, hmachine⟩ | hsame
    · -- what has come to receive an instance was bound while the unit ran
      let Made := (s.run src bound).1.Bound natives
      have hfine : FineAll s.rules (InOrder s.rules Made) (Heap.Follows Made) bound
          (Source.compiled src) s.fresh :=
        ih.fineAll hsrc fun h name f i hbinds => .now hs hclear hsrc hbinds
      have hfollows := (inOrder_upholds rfl _).interpret hfine
      refine ⟨?_, ?_, ?_⟩
      · rw [hmachine]
        exact hfollows.respectful ih.heap
      · rw [hmachine, active_interpret]
        exact ih.active
      · intro scope i hreceives
        rw [hmachine] at hreceives
        exact (hfollows.made scope i hreceives).elim
          (fun h => .run (ih.bound scope i h) src bound) id
    · exact ⟨hsame ▸ ih.heap, hsame ▸ ih.active, fun scope i hreceives =>
        .run (ih.bound scope i (hsame ▸ hreceives)) src bound⟩
  | reset _ ih =>
    exact ⟨ih.heap, ih.active, fun scope i hreceives => .reset (ih.bound scope i hreceives)⟩
  | close _ drivers ih =>
    obtain ⟨r, hkept⟩ := close_machine _ drivers
    refine ⟨?_, ?_, fun scope i hreceives => ?_⟩
    · rw [hkept]
      exact (Heap.Follows.keep (P := fun _ _ => True) r).respectful ih.heap
    · rw [hkept]
      exact ih.active
    · rw [hkept] at hreceives
      exact .close (ih.bound scope i hreceives) drivers

/-- **Every scope that a method was bound in is there and as it was.** -/
theorem Bound.receives (hnames : ∀ f ∈ natives, f.name ≠ thisName)
    (h : Bound natives s scope i) : s.machine.heap.Receives scope i := by
  have hfine : ∀ {s : Session} {src : Text} {bound : Nat}, Reachable natives s →
      Source.Compiles src → FineAll s.rules (InOrder s.rules fun _ _ => True)
        (Heap.Follows fun _ _ => True) bound (Source.compiled src) s.fresh :=
    fun hs hsrc => (hs.settled hnames).fineAll hsrc fun _ _ _ _ _ => trivial
  induction h with
  | @now s src bound h name f i hs hclear hsrc hbinds =>
    have hmachine : (s.run src bound).1.machine = _ := (run_spec hclear hsrc bound).1
    rw [hmachine]
    exact (hbinds.leads rfl (hfine hs hsrc)).2.receives (h.receives_bind f i)
  | @run s scope i h src bound ih =>
    rcases executed_or_rejected s src bound with ⟨-, hsrc, hmachine⟩ | hsame
    · rw [hmachine]
      exact ((inOrder_upholds rfl _).interpret (hfine h.reachable hsrc)).steady.receives ih
    · rw [hsame]
      exact ih
  | reset _ ih => exact ih
  | close _ _ ih => exact ih

/-! ## Units -/

/-- The scopes made for instances: before a unit, or within a bound while it
runs. -/
def Made (natives : List Native) (s : Session) (src : Text) (bound : Nat) (scope : ScopeId)
    (i : InstanceId) : Prop :=
  s.Bound natives scope i ∨ ∃ h name f,
    BindsDuring s.rules bound (Source.compiled src) s.fresh h name f i ∧
      scope = (h.bind f i).2.closure

end Session

/-- **The scopes that bind `this` are those made for instances**, and bind it
to the instance they were made for, and nothing else. -/
structure Heap.Owned (Made : ScopeId → InstanceId → Prop) (h : Heap) : Prop where
  own : ∀ s i, (h.scope? s).isSome = true → (Made s i ↔ h.Receives s i)
  only : ∀ s, (h.boundIn s thisName).isSome = true → ∃ i, Made s i

/-- A heap on the way from one that is known to one with all that was made. -/
theorem Heap.Owned.of_follows {Made : ScopeId → InstanceId → Prop} {h last : Heap}
    (hr : h.Respectful) (hmade : ∀ s i, h.Receives s i → Made s i)
    (hlast : ∀ s i, Made s i → last.Receives s i) (hsteady : h.Steady last) : h.Owned Made where
  own s i hthere :=
    ⟨fun hs => hsteady.receives_before (hlast s i hs) hthere, hmade s i⟩
  only s hthis := by
    obtain ⟨scope, hscope, hfind⟩ := (Heap.boundIn_eq_some _).1 hthis
    obtain ⟨i, hreceives, -⟩ := hr.receives hscope hfind
    exact ⟨i, hmade s i hreceives⟩

namespace Session

open Eval

/-- No native of a program goes by the name `this`. -/
theorem names_available (withDatabase : Bool) (drivers : Drivers) :
    ∀ f ∈ Native.available withDatabase drivers, f.name ≠ thisName := by
  have hprocedure : ∀ {name arity p}, Text.ofString name ≠ thisName →
      (Native.ofProcedure name arity p).name ≠ thisName := id
  exact Native.forall_available (by decide) (by decide) (hprocedure (by decide))
    (hprocedure (by decide)) (hprocedure (by decide)) (hprocedure (by decide)) withDatabase

/-- **`this` is fixed, and what sets up an instance answers with it.** No
native of a program goes by the name `this`. In a session with any natives of
which so much is true, and which has run any units, the scopes that bind
`this` are those in which a method was bound to an instance, and bind nothing
else. So it is at every moment of a unit that compiles and when it has ended,
whatever the bound on its recursion: no scope that was made for an instance
is ever touched, and no other comes to bind `this`. At every such moment
`this` and the calls that make and set up instances are as `ThisAt` says; and
of the methods that are bound, those named `init` are the ones that set up
instances. -/
theorem this_fixed :
    (∀ withDatabase drivers, ∀ f ∈ Native.available withDatabase drivers, f.name ≠ thisName) ∧
    ∀ natives : List Native, (∀ f ∈ natives, f.name ≠ thisName) →
      ∀ s, Reachable natives s → ∀ src, Source.Compiles src → ∀ bound,
        let last := (interpret s.rules bound (Source.compiled src) s.fresh).machine.heap
        (s.machine.heap.Owned (s.Bound natives) ∧
          ∀ scope i, s.Bound natives scope i → s.machine.heap.Receives scope i) ∧
        (last.Owned (s.Made natives src bound) ∧
          ∀ scope i, s.Made natives src bound scope i → last.Receives scope i) ∧
        (∀ h name f i, BindsDuring s.rules bound (Source.compiled src) s.fresh h name f i →
          ((h.bind f i).2.isInit = true ↔ name = initName)) ∧
        ∀ t m, During s.rules bound (Source.compiled src) s.fresh t m →
          m.heap.Owned (s.Made natives src bound) ∧ s.machine.heap.Steady m.heap ∧
            m.heap.Steady last ∧ ThisAt s.rules t m := by
  refine ⟨names_available, fun natives hnames s hs src hsrc bound => ?_⟩
  intro last
  let Made := s.Made natives src bound
  have hsettled := hs.settled hnames
  have hfine : FineAll s.rules (InOrder s.rules Made) (Heap.Follows Made) bound
      (Source.compiled src) s.fresh :=
    hsettled.fineAll hsrc fun h name f i hbinds => .inr ⟨h, name, f, hbinds, rfl⟩
  have hupholds : Upholds s.rules (InOrder s.rules Made) _ := inOrder_upholds rfl Made
  have hend : Heap.Follows Made s.machine.heap last := hupholds.interpret hfine
  have hmade : ∀ {h : Heap}, Heap.Follows Made s.machine.heap h →
      ∀ scope i, h.Receives scope i → Made scope i :=
    fun hfollows scope i hreceives =>
      (hfollows.made scope i hreceives).elim (fun h => .inl (hsettled.bound scope i h)) id
  -- what was made is there at the end
  have hlast : ∀ scope i, Made scope i → last.Receives scope i := by
    rintro scope i (hbound | ⟨h, name, f, hbinds, rfl⟩)
    · exact hend.steady.receives (hbound.receives hnames)
    · exact (hbinds.leads rfl hfine).2.receives (h.receives_bind f i)
  have hbefore : ∀ scope i, s.Bound natives scope i → s.machine.heap.Receives scope i :=
    fun _ _ h => h.receives hnames
  refine ⟨⟨.of_follows hsettled.heap hsettled.bound hbefore (.refl _), hbefore⟩,
    ⟨.of_follows (hend.respectful hsettled.heap) (hmade hend) hlast (.refl _), hlast⟩,
    fun h name f i hbinds => (hbinds.leads rfl hfine).1.1, fun t m hduring => ?_⟩
  obtain ⟨⟨n, hthere⟩, hto, hfrom⟩ := hupholds.during hduring hfine
  exact ⟨.of_follows hthere.heap (hmade hto) hlast hfrom.steady, hto.steady, hfrom.steady,
    hthere.toOrderly.thisAt rfl⟩

/-- An inherited `init` that returns something else, and a method that hands
out a function with `this` in a block: both come to the instance, whose first
scope is the one made when its class was called. -/
theorem this_fixed_inherited :
    let natives := Native.available false .unlinked
    let s := Session.ofNatives 0 natives false ⟨0, 0⟩
    let src := Text.ofString ("class A\x7binit()\x7breturn 1;\x7dget()\x7bfunction f()" ++
      "\x7b\x7breturn this;\x7d\x7dreturn f;\x7d\x7dclass B<A\x7b\x7d" ++
      "var b=B();print b.get()()==b;print b.init()==b;")
    let last := (interpret s.rules 40 (Source.compiled src) s.fresh).machine
    last.output = Text.ofString "true\ntrue\n" ∧ s.Made natives src 40 ⟨1⟩ ⟨0⟩ ∧
      last.heap.Receives ⟨1⟩ ⟨0⟩ := by
  intro natives s src last
  have hcompiles : Source.Compiles src :=
    ⟨by decide +kernel, by decide +kernel, by decide +kernel⟩
  obtain ⟨-, ⟨howned, hlast⟩, -⟩ := this_fixed.2 natives (this_fixed.1 false .unlinked) s
    (.start 0 false ⟨0, 0⟩) src hcompiles 40
  have hthis : last.heap.boundIn ⟨1⟩ thisName = some (.instanceRef ⟨0⟩) := by decide +kernel
  obtain ⟨i, hmade⟩ := howned.only ⟨1⟩ (Option.isSome_of_eq_some hthis)
  cases (hlast _ _ hmade).boundIn.symm.trans hthis
  exact ⟨by decide +kernel, hmade, hlast _ _ hmade⟩

end Session

end TanLang
