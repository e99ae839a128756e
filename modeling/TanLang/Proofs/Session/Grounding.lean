import TanLang.Proofs.Evaluation.Changes
import TanLang.Proofs.Heap.Outwards
import TanLang.Proofs.Session.Termination
/-!
# Sessions — the heap stays well-founded

A session starts with a grounded heap, and every unit keeps it so at every
moment, however it ends. What is in the heap keeps its place, and new things
are put behind it, so the places are in the order in which things were made:
**each scope was made after the one around it, and each class after the one
it inherits from**, whatever the names are bound to meanwhile.
-/

namespace TanLang

namespace Eval

variable {rules : Rules} {n bound : Nat} {p : Program Address} {m m' : Machine} {t : Task}
variable {base : Heap}

/-- What a task answers with refers to things that are there. -/
def Task.Answers (h : Heap) : (t : Task) → t.Answer → Prop
  | .evaluate _, v | .apply _ _ _, v | .invoke _ _ _, v | .runFunction _ _, v | .leaveCall _ _, v
  | .evaluateOption _, v | .evaluateCondition _, v | .read _ _, v => Known h v
  | .evaluateAll _, vs => AllKnown h vs
  | .execute _, c | .executeOption _, c | .executeAll _, c | .repeatWhile _ _, c
  | .repeatFor _ _ _, c => Returned h c
  | .write _ _ _, _ => True

/-- **A task that is grounded keeps a machine so**, and so is its answer. -/
theorem Task.run_grounds (rules : Rules) (n : Nat) : ∀ t : Task, t.Grounded base →
    Grounds base (t.run rules n) fun h a => t.Answers h a
  | .evaluate e, _ => (groundsWithin rules n).evaluate e
  | .evaluateAll es, _ => (groundsWithin rules n).evaluateAll es
  | .apply _ _ _, ht => (groundsWithin rules n).apply ht.1 ht.2
  | .invoke _ _ _, ht => (groundsWithin rules n).invoke ht.1 ht.2
  | .runFunction _ _, ht => (groundsWithin rules n).runFunction ht.1 ht.2
  | .leaveCall _ _, ht => leaveCall_grounds ht
  | .execute s, _ => (groundsWithin rules n).execute s
  | .evaluateOption e, _ => (groundsWithin rules n).evaluateOption e
  | .executeOption s, _ => (groundsWithin rules n).executeOption s
  | .executeAll ss, _ => (groundsWithin rules n).executeAll ss
  | .repeatWhile cond body, _ => (groundsWithin rules n).repeatWhile cond body
  | .repeatFor cond step body, _ => (groundsWithin rules n).repeatFor cond step body
  | .evaluateCondition e, _ => (groundsWithin rules n).evaluateCondition e
  | .read _ _, _ => read_grounds
  | .write _ _ _, hv => write_grounds hv

/-- **The machines that a program comes to**: the first one, those in which it
reaches a task, those in which such a task ends, and the last one. -/
inductive Passes (rules : Rules) (bound : Nat) (p : Program Address) (m : Machine) :
    Machine → Prop where
  | start : Passes rules bound p m m
  | reached {t : Task} {m' : Machine} (h : During rules bound p m t m') :
      Passes rules bound p m m'
  | ended {t : Task} {m' : Machine} (h : During rules bound p m t m') (n : Nat) :
      Passes rules bound p m (t.run rules n m').machine
  | finish : Passes rules bound p m (interpret rules bound p m).machine

/-- **The machine is grounded wherever a program comes to.** -/
theorem Passes.grounded (h : Passes rules bound p m m') (hm : m.Grounded) : m'.Grounded := by
  cases h with
  | start => exact hm
  | reached hduring => exact hduring.grounded hm
  | @ended t m' hduring n =>
    obtain ⟨ht, hm'⟩ := hduring.grounded_task hm
    exact (Task.run_grounds rules n t ht m' hm' (.refl _)).grounded hm'
  | finish => exact (interpret_grounds rules bound p m hm (.refl _)).grounded hm

/-- A task, by itself, leaves everything in its place. -/
theorem Task.run_lasts (rules : Rules) (n : Nat) (t : Task) (m : Machine) :
    m.heap.Lasts (t.run rules n m).machine.heap :=
  ((told_upholds rules fun _ _ => True).run fun _ _ _ _ _ _ => trivial).lasts

/-- **Everything keeps its place wherever a program comes to.** -/
theorem Passes.lasts (h : Passes rules bound p m m') : m.heap.Lasts m'.heap := by
  cases h with
  | start => exact .refl _
  | reached hduring => exact hduring.changes.1.lasts
  | ended hduring n => exact hduring.changes.1.lasts.trans (Task.run_lasts rules n _ _)
  | finish => exact (interpret_changes rules bound p m).lasts

end Eval

namespace Session

open Eval

variable {natives : List Native} {s : Session}

/-- **The machine is grounded between units**, also after a unit that failed. -/
theorem Reachable.grounded (hnatives : ∀ f ∈ natives, f.Grounded) (h : Reachable natives s) :
    s.machine.Grounded := by
  induction h with
  | start => exact Machine.grounded_start hnatives
  | @run s _ src bound ih =>
    rcases run_machine s src bound with hsame | ⟨-, hran⟩
    · rw [hsame]
      exact ih
    · rw [hran]
      exact Passes.finish.grounded ⟨ih.heap, ih.active⟩
  | reset _ ih => exact ih
  | close _ drivers ih =>
    obtain ⟨r, hkept⟩ := close_machine _ drivers
    rw [hkept]
    exact ⟨(ih.heap.keep r).grounded, ih.active⟩

/-- **The heap stays well-founded.** What the natives of a program answer with
refers to nothing in the heap, whatever drivers they ask. In a session with
any natives of which so much is true, and which has run any units, run any
code, within any bound. Wherever it comes to, everything that is referred to
exists: from the globals and all other scopes, from the active scope,
functions, instances and classes, and from what a task is given or answers
with. Every scope was made after the one around it and every class after the
one it inherits from, for all that was there keeps its place and what is new
is put behind it. So the way out from any scope ends at the globals, and a
lookup of a name or of a method ends by itself. -/
theorem heap_well_founded :
    (∀ withDatabase drivers, ∀ f ∈ Native.available withDatabase drivers, f.Grounded) ∧
    ∀ natives : List Native, (∀ f ∈ natives, f.Grounded) →
      ∀ s, Reachable natives s → ∀ (p : Program Address) (bound : Nat),
        (∀ m, Passes s.rules bound p s.fresh m →
          m.Grounded ∧ s.machine.heap.Lasts m.heap ∧
          (∀ scope : ScopeId, scope.index < m.heap.scopes.size →
            ∃ steps ≤ scope.index, Heap.Grounded.WayOut m.heap scope steps) ∧
          m.heap.LookupsEnd) ∧
        ∀ t m, During s.rules bound p s.fresh t m →
          t.Grounded m.heap ∧ m.heap.Lasts (interpret s.rules bound p s.fresh).machine.heap ∧
          ∀ n a m', t.run s.rules n m = .done a m' → t.Answers m'.heap a := by
  refine ⟨Native.grounded_available,
    fun natives hnatives s hs p bound => ?_⟩
  have hgrounded := hs.grounded hnatives
  have hfresh : s.fresh.Grounded := ⟨hgrounded.heap, hgrounded.active⟩
  refine ⟨fun m hpasses => ?_, fun t m hduring => ?_⟩
  · have hm := hpasses.grounded hfresh
    exact ⟨hm, hpasses.lasts, hm.heap.exists_wayOut, hm.heap.lookupsEnd⟩
  · obtain ⟨ht, hm⟩ := hduring.grounded_task hfresh
    refine ⟨ht, hduring.changes.2.lasts, fun n a m' hdone => ?_⟩
    exact ((Task.run_grounds s.rules n t ht).after hm hdone).2.2

/-- Classes that are declared again under each other's names, after a native
has opened a database: each inherits from one that was made before it. -/
theorem heap_well_founded_rebound :
    let natives := Native.available true .echoing
    let src := Text.ofString
      "dbOpen(\"mysql\",\"x\");class B\x7b\x7d class A<B\x7b\x7d class B<A\x7b\x7d"
    let s := ((Session.ofNatives 0 natives false ⟨0, 0⟩).run src).1
    s.machine.heap.registry.connections.length = 1 ∧
      s.machine.heap.classes.toList.map Class.superclass = [none, some ⟨0⟩, some ⟨1⟩] ∧
      s.machine.heap.Grounded ∧ s.machine.heap.LookupsEnd := by
  intro natives src s
  have hopened : s.machine.heap.registry.connections.length = 1 := by decide +kernel
  have hclasses : s.machine.heap.classes.toList.map Class.superclass =
      [none, some ⟨0⟩, some ⟨1⟩] := by decide +kernel
  have hreachable : Reachable natives s := .run (.start 0 false ⟨0, 0⟩) src recursionBound
  -- from here on it does not matter which session it is
  clear_value s
  obtain ⟨hgrounded, hheap⟩ := heap_well_founded
  obtain ⟨hm, -, -, hends⟩ :=
    (hheap natives (hgrounded true .echoing) s hreachable [] 0).1 _ .start
  exact ⟨hopened, hclasses, hm.heap, hends⟩

end Session

end TanLang
