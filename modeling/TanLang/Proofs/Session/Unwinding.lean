import TanLang.Proofs.Evaluation.Conduct
import TanLang.Proofs.Evaluation.Course
import TanLang.Proofs.Session.Compiled
/-!
# Sessions — every exit unwinds

However a piece of code ends, the scope that was active before it is active
again and as many calls are open as before. On the way there are never more
calls open than the limit allows: **a call is counted only after the check
that there is room for it**. So between two units of a session the globals
are active and no call is open, whatever the units before came to.
-/

namespace TanLang

namespace Eval

/-- **The scope and the count of open calls are what they were.** -/
structure Unwound (m m' : Machine) : Prop where
  active : m'.active = m.active
  depth : m'.depth = m.depth

variable {α : Type} {m m' : Machine} {x : Action α}

/-- What behaves whatever its marks unwinds, however it ends. -/
theorem Behaves.unwound {Then : α → Prop} (hx : Behaves (fun _ => True) x Then) (m : Machine) :
    Unwound m (x m).machine := by
  have hleaves := (hx m (.of_true m.heap)).leaves
  exact ⟨hleaves.active, hleaves.depth⟩

/-- The machine after an answer has as many calls open. -/
theorem Behaves.depth_of_done {Then : α → Prop} {a : α} (hx : Behaves (fun _ => True) x Then)
    (hdone : x m = .done a m') : m'.depth = m.depth :=
  (hx.of_eq_done (.of_true m.heap) hdone).1.depth

variable {rules : Rules} {n : Nat} {t t' : Task}

/-- After the check there is room for another call. -/
theorem lt_maxDepth_of_checkDepth {paren : Token} (hdone : checkDepth rules paren m = .done () m') :
    m'.depth < rules.maxDepth := by
  unfold checkDepth at hdone
  split at hdone
  · cases hdone
  · rename_i hroom
    cases hdone
    omega

/-- How many calls a task opens for what it calls: only a call opens one. -/
def Task.opens : Task → Nat
  | .apply _ _ _ => 1
  | _ => 0

/-- **What a task calls is as deep as the task**, but for the call that the
task opens. -/
theorem Calls.depth_eq (hcall : Calls rules n t m t' m') : m'.depth = m.depth + t.opens := by
  have hwithin : BehavesWithin (fun _ => True) rules n := behavesWithin rules n
  cases hcall with
  | apply hcall hdepth =>
    have hfirst := (checkCall_behaves trivial).depth_of_done hcall
    have hsecond := (checkDepth_behaves trivial).depth_of_done hdepth
    show _ + 1 = _ + 1
    rw [hsecond, hfirst]
  -- what was run before left the count as it was
  | right hdone | yes hdone _ | no hdone _ | logicalRight hdone _ | assign hdone | args hdone
  | restExprs hdone | branchYes hdone _ | branchNo hdone _ | whileBody hdone _ =>
    exact (hwithin.evaluate fun _ _ => trivial).depth_of_done hdone
  | call hcallee hargs =>
    have hfirst := (hwithin.evaluate fun _ _ => trivial).depth_of_done hcallee
    have hsecond := (hwithin.evaluateAll fun _ _ => trivial).depth_of_done hargs
    exact hsecond.trans hfirst
  | field hobject hinstance =>
    have hfirst := (hwithin.evaluate fun _ _ => trivial).depth_of_done hobject
    have hsecond := (expectInstance_behaves fun _ => .noFields trivial).depth_of_done hinstance
    exact hsecond.trans hfirst
  | function hfetch => exact fetchFunction_behaves.depth_of_done hfetch
  | init hmade => exact instantiate_behaves.depth_of_done hmade
  | body henter =>
    have hfirst := enterCall_behaves.depth_of_done henter
    exact hfirst
  | leave henter hbody =>
    have hfirst := enterCall_behaves.depth_of_done henter
    have hsecond := (hwithin.executeAll fun _ _ => trivial).inScope.depth_of_done hbody
    exact hsecond.trans hfirst
  | forAfter hinitial =>
    have hfirst := (hwithin.execute fun _ _ => trivial).depth_of_done hinitial
    exact hfirst
  | restStmts hfirst => exact (hwithin.execute fun _ _ => trivial).depth_of_done hfirst
  | whileAgain hcond _ hbody =>
    have hfirst := (hwithin.evaluate fun _ _ => trivial).depth_of_done hcond
    have hsecond := (hwithin.executeOption fun _ _ => trivial).depth_of_done hbody
    exact hsecond.trans hfirst
  | forBody hcond _ => exact (hwithin.evaluateCondition fun _ _ => trivial).depth_of_done hcond
  | forStep hcond _ hbody =>
    have hfirst := (hwithin.evaluateCondition fun _ _ => trivial).depth_of_done hcond
    have hsecond := (hwithin.executeOption fun _ _ => trivial).depth_of_done hbody
    exact hsecond.trans hfirst
  | forAgain hcond _ hbody hstep =>
    have hfirst := (hwithin.evaluateCondition fun _ _ => trivial).depth_of_done hcond
    have hsecond := (hwithin.executeOption fun _ _ => trivial).depth_of_done hbody
    have hthird := (hwithin.evaluateOption fun _ _ => trivial).depth_of_done hstep
    exact hthird.trans (hsecond.trans hfirst)
  -- what is called first finds the machine as the task does
  | _ => exact rfl

/-- The limit allows the call that a task opens. -/
theorem Calls.depth (hcall : Calls rules n t m t' m') :
    m'.depth = m.depth ∨ (m'.depth = m.depth + 1 ∧ m'.depth ≤ rules.maxDepth) := by
  have hdeeper := hcall.depth_eq
  cases hcall with
  | apply hcall hdepth => exact .inr ⟨hdeeper, lt_maxDepth_of_checkDepth hdepth⟩
  | _ => exact .inl hdeeper

/-- **At every moment of a run no more calls are open than the limit
allows**, and no fewer than at its start. -/
theorem Reaches.depth (hreach : Reaches rules n t m t' m') (hm : m.depth ≤ rules.maxDepth) :
    m.depth ≤ m'.depth ∧ m'.depth ≤ rules.maxDepth := by
  induction hreach with
  | here => exact ⟨Nat.le_refl _, hm⟩
  | call hcall _ ih =>
    rcases hcall.depth with heq | ⟨heq, hle⟩
    · obtain ⟨hlow, hhigh⟩ := ih (by omega)
      exact ⟨by omega, hhigh⟩
    · obtain ⟨hlow, hhigh⟩ := ih hle
      exact ⟨by omega, hhigh⟩

variable {bound : Nat} {p : Program Address}

/-- The same for a program, each statement of which starts as deep as the
program. -/
theorem During.depth (hduring : During rules bound p m t m') (hm : m.depth ≤ rules.maxDepth) :
    m.depth ≤ m'.depth ∧ m'.depth ≤ rules.maxDepth := by
  induction hduring with
  | first hreach => exact hreach.depth hm
  | next hdone _ ih =>
    have hwithin : BehavesWithin (fun _ => True) rules bound := behavesWithin rules bound
    have heq := (hwithin.execute fun _ _ => trivial).depth_of_done hdone
    rw [heq] at ih
    exact ih hm

/-- **A program unwinds**, also if it ends in an error. -/
theorem unwound_interpret (rules : Rules) (bound : Nat) (p : Program Address) (m : Machine) :
    Unwound m (interpret rules bound p m).machine :=
  (interpret_behaves fun _ _ => trivial).unwound m

end Eval

namespace Session

open Eval

/-- Between two units the globals are active and no call is open. -/
theorem Reachable.unwound {natives : List Native} {s : Session} (h : Reachable natives s) :
    s.machine.active = Machine.globals ∧ s.machine.depth = 0 := by
  induction h with
  | start => exact ⟨rfl, rfl⟩
  | @run s _ src bound ih =>
    rcases s.run_machine src bound with hsame | ⟨-, hrun⟩
    · rw [hsame]
      exact ih
    · rw [hrun]
      have hunwound := unwound_interpret s.rules bound (Source.compiled src) s.fresh
      exact ⟨hunwound.active.trans ih.1, hunwound.depth.trans ih.2⟩
  | reset _ ih => exact ih
  | close _ _ ih => exact ih

/-- **The interpreter is unwound on every exit.** Whatever the machine, an
expression, a statement and a block leave the active scope and the number of
open calls as they found them, however they end. A run that starts within
the limit on nested calls never leaves it, at no moment. And in a session
with any natives, whatever its units came to, every unit starts and ends with the globals
active and no call open. -/
theorem exits_unwind :
    (∀ (rules : Rules) (n : Nat) (m : Machine),
      (∀ e, Unwound m (evaluate rules n e m).machine) ∧
      (∀ s, Unwound m (Eval.execute rules n s m).machine) ∧
      ∀ scope body, Unwound m (Action.inScope scope (executeAll rules n body) m).machine) ∧
    (∀ (rules : Rules) (n : Nat) (m : Machine), m.depth ≤ rules.maxDepth →
      ∀ t t' m', Reaches rules n t m t' m' → m'.depth ≤ rules.maxDepth) ∧
    ∀ natives s, Reachable natives s → s.machine.active = Machine.globals ∧ s.machine.depth = 0 ∧
      ∀ (bound : Nat) (p : Program Address),
        (interpret s.rules bound p s.fresh).machine.active = Machine.globals ∧
        (interpret s.rules bound p s.fresh).machine.depth = 0 ∧
        ∀ t m, During s.rules bound p s.fresh t m → m.depth ≤ s.maxDepth := by
  refine ⟨fun rules n m => ?_, fun rules n m hm t t' m' hreach => (hreach.depth hm).2,
    fun natives s hs => ?_⟩
  · have hwithin : BehavesWithin (fun _ => True) rules n := behavesWithin rules n
    exact ⟨fun e => (hwithin.evaluate fun _ _ => trivial).unwound m,
      fun s => (hwithin.execute fun _ _ => trivial).unwound m,
      fun scope body => (hwithin.executeAll fun _ _ => trivial).inScope.unwound m⟩
  · obtain ⟨hactive, hdepth⟩ := hs.unwound
    refine ⟨hactive, hdepth, fun bound p => ?_⟩
    have hunwound := unwound_interpret s.rules bound p s.fresh
    have hlimit : s.fresh.depth ≤ s.rules.maxDepth := by
      show s.machine.depth ≤ s.maxDepth
      omega
    exact ⟨hunwound.active.trans hactive, hunwound.depth.trans hdepth,
      fun t m hduring => (hduring.depth hlimit).2⟩

/-- A function that calls itself where only one call may be open: while its
body runs the limit is reached, and the error at the second call takes back
the first. -/
theorem exits_unwind_overflow :
    let s := Session.start 1 false false ⟨0, 0⟩
    let p := Source.compiled (Text.ofString "function f()\x7bf();\x7df();")
    let outcome := interpret s.rules 20 p s.fresh
    endingOf outcome = .failed ⟨.stackOverflow, ⟨.rightParen, Text.ofString ")", .nil, 1⟩⟩ ∧
      outcome.machine.active = Machine.globals ∧ outcome.machine.depth = 0 ∧
      ∃ t m, During s.rules 20 p s.fresh t m ∧ m.depth = 1 ∧ m.depth ≤ s.maxDepth := by
  intro s p outcome
  obtain ⟨-, -, hunit⟩ := exits_unwind.2.2 _ s (.start 1 false ⟨0, 0⟩)
  obtain ⟨hactive, hdepth, hlimit⟩ := hunit 20 p
  refine ⟨by decide +kernel, hactive, hdepth, ?_⟩
  have hduring : During s.rules 20 p s.fresh _ _ :=
    .next rfl (.first (.call .expr (.call (.call rfl rfl)
      (.call (.apply rfl rfl) (.call (.function rfl) (.call (.body rfl) .here))))))
  exact ⟨_, _, hduring, rfl, hlimit _ _ hduring⟩

end Session

end TanLang
