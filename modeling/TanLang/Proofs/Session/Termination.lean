import Mathlib.Algebra.Order.BigOperators.Group.List
import Mathlib.Algebra.Order.Group.Nat
import Mathlib.Data.List.Induction
import TanLang.Proofs.Evaluation.Grounding
import TanLang.Proofs.Evaluation.Termination
import TanLang.Proofs.Heap.Natives
import TanLang.Proofs.Session.Provenance
import TanLang.Proofs.Session.Scopes
import TanLang.Proofs.Session.Units
/-!
# Sessions — units without loops end

The limit on nested calls bounds a session in which no unit has a loop: each
unit runs to its end or stops at a runtime error, whatever the units before
it have left to be called. **One bound on the recursion is enough for all of
them**, and any larger one gives the same outcomes.

The bound makes room for an extent of code that no unit exceeds, once in
each call that may be open. The code in the heap is from units of the
session, so that no body that is called exceeds it either.
-/

namespace TanLang

/-! ## Resolution -/

namespace Scoping

mutual

/-- Resolution adds and removes no loop. -/
theorem loopless_resolveStmt : ∀ (s : Stmt Unit) (around : Surroundings) (frames : List Frame),
    (resolveStmt around s frames).value.loopless = s.loopless
  | .block _ body, around, frames => by
    simp only [resolveStmt, Step.bind_run, Step.pure_run, inScope_run, Stmt.loopless,
      looplessAll_resolveStmts body]
  | .expr _, _, _ => rfl
  | .print _ _, _, _ => rfl
  | .varDecl _ _, _, _ => rfl
  | .branch _ _ yes no, around, frames => by
    simp only [resolveStmt, Step.bind_run, Step.pure_run, Stmt.loopless,
      loopless_resolveStmt yes, looplessOption_resolveOptionStmt no]
  | .loop _ _ _, _, _ => rfl
  | .forLoop _ initial _ _ _, around, frames => by
    cases initial <;> rfl
  | .function decl, around, frames => by
    simp only [resolveStmt, Step.bind_run, Step.pure_run, Stmt.loopless,
      looplessRoutine_resolveRoutine decl]
  | .ret _ _, around, frames => by
    cases around with
    | mk inFunction inClass => cases inFunction <;> rfl
  | .classDecl _ _ methods, around, frames => by
    simp only [resolveStmt, Step.bind_run, Step.pure_run, inScope_run, Stmt.loopless,
      looplessMethods_resolveMethods methods]

theorem looplessAll_resolveStmts : ∀ (ss : List (Stmt Unit)) (around : Surroundings)
    (frames : List Frame),
    Stmt.looplessAll (resolveStmts around ss frames).value = Stmt.looplessAll ss
  | [], _, _ => rfl
  | s :: rest, around, frames => by
    simp only [resolveStmts, Step.bind_run, Step.pure_run, Stmt.looplessAll,
      loopless_resolveStmt s, looplessAll_resolveStmts rest]

theorem looplessOption_resolveOptionStmt : ∀ (s : Option (Stmt Unit)) (around : Surroundings)
    (frames : List Frame),
    Stmt.looplessOption (resolveOptionStmt around s frames).value = Stmt.looplessOption s
  | none, _, _ => rfl
  | some s, around, frames => by
    simp only [resolveOptionStmt, Step.bind_run, Step.pure_run, Stmt.looplessOption,
      loopless_resolveStmt s]

theorem looplessRoutine_resolveRoutine : ∀ (decl : Routine (Stmt Unit)) (around : Surroundings)
    (frames : List Frame),
    Stmt.looplessRoutine (resolveRoutine around decl frames).value = Stmt.looplessRoutine decl
  | ⟨_, _, body⟩, around, frames => by
    simp only [resolveRoutine, Step.bind_run, Step.pure_run, inScope_run, Stmt.looplessRoutine,
      looplessAll_resolveStmts body]

theorem looplessMethods_resolveMethods : ∀ (methods : List (Routine (Stmt Unit)))
    (around : Surroundings) (frames : List Frame),
    Stmt.looplessMethods (resolveMethods around methods frames).value =
      Stmt.looplessMethods methods
  | [], _, _ => rfl
  | m :: rest, around, frames => by
    simp only [resolveMethods, Step.bind_run, Step.pure_run, Stmt.looplessMethods,
      looplessRoutine_resolveRoutine m, looplessMethods_resolveMethods rest]

end

end Scoping

/-! ## Units -/

/-- **A machine starts grounded.** -/
theorem Machine.grounded_start {natives : List Native}
    (hnatives : ∀ f ∈ natives, f.Grounded) : (Machine.start natives).Grounded := by
  have hempty : (Heap.newScope {} none).1.Grounded := by
    refine ⟨fun s scope hs => ?_, fun _ _ hf => (nomatch hf), fun _ _ hf => (nomatch hf),
      fun _ _ hc => (nomatch hc), fun _ _ hi => (nomatch hi)⟩
    rw [Heap.scope?_newScope] at hs
    split at hs
    · rename_i hnew
      cases hs
      exact ⟨nofun, fun _ => hnew, .empty⟩
    · cases hs
  have hinstalled := Machine.grounded_install hempty hnatives
  exact ⟨hinstalled.grounded, Nat.lt_of_lt_of_le Nat.one_pos hinstalled.grown.scopes⟩

namespace Session

open Eval

/-- The machine that a unit finds after others, which are run within a bound
on the recursion. -/
def foundWithin (s : Session) (bound : Nat) (earlier : List Text) : Machine :=
  earlier.foldl (fun m u =>
    { (interpret s.rules bound (Source.compiled u) m).machine with printed := [] }) s.fresh

/-- What a unit comes to after others, within a bound on the recursion. -/
def outcomeWithin (s : Session) (bound : Nat) (earlier : List Text) (u : Text) : Outcome Unit :=
  interpret s.rules bound (Source.compiled u) (s.foundWithin bound earlier)

theorem foundWithin_append (s : Session) (bound : Nat) (earlier : List Text) (u : Text) :
    s.foundWithin bound (earlier ++ [u]) =
      { (s.outcomeWithin bound earlier u).machine with printed := [] } :=
  List.foldl_append

/-- The action ran to its end or stopped at a runtime error. -/
def Concludes {α : Type} (o : Outcome α) : Prop :=
  (∃ a m, o = .done a m) ∨ ∃ error m, o = .raised error m

theorem Concludes.ended {α : Type} {o : Outcome α} (h : Concludes o) : o.Ended := by
  rcases h with ⟨a, m, rfl⟩ | ⟨error, m, rfl⟩
  · exact .done
  · exact .raised

theorem Concludes.ending {α : Type} {o : Outcome α} (h : Concludes o) :
    endingOf o = .finished ∨ ∃ error, endingOf o = .failed error := by
  rcases h with ⟨a, m, rfl⟩ | ⟨error, m, rfl⟩
  · exact .inl rfl
  · exact .inr ⟨error, rfl⟩

/-- **A machine between units without loops**: its code is brief, its heap is
grounded, and it is ready for a unit. -/
structure Calm (most : Nat) (m : Machine) : Prop where
  brief : m.heap.Holds (Stmt.Brief most)
  grounded : m.Grounded
  ready : ∃ L, Ready False L m

theorem Calm.start (most : Nat) {natives : List Native} (hnatives : ∀ f ∈ natives, f.Grounded) :
    Calm most (Machine.start natives) where
  brief := by
    obtain ⟨hfunctions, hclasses⟩ := Machine.install_heap natives (Heap.newScope {} none).1
    have hempty : (Heap.newScope {} none).1.Holds (Stmt.Brief most) :=
      ⟨fun _ _ hf => (nomatch hf), fun _ _ _ _ hc => (nomatch hc)⟩
    exact hempty.of_eq hfunctions hclasses
  grounded := Machine.grounded_start hnatives
  ready := ⟨fun _ _ => True, sound_start _ _, rfl⟩

variable {rules : Rules} {most bound : Nat} {m : Machine} {u : Text}

/-- A unit that the session can run: it compiles, has no loop, and is of an
extent at most. -/
structure Fit (most : Nat) (u : Text) : Prop where
  compiles : Source.Compiles u
  loopless : Stmt.looplessAll (Source.program u) = true
  extent : Stmt.extentAll (Source.compiled u) ≤ most

/-- **A unit without loops ends**, and leaves a machine for the next one. -/
theorem Calm.interpret (hm : Calm most m) (hrules : rules.addressing = .distance)
    (hu : Fit most u) (hbound : most + reserve most rules.maxDepth ≤ bound) :
    Concludes (interpret rules bound (Source.compiled u) m) ∧
      Calm most { (interpret rules bound (Source.compiled u) m).machine with printed := [] } := by
  obtain ⟨L, hready⟩ := hm.ready
  have hloopless : Stmt.looplessAll (Source.compiled u) = true :=
    (Scoping.looplessAll_resolveStmts _ _ _).trans hu.loopless
  have hsettled := interpret_settles hloopless hu.extent hbound m hm.brief (Nat.le_add_left _ _)
  have hkeeps : Keeps False L (Eval.interpret rules bound (Source.compiled u)) m Any :=
    interpret_keeps hrules hready (hu.compiles.fits False.elim)
  have hgrounded := (interpret_grounds rules bound (Source.compiled u) m hm.grounded
    (.refl _)).grounded hm.grounded
  obtain ⟨L', hkept⟩ := hkeeps.kept
  have hready' := hready.kept hkept
  refine ⟨?_, hsettled.brief, ⟨hgrounded.heap, hgrounded.active⟩, L', hready'.sound,
    hready'.active⟩
  cases ho : Eval.interpret rules bound (Source.compiled u) m with
  | done a m' => exact .inl ⟨a, m', rfl⟩
  | raised error m' => exact .inr ⟨error, m', rfl⟩
  | crashed m' => exact absurd ho (hkeeps.not_crashed m')
  | exhausted m' =>
    rw [ho] at hsettled
    exact absurd rfl hsettled.ended

/-- **Units without loops, one after the other.** -/
theorem Calm.foundWithin {s : Session} {earlier : List Text} (hs : Calm most s.fresh)
    (hunits : ∀ u ∈ earlier, Fit most u) (hbound : most + reserve most s.maxDepth ≤ bound) :
    Calm most (s.foundWithin bound earlier) := by
  induction earlier using List.reverseRecOn with
  | nil => exact hs
  | append_singleton earlier u ih =>
    have hearlier := ih fun v hv => hunits v (List.mem_append_left _ hv)
    rw [foundWithin_append]
    exact (hearlier.interpret rfl (hunits u (List.mem_append_right _ List.mem_cons_self))
      hbound).2

/-- A bound that is larger than enough changes nothing. -/
theorem foundWithin_of_le {s : Session} {earlier : List Text} {enough : Nat}
    (hle : enough ≤ bound)
    (hended : ∀ before u after, earlier = before ++ u :: after →
      (s.outcomeWithin enough before u).Ended) :
    s.foundWithin bound earlier = s.foundWithin enough earlier := by
  induction earlier using List.reverseRecOn with
  | nil => rfl
  | append_singleton earlier u ih =>
    have hsame := ih fun before v after hsplit =>
      hended before v (after ++ [u]) (by rw [hsplit, List.append_assoc, List.cons_append])
    have hend := hended earlier u [] rfl
    rw [foundWithin_append, foundWithin_append]
    unfold outcomeWithin at hend ⊢
    rw [hsame, interpret_of_le hle hend]

theorem outcome_eq_outcomeWithin {s s' : Session} {earlier : List Text}
    (hfresh : s'.fresh = s.foundWithin recursionBound earlier) (hrules : s'.rules = s.rules)
    (u : Text) : s'.outcome u = s.outcomeWithin recursionBound earlier u := by
  unfold outcome outcomeWithin
  rw [hrules, hfresh]

/-- **The session itself** runs its units within its own bound. -/
theorem after_fresh {s : Session} {earlier : List Text} (hclear : s.tally.hadError = false)
    (hcompiles : ∀ u ∈ earlier, Source.Compiles u) :
    (Prompt.after s earlier).fresh = s.foundWithin recursionBound earlier ∧
      (Prompt.after s earlier).rules = s.rules ∧
      (Prompt.after s earlier).tally.hadError = false := by
  induction earlier using List.reverseRecOn with
  | nil => exact ⟨rfl, rfl, hclear⟩
  | append_singleton earlier u ih =>
    obtain ⟨hfresh, hrules, hclear'⟩ := ih fun v hv => hcompiles v (List.mem_append_left _ hv)
    have hu := hcompiles u (List.mem_append_right _ List.mem_cons_self)
    obtain ⟨hmachine, hrules', -⟩ := run_spec hclear' hu
    have hafter : Prompt.after s (earlier ++ [u]) = ((Prompt.after s earlier).run u).1.reset :=
      List.foldl_append
    rw [hafter]
    refine ⟨?_, hrules'.trans hrules, rfl⟩
    rw [foundWithin_append, ← outcome_eq_outcomeWithin hfresh hrules, ← hmachine]
    rfl

theorem exists_split_of_mem_runLines {s : Session} {us : List Text} {r : UnitRun}
    (hr : r ∈ Prompt.runLines s us) : ∃ earlier u later,
      us = earlier ++ u :: later ∧ r = ((Prompt.after s earlier).run u).2 := by
  induction us generalizing s with
  | nil => cases hr
  | cons u rest ih =>
    rcases List.mem_cons.1 hr with rfl | hr
    · exact ⟨[], u, rest, rfl, rfl⟩
    · obtain ⟨earlier, v, later, rfl, rfl⟩ := ih hr
      exact ⟨u :: earlier, v, later, rfl, rfl⟩

/-- **Bounded recursion means that units end.** What the natives of a program
answer with refers to nothing in the heap, whatever drivers they ask. Take a
session with any natives of which so much is true and with any limit on
nested calls, and units that compile and in which there is no loop. There is
a bound on the recursion within which every unit, run after those before it,
runs to its end or stops at a runtime error; and within every larger bound it
comes to the same. Throughout each unit, the lookup of a method in the heap
ends by itself, wherever there is code to evaluate and after every
expression. If the bound of the session is large enough, so much holds of
what the session gives. -/
theorem loopless_units_end :
    (∀ withDatabase drivers, ∀ f ∈ Native.available withDatabase drivers, f.Grounded) ∧
    ∀ natives : List Native, (∀ f ∈ natives, f.Grounded) →
      ∀ (limit : Int) (showSource : Bool) (clock : Clock) (us : List Text),
        (∀ u ∈ us, Source.Compiles u) → (∀ u ∈ us, Stmt.looplessAll (Source.program u) = true) →
        let s := ofNatives limit natives showSource clock
        ∃ enough,
          (∀ bound, enough ≤ bound → ∀ earlier u later, us = earlier ++ u :: later →
            Concludes (s.outcomeWithin bound earlier u) ∧
            s.outcomeWithin bound earlier u = s.outcomeWithin enough earlier u ∧
            ∀ t m, During s.rules bound (Source.compiled u) (s.foundWithin bound earlier) t m →
              m.heap.Searchable ∧ ∀ n e v m', t = .evaluate e →
                evaluate s.rules n e m = .done v m' → m'.heap.Searchable) ∧
          (enough ≤ recursionBound → ∀ r ∈ Prompt.runLines s us,
            r.ending = .finished ∨ ∃ error, r.ending = .failed error) := by
  refine ⟨Native.grounded_available,
    fun natives hnatives limit showSource clock us hcompiles hloopless => ?_⟩
  intro s
  obtain ⟨most, hmost⟩ : ∃ most, ∀ u ∈ us, Fit most u := by
    refine ⟨(us.map fun u => Stmt.extentAll (Source.compiled u)).sum, fun u hu =>
      ⟨hcompiles u hu, hloopless u hu, List.le_sum_of_mem (List.mem_map_of_mem hu)⟩⟩
  have hstart : Calm most s.fresh := .start most hnatives
  have hcalm : ∀ {bound earlier u later}, most + reserve most s.maxDepth ≤ bound →
      us = earlier ++ u :: later → Calm most (s.foundWithin bound earlier) ∧
        Concludes (s.outcomeWithin bound earlier u) := by
    rintro bound earlier u later hbound rfl
    have hearlier := hstart.foundWithin
      (fun v hv => hmost v (List.mem_append_left _ hv)) hbound
    have hu := hmost u (List.mem_append_right _ List.mem_cons_self)
    exact ⟨hearlier, (hearlier.interpret rfl hu hbound).1⟩
  refine ⟨most + reserve most s.maxDepth,
    fun bound hbound earlier u later hsplit => ⟨?_, ?_, fun t m hduring => ?_⟩,
    fun hbound r hr => ?_⟩
  · exact (hcalm hbound hsplit).2
  · have hended : ∀ before v after, us = before ++ v :: after →
        (s.outcomeWithin (most + reserve most s.maxDepth) before v).Ended :=
      fun before v after h => (hcalm (Nat.le_refl _) h).2.ended
    have hsame := foundWithin_of_le hbound fun before v after (h : earlier = _) =>
      hended before v (after ++ u :: later)
        (by rw [hsplit, h, List.append_assoc, List.cons_append])
    unfold outcomeWithin
    rw [hsame]
    exact interpret_of_le hbound (hended earlier u later hsplit)
  · have hm := hduring.grounded (hcalm hbound hsplit).1.grounded
    refine ⟨hm.heap.searchable, ?_⟩
    rintro n e v m' rfl hdone
    exact ((groundsWithin s.rules n).evaluate e |>.after hm hdone).1.heap.searchable
  · obtain ⟨earlier, u, later, hsplit, rfl⟩ := exists_split_of_mem_runLines hr
    have hcompiles' : ∀ v ∈ earlier, Source.Compiles v := fun v hv =>
      hcompiles v (hsplit ▸ List.mem_append_left _ hv)
    have hu : Source.Compiles u :=
      hcompiles u (hsplit ▸ List.mem_append_right _ List.mem_cons_self)
    obtain ⟨hfresh, hrules, hclear⟩ := after_fresh (s := s) rfl hcompiles'
    obtain ⟨-, -, -, hending, -⟩ := run_spec hclear hu
    rw [hending, outcome_eq_outcomeWithin hfresh hrules]
    exact (hcalm hbound hsplit).2.ending

/-- An inherited `init` method that makes instances without end, after a native
has opened a database: the second unit overflows, within a bound that is
enough and within every larger one. -/
theorem loopless_units_end_init :
    let natives := Native.available true .echoing
    let s := Session.ofNatives 2 natives false ⟨0, 0⟩
    let first := Text.ofString "dbOpen(\"mysql\",\"x\");class A\x7binit()\x7bB();\x7d\x7d"
    let second := Text.ofString "class B<A\x7b\x7dB();"
    let paren : Token := ⟨.rightParen, Text.ofString ")", .nil, 1⟩
    (s.foundWithin 20 [first]).heap.registry.connections.length = 1 ∧
      (s.outcomeWithin 20 [first] second).halt? = some (.overflow paren) ∧
      ∃ enough, ∀ bound, enough ≤ bound → Concludes (s.outcomeWithin bound [first] second) := by
  intro natives s first second paren
  have hcompiles : ∀ u ∈ [first, second], Source.Compiles u := by
    refine List.forall_mem_cons.2 ⟨⟨?_, ?_, ?_⟩, List.forall_mem_singleton.2 ⟨?_, ?_, ?_⟩⟩
    all_goals decide +kernel
  have hloopless : ∀ u ∈ [first, second], Stmt.looplessAll (Source.program u) = true := by
    decide +kernel
  obtain ⟨hgrounded, hunits⟩ := loopless_units_end
  obtain ⟨enough, hends, -⟩ := hunits natives (hgrounded true .echoing) 2 false ⟨0, 0⟩
    [first, second] hcompiles hloopless
  refine ⟨by decide +kernel, by decide +kernel, enough, fun bound hbound => ?_⟩
  exact (hends bound hbound [first] second [] rfl).1

end Session

end TanLang
