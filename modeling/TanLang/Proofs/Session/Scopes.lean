import TanLang.Proofs.Evaluation.Addressing
import TanLang.Proofs.Session.Compiled
/-!
# Sessions — resolution and evaluation agree on scopes

The machine of a session is sound whenever a unit starts: at the beginning
there are only the globals, and every unit keeps it so, also one that ends
in a runtime error. So at every moment of every unit that compiles, a use of
a name with a distance finds what resolution promised.

For a program that mentions no local name before its declaration the
distances can also be forgotten: following the enclosing scopes at every use
comes to the same.
-/

namespace TanLang

open Scoping

namespace Eval

variable {strict : Prop} {L : Ledger} {m m' : Machine} {rules : Rules} {bound : Nat}
variable {p : Program Address} {t : Task}

/-- A name bound in the globals keeps a heap sound. -/
theorem Sound.define_globals {h : Heap} (hsound : Sound strict L h) (x : Text) (v : Value) :
    Sound strict L (h.define Machine.globals x v) := by
  have hleads := leads_define hsound .globals (x := x) nofun v
  exact hleads.sound

/-- **The heap is sound before any program has run.** -/
theorem sound_start (natives : List Native) (L : Ledger) :
    Sound strict L (Machine.start natives).heap := by
  have hinstall : ∀ (natives : List Native) (h : Heap), Sound strict L h →
      Sound strict L (Machine.install h natives) := by
    intro natives
    induction natives with
    | nil => exact fun _ h => h
    | cons native rest ih =>
      intro h hsound
      have hnative : Sound strict L (h.newNative native).1 := hsound.of_eq rfl rfl rfl
      exact ih _ (hnative.define_globals _ _)
  refine hinstall natives _ ⟨⟨⟨.empty, none⟩, rfl, rfl⟩, ?_, ?_, ?_⟩
  · intro s scope x hs houter hx
    rw [Heap.scope?_newScope] at hs
    split at hs
    · cases hs
      cases hx
    · cases hs
  · intro f fn hf
    cases hf
  · intro c cls name fn hc
    cases hc

/-- A machine between two statements of a program: its heap is sound and the
globals are active. -/
structure Ready (strict : Prop) (L : Ledger) (m : Machine) : Prop where
  sound : Sound strict L m.heap
  active : m.active = Machine.globals

theorem Ready.stands (h : Ready strict L m) : Stands L m.heap [] m.active := by
  rw [h.active]
  exact .globals

theorem Ready.kept {L' : Ledger} (h : Ready strict L m) (hkept : Kept strict L m L' m') :
    Ready strict L' m' :=
  ⟨hkept.sound, hkept.active.trans h.active⟩

/-- What is declared outside every scope is not followed: the rest of a
program fits where its first statement does. -/
theorem fits_cons_nil {s : Stmt Address} {rest : Program Address}
    (h : BodyFits strict [] (s :: rest)) : StmtFits strict [] s ∧ BodyFits strict [] rest := by
  obtain ⟨hs, hrest⟩ := h
  rw [Context.after_eq_nil rfl] at hrest
  exact ⟨hs, hrest⟩

/-- **A statement leaves the machine ready for the next one.** -/
theorem Ready.of_execute {s : Stmt Address} {c : Completion} (h : Ready strict L m)
    (hrules : rules.addressing = .distance) (hs : StmtFits strict [] s)
    (hdone : execute rules bound s m = .done c m') : ∃ L', Ready strict L' m' := by
  have hkeeps := (preserves hrules bound).execute h.sound h.stands hs
  obtain ⟨L', hkept, -⟩ := hkeeps.of_eq_done hdone
  exact ⟨L', h.kept hkept⟩

/-- **A program keeps the heap sound** and does not crash. -/
theorem interpret_keeps (hrules : rules.addressing = .distance) (hready : Ready strict L m)
    (hfits : BodyFits strict [] p) : Keeps strict L (interpret rules bound p) m Any := by
  induction p generalizing L m with
  | nil => exact .pure hready.sound trivial
  | cons s rest ih =>
    obtain ⟨hs, hrest⟩ := fits_cons_nil hfits
    refine ((preserves hrules bound).execute hready.sound hready.stands hs).bind
      (f := fun _ => interpret rules bound rest) fun c L' m' hkept _ => ?_
    exact ih (hready.kept hkept) hrest

/-- **Whatever a program reaches fits where it is reached.** -/
theorem During.runs (hrules : rules.addressing = .distance)
    (hduring : During rules bound p m t m') (hready : Ready strict L m)
    (hfits : BodyFits strict [] p) : t.Runs strict m' := by
  induction hduring generalizing L with
  | first hreach =>
    exact hreach.runs hrules ⟨L, hready.sound, [], hready.stands, hfits.1⟩
  | @next s rest m c m₁ t m' hdone _ ih =>
    obtain ⟨hs, hrest⟩ := fits_cons_nil hfits
    obtain ⟨L', hready'⟩ := hready.of_execute hrules hs hdone
    exact ih hready' hrest

/-- **A program in order comes to the same along the chain.** -/
theorem interpret_chain_eq {rules' : Rules} (hdepth : rules'.maxDepth = rules.maxDepth)
    (hclock : rules'.clock = rules.clock) (hrules : rules.addressing = .distance)
    (hrules' : rules'.addressing = .chain) (hready : Ready True L m)
    (hfits : BodyFits True [] p) : interpret rules' bound p m = interpret rules bound p m := by
  induction p generalizing L m with
  | nil => rfl
  | cons s rest ih =>
    obtain ⟨hs, hrest⟩ := fits_cons_nil hfits
    -- no task that the first statement reaches tells the two lookups apart
    have hruns : Task.Runs True (.execute s) m := ⟨L, hready.sound, [], hready.stands, hs⟩
    have hfirst : execute rules' bound s m = execute rules bound s m :=
      Task.sameResult (t := .execute s) hdepth hclock fun t' m' hreach =>
        (hreach.runs hrules hruns).samePlace hrules hrules'
    -- and the rest starts from the one machine that both come to
    show (execute rules' bound s >>= fun _ => interpret rules' bound rest) m =
      (execute rules bound s >>= fun _ => interpret rules bound rest) m
    refine bind_congr_at hfirst fun c m' hdone => ?_
    obtain ⟨L', hready'⟩ := hready.of_execute hrules hs hdone
    exact ih hready' hrest

end Eval

namespace Session

open Eval

variable {natives : List Native} {s : Session}

/-- **Between units the machine is ready**, also after a unit that failed. -/
theorem Reachable.ready (h : Reachable natives s) : ∃ L, Ready False L s.machine := by
  induction h with
  | start => exact ⟨fun _ _ => True, sound_start _ _, rfl⟩
  | @run s _ src bound ih =>
    obtain ⟨L, hready⟩ := ih
    rcases run_machine s src bound with hsame | ⟨hcompiles, hran⟩
    · rw [hsame]
      exact ⟨L, hready⟩
    · rw [hran]
      -- a new unit only empties the output, which is nothing to the heap
      have hfresh : Ready False L s.fresh := ⟨hready.sound, hready.active⟩
      have hkeeps : Keeps False L
          (interpret s.rules bound (Source.compiled src)) s.fresh Any :=
        interpret_keeps rfl hfresh (hcompiles.fits False.elim)
      obtain ⟨L', hkept⟩ := hkeeps.kept
      exact ⟨L', hfresh.kept hkept⟩
  | reset _ ih => exact ih
  | close _ drivers ih =>
    obtain ⟨L, hready⟩ := ih
    exact ⟨L, hready.sound.of_eq rfl rfl rfl, hready.active⟩

/-- **Resolution and evaluation agree on scopes.** In a session that has any
natives and has run any units, take a unit that compiles, and any bound on
its recursion. At every moment of its execution, a name that is read by a
distance is bound in the scope so many scopes out, a name that is assigned
to by a distance finds a scope there, and a call that sets up an instance
finds `this`. Nothing that is needed is ever missing. -/
theorem scopes_agree (hs : Reachable natives s) {src : Text}
    (hsrc : Source.Compiles src) (bound : Nat) :
    (∀ t m, During s.rules bound (Source.compiled src) s.fresh t m →
      (∀ name d, t = .evaluate (.var name (some d)) ∨ t = .evaluate (.receiver name (some d)) ∨
          t = .read name (some d) →
        ∃ scope, m.heap.ancestor m.active d = some scope ∧
          (m.heap.boundIn scope name.lexeme).isSome = true) ∧
      (∀ name d value v, t = .evaluate (.assign name (some d) value) ∨
          t = .write name (some d) v →
        ∃ scope, m.heap.ancestor m.active d = some scope ∧
          (m.heap.scope? scope).isSome = true) ∧
      (∀ f c, t = .leaveCall f c → f.isInit = true →
        (m.heap.boundIn f.closure thisName).isSome = true)) ∧
    ∀ m, interpret s.rules bound (Source.compiled src) s.fresh ≠ .crashed m := by
  obtain ⟨L, hready⟩ := hs.ready
  have hfits : BodyFits False [] (Source.compiled src) := hsrc.fits False.elim
  have hfresh : Ready False L s.fresh := ⟨hready.sound, hready.active⟩
  refine ⟨fun t m hduring => ?_, (interpret_keeps rfl hfresh hfits).not_crashed⟩
  obtain ⟨L', -, hruns⟩ := hduring.runs rfl hfresh hfits
  refine ⟨?_, ?_, ?_⟩
  · rintro name d (rfl | rfl | rfl)
    all_goals
      obtain ⟨Γ, hstands, hreads⟩ := hruns
      exact hstands.bound_of_reads hreads rfl
  · rintro name d value v (rfl | rfl)
    · obtain ⟨Γ, hstands, hwrites, -⟩ := hruns
      obtain ⟨scope, hscope, hexists, -⟩ := hstands.scope_of_writes hwrites rfl
      exact ⟨scope, hscope, hexists⟩
    · obtain ⟨Γ, hstands, hwrites⟩ := hruns
      obtain ⟨scope, hscope, hexists, -⟩ := hstands.scope_of_writes hwrites rfl
      exact ⟨scope, hscope, hexists⟩
  · rintro f c rfl hinit
    obtain ⟨-, Γ, -, -, hthis⟩ := hruns
    exact hthis hinit

/-- A block that declares a name and prints it: the moment at which it is
read. -/
theorem scopes_agree_block :
    let s := Session.start 0 false false ⟨0, 0⟩
    let src := Text.ofString "\x7bvar a;print a;\x7d"
    let name : Token := ⟨.identifier, Text.ofString "a", .nil, 1⟩
    ∃ m, During s.rules 6 (Source.compiled src) s.fresh (.read name (some 0)) m ∧
      ∃ scope, m.heap.ancestor m.active 0 = some scope ∧
        (m.heap.boundIn scope name.lexeme).isSome = true := by
  intro s src name
  have hcompiles : Source.Compiles src := ⟨by decide, by decide, by decide⟩
  have hagree := scopes_agree (s := s) (.start 0 false ⟨0, 0⟩) hcompiles 6
  have hreach : During s.rules 6 (Source.compiled src) s.fresh (.read name (some 0)) _ :=
    .first (.call .block (.call (.restStmts rfl)
      (.call .firstStmt (.call .print (.call .var .here)))))
  exact ⟨_, hreach, (hagree.1 _ _ hreach).1 name 0 (.inr (.inr rfl))⟩

/-! ## Without distances -/

/-- **The distances can be forgotten in a program in order.** A program that
compiles, and in which no local scope mentions a name before it declares it,
ends in the same machine and with the same answer or error if every use of a
name follows the enclosing scopes instead. -/
theorem chain_eq_distance (maxDepth : Int) (natives : List Native) (showSource : Bool)
    (clock : Clock) {src : Text} (hsrc : Source.Compiles src)
    (horderly : Stmt.orderlyAll (Source.program src) = true) (bound : Nat) :
    let s := Session.ofNatives maxDepth natives showSource clock
    interpret { s.rules with addressing := .chain } bound (Source.compiled src) s.fresh =
      interpret s.rules bound (Source.compiled src) s.fresh := by
  intro s
  have hready : Ready True (fun _ _ => True) s.fresh := ⟨sound_start _ _, rfl⟩
  exact interpret_chain_eq rfl rfl rfl rfl hready (hsrc.fits fun _ => horderly)

/-- A function that reads a variable of the block around it. -/
theorem chain_eq_distance_closure :
    let s := Session.start 0 false false ⟨0, 0⟩
    let src := Text.ofString "\x7bvar a=\"x\";function f()\x7breturn a;\x7dprint f();\x7d"
    let outcome := interpret { s.rules with addressing := .chain } 20 (Source.compiled src) s.fresh
    outcome = interpret s.rules 20 (Source.compiled src) s.fresh ∧
      outcome.machine.output = Text.ofString "x\n" := by
  intro s src outcome
  have hcompiles : Source.Compiles src :=
    ⟨by decide +kernel, by decide +kernel, by decide +kernel⟩
  refine ⟨chain_eq_distance 0 _ false ⟨0, 0⟩ hcompiles (by decide +kernel) 20, ?_⟩
  decide +kernel

/-- **The order matters.** A function that reads a global from a block that
declares the name after it goes on reading the global by its distance, and
finds the new variable along the chain. -/
example :
    let s := Session.start 0 false false ⟨0, 0⟩
    let src := Text.ofString
      "var a=\"g\";\x7bfunction f()\x7bprint a;\x7dvar a=\"b\";f();\x7d"
    let p := Source.compiled src
    (interpret s.rules 20 p s.fresh).machine.output = Text.ofString "g\n" ∧
      (interpret { s.rules with addressing := .chain } 20 p s.fresh).machine.output =
        Text.ofString "b\n" := by
  decide +kernel

end Session

end TanLang
