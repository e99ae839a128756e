import TanLang.Proofs.Evaluation.Conduct
import TanLang.Proofs.Session.Compiled
/-!
# Sessions — where the code in the heap comes from

The functions and classes of a session are those of the units it has run. So
**whatever goes wrong while a unit runs is reported at a token of that unit or
of one before it**, for a unit can call what an earlier one has left.
-/

namespace TanLang

open Eval

/-- The marks of a unit that compiles are tokens of its source. -/
theorem Source.Compiles.marks {src : Text} (h : Compiles src) :
    ∀ k ∈ Stmt.marksAll (compiled src), k.From (tokens src) := by
  have hissues : (Program.read (tokens src)).issues = [] := List.map_eq_nil_iff.1 h.parsed
  have hderived := (Program.derived_of_read hissues).1.marksFrom
  have hmarks : Stmt.marksAll (compiled src) =
      Stmt.marksAll (Program.read (tokens src)).program := by
    rw [compiled, Scoping.marks_resolve, program, Program.ofTokens, Stmt.marks_desugarAll]
  intro k hk
  rw [hmarks] at hk
  exact (hderived k hk).mono (List.takeWhile_sublist _).subset

/-- A known mark that stands in one of the units. -/
def Mark.Spelled (units : List Text) (k : Mark) : Prop := ∃ u ∈ units, k.From (Source.tokens u)

theorem Mark.Spelled.cons {units : List Text} {k : Mark} (h : k.Spelled units) (src : Text) :
    k.Spelled (src :: units) := by
  obtain ⟨u, hu, hk⟩ := h
  exact ⟨u, List.mem_cons_of_mem src hu, hk⟩

/-- An error is reported at a mark. -/
theorem Eval.Raisable.exists_mark {P : Mark → Prop} {natives : Array Native}
    {error : RuntimeError} (h : Raisable P natives error) : ∃ k, P k ∧ k.token = error.token := by
  cases h with
  | sign hmark | operator hmark | undefinedVariable hmark | superclassNotClass hmark
  | undefinedProperty hmark | noProperties hmark | noFields hmark | notCallable hmark
  | wrongArity hmark | stackOverflow hmark | native hmark => exact ⟨_, hmark, rfl⟩

/-- An error is reported at a token of the units. -/
theorem Eval.Raisable.spelled {units : List Text} {natives : Array Native} {error : RuntimeError}
    (h : Raisable (Mark.Spelled units) natives error) :
    ∃ u ∈ units, error.token ∈ Source.tokens u := by
  obtain ⟨k, ⟨u, hu, hk⟩, htoken⟩ := h.exists_mark
  exact ⟨u, hu, htoken ▸ hk.mem⟩

/-- Installing natives adds no code. -/
theorem Machine.install_heap (added : List Native) (h : Heap) :
    (install h added).functions = h.functions ∧ (install h added).classes = h.classes := by
  induction added generalizing h with
  | nil => exact ⟨rfl, rfl⟩
  | cons first rest ih =>
    exact ih ((h.newNative first).1.define globals first.name (.native (h.newNative first).2))

/-- A machine starts without code. -/
theorem Machine.marked_start (P : Mark → Prop) (natives : List Native) :
    (start natives).heap.Marked P := by
  obtain ⟨hfunctions, hclasses⟩ := install_heap natives (Heap.newScope {} none).1
  have hempty : (Heap.newScope {} none).1.Marked P :=
    ⟨fun _ _ hf => (nomatch hf), fun _ _ _ _ hc => (nomatch hc)⟩
  exact hempty.of_eq hfunctions hclasses

namespace Session

variable {natives : List Native} {units : List Text} {s : Session} {src : Text}

/-- **The units that a session has run**, the last one first, those that did
not compile included. -/
inductive History (natives : List Native) : List Text → Session → Prop where
  | start (maxDepth : Int) (showSource : Bool) (clock : Clock) :
      History natives [] (ofNatives maxDepth natives showSource clock)
  | run {units : List Text} {s : Session} (h : History natives units s) (src : Text)
      (bound : Nat) : History natives (src :: units) (s.run src bound).1
  | reset {units : List Text} {s : Session} (h : History natives units s) :
      History natives units s.reset
  | close {units : List Text} {s : Session} (h : History natives units s) (drivers : Drivers) :
      History natives units (s.close drivers).1

theorem Reachable.exists_history (h : Reachable natives s) :
    ∃ units, History natives units s := by
  induction h with
  | start maxDepth showSource clock => exact ⟨[], .start maxDepth showSource clock⟩
  | run _ src bound ih =>
    obtain ⟨units, hunits⟩ := ih
    exact ⟨src :: units, hunits.run src bound⟩
  | reset _ ih =>
    obtain ⟨units, hunits⟩ := ih
    exact ⟨units, hunits.reset⟩
  | close _ drivers ih =>
    obtain ⟨units, hunits⟩ := ih
    exact ⟨units, hunits.close drivers⟩

/-- **A property that the code of a unit has from when the unit is run**,
whichever units were run before and are run later. -/
structure Lasting (P : List Text → Mark → Prop) : Prop where
  new : ∀ units src, Source.Compiles src → ∀ k ∈ Stmt.marksAll (Source.compiled src),
    P (src :: units) k
  later : ∀ units src k, P units k → P (src :: units) k

/-- To be spelled in the units is such a property. -/
theorem lasting_spelled : Lasting Mark.Spelled where
  new _ src hsrc k hk := ⟨src, List.mem_cons_self, hsrc.marks k hk⟩
  later _ src _ hk := hk.cons src

section

variable {P : List Text → Mark → Prop} (hP : Lasting P)
include hP

/-- A unit behaves where the code is from units before it, and so does not
touch the natives and leaves code from it and from them. -/
theorem Lasting.behaved (hmarked : s.machine.heap.Marked (P units))
    (hsrc : Source.Compiles src) (bound : Nat) :
    Behaved (P (src :: units)) s.fresh Whatever
      (interpret s.rules bound (Source.compiled src) s.fresh) :=
  interpret_behaves (hP.new units src hsrc) s.fresh (hmarked.imp (hP.later units src))

/-- What lasts is true of the code in the heap. -/
theorem Lasting.marked (h : History natives units s) : s.machine.heap.Marked (P units) := by
  induction h with
  | start => exact Machine.marked_start _ _
  | @run units s _ src bound ih =>
    rcases s.run_machine src bound with hsame | ⟨hsrc, hrun⟩
    · rw [hsame]
      exact ih.imp (hP.later units src)
    · rw [hrun]
      exact (hP.behaved ih hsrc _).leaves.marked
  | reset _ ih => exact ih
  | close _ drivers ih =>
    obtain ⟨r, hkept⟩ := close_machine _ drivers
    rw [hkept]
    exact ih.of_eq rfl rfl

/-- And so of the marks that a runtime error is reported at. -/
theorem Lasting.raisable (h : History natives units s) (hsrc : Source.Compiles src) {bound : Nat}
    {error : RuntimeError} {m : Machine}
    (hraised : interpret s.rules bound (Source.compiled src) s.fresh = .raised error m) :
    Raisable (P (src :: units)) s.machine.heap.natives error := by
  have hbehaved := hP.behaved (hP.marked h) hsrc bound
  rw [hraised] at hbehaved
  exact hbehaved.2

end

/-- **A runtime error of a unit** points at a token of the units so far. -/
theorem History.raisable (h : History natives units s) (hsrc : Source.Compiles src) {bound : Nat}
    {error : RuntimeError} {m : Machine}
    (hraised : interpret s.rules bound (Source.compiled src) s.fresh = .raised error m) :
    Raisable (Mark.Spelled (src :: units)) s.machine.heap.natives error :=
  lasting_spelled.raisable h hsrc hraised

end Session

end TanLang
