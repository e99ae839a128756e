import TanLang.Session
import TanLang.Proofs.Parsing.Acceptance
import TanLang.Proofs.Scoping.Resolution
import TanLang.Proofs.Source.Words
/-!
# Sessions — units that compile

A source compiles if scanning, parsing and resolving it leave nothing to
report. A session executes a unit only if it compiles, and then it executes
the program that resolution leaves; **a unit that does not compile leaves
everything but the record alone**.
-/

namespace TanLang

namespace Source

/-- The program that a source spells. -/
def program (src : Text) : Program Unit := Program.ofTokens (tokens src)

/-- The program that a source spells, with its distances. -/
def compiled (src : Text) : Program Address := (Scoping.resolve (program src)).value

/-- **Nothing is to be reported about a source** before it is executed. -/
structure Compiles (src : Text) : Prop where
  scanned : reports src = []
  parsed : Program.reports (tokens src) = []
  resolved : (Scoping.resolve (program src)).issues = []

/-- The reports on a source before it is executed. -/
def diagnostics (src : Text) : List Report :=
  reports src ++ Program.reports (tokens src) ++
    (Scoping.resolve (program src)).issues.map Scoping.Issue.report

variable {src : Text}

/-- Resolution can rely on what was parsed without a report. -/
theorem Compiles.core (h : Compiles src) : Stmt.CoreAll (program src) := by
  have hissues : (Program.read (tokens src)).issues = [] := List.map_eq_nil_iff.1 h.parsed
  have hahead : Grammar.Worded (Program.ahead (tokens src)) := fun t ht =>
    worded_tokens src t ((List.takeWhile_sublist _).subset ht)
  exact (Program.derived_of_read hissues).1.core hahead

/-- **The code of a unit that compiles fits at the top.** -/
theorem Compiles.fits {strict : Prop} (h : Compiles src)
    (horderly : strict → Stmt.orderlyAll (program src) = true) :
    Scoping.BodyFits strict [] (compiled src) :=
  Scoping.resolve_fits h.core horderly h.resolved

end Source

namespace Tally

/-- A report from before execution is on record once it was made. -/
theorem hadError_addAll (t : Tally) (reports : List Report) :
    (t.addAll .compile reports).hadError = (t.hadError || !reports.isEmpty) := by
  unfold addAll
  induction reports generalizing t with
  | nil => simp
  | cons r rest ih =>
    rw [List.foldl_cons, ih]
    simp [add]

end Tally

namespace Session

/-- The machine of a session as a unit finds it: nothing printed yet. -/
def fresh (s : Session) : Machine := { s.machine with printed := [] }

/-- The session after a unit that is executed, and what the unit gives. -/
theorem execute_machine (s : Session) (bound : Nat) (source : Text) (p : Program Address)
    (earlier : List Event) :
    (s.execute bound source p earlier).1.machine =
      (Eval.interpret s.rules bound p s.fresh).machine := by
  unfold execute
  simp only
  split <;> rfl

/-- The source that reports are shown with while a unit runs. -/
def shown (s : Session) (src : Text) : Text := if s.showSource then src else []

/-- An event before execution: a report on the source, or a log record. -/
def Early (s : Session) (src : Text) : Event → Prop
  | .report r source => source = s.shown src ∧ r ∈ Source.diagnostics src
  | .log _ => True

theorem early_of_mem_reported (s : Session) (src : Text) {reports : List Report}
    (hreports : reports ⊆ Source.diagnostics src) :
    ∀ e ∈ reported (s.shown src) reports, s.Early src e := by
  intro e he
  obtain ⟨r, hr, rfl⟩ := List.mem_map.1 he
  exact ⟨rfl, hreports hr⟩

/-- **What running a unit comes to.** It is rejected and changes nothing but
the record, or it compiles and is executed. -/
theorem run_cases (s : Session) (src : Text) (bound : Nat) :
    (∃ tally u, s.run src bound = ({ s with tally := tally }, u) ∧
      ∀ e ∈ u.events, s.Early src e) ∨
    (Source.Compiles src ∧ ∃ earlier,
      s.run src bound = s.execute bound (s.shown src) (Source.compiled src) earlier ∧
        ∀ e ∈ earlier, s.Early src e) := by
  have hparsing := early_of_mem_reported s src (List.subset_append_left
    (Source.reports src ++ Program.reports (Source.tokens src)) _)
  have hresolving := early_of_mem_reported s src (List.subset_append_right
    (Source.reports src ++ Program.reports (Source.tokens src)) _)
  unfold run
  simp only
  split
  · refine .inl ⟨_, _, rfl, fun e he => ?_⟩
    simp only [List.mem_append, List.mem_singleton] at he
    rcases he with (he | rfl) | rfl
    · exact hparsing e he
    · trivial
    · trivial
  · rename_i hparsed
    split
    · refine .inl ⟨_, _, rfl, fun e he => ?_⟩
      simp only [List.mem_append, List.mem_singleton] at he
      rcases he with (((he | rfl) | he) | rfl) | rfl
      · exact hparsing e he
      · trivial
      · exact hresolving e he
      · trivial
      · trivial
    · rename_i hresolved
      simp only [Tally.hadError_addAll, Bool.or_eq_true, Bool.not_eq_true', not_or,
        Bool.not_eq_true, List.isEmpty_iff, List.append_eq_nil_iff, List.map_eq_nil_iff,
        Bool.not_eq_false] at hparsed hresolved
      have hsrc : Source.Compiles src := ⟨hparsed.2.1, hparsed.2.2, hresolved.2⟩
      -- there was nothing to report, so the record is as it was
      simp only [hparsed.2, hresolved.2, List.map_nil, List.append_nil, Tally.addAll,
        List.foldl_nil]
      refine .inr ⟨hsrc, _, rfl, fun e he => ?_⟩
      simp only [reported, List.map_nil, List.nil_append, List.mem_append, List.mem_singleton,
        List.not_mem_nil, or_false] at he
      rcases he with rfl | rfl <;> trivial

/-- **A unit changes the machine only if it compiles**, and then as the
program it spells does. -/
theorem run_machine (s : Session) (src : Text) (bound : Nat) :
    (s.run src bound).1.machine = s.machine ∨
      (Source.Compiles src ∧ (s.run src bound).1.machine =
        (Eval.interpret s.rules bound (Source.compiled src) s.fresh).machine) := by
  rcases s.run_cases src bound with ⟨tally, u, hrun, -⟩ | ⟨hsrc, earlier, hrun, -⟩
  · rw [hrun]
    exact .inl rfl
  · rw [hrun]
    exact .inr ⟨hsrc, execute_machine _ _ _ _ _⟩

/-- Closing the databases changes only what the natives keep. -/
theorem close_machine (s : Session) (drivers : Drivers) :
    ∃ r, (s.close drivers).1.machine = s.machine.keep r :=
  ⟨_, rfl⟩

/-- **The sessions that come about** with the natives given: any units run
within any bounds, and the record cleared and the databases closed at any
time. -/
inductive Reachable (natives : List Native) : Session → Prop where
  | start (maxDepth : Int) (showSource : Bool) (clock : Clock) :
      Reachable natives (ofNatives maxDepth natives showSource clock)
  | run {s : Session} (h : Reachable natives s) (src : Text) (bound : Nat) :
      Reachable natives (s.run src bound).1
  | reset {s : Session} (h : Reachable natives s) : Reachable natives s.reset
  | close {s : Session} (h : Reachable natives s) (drivers : Drivers) :
      Reachable natives (s.close drivers).1

end Session

end TanLang
