import TanLang.Proofs.Session.Excerpts
import TanLang.Proofs.Session.Units
/-!
# Sessions — units that are rejected

A unit is rejected if a compile error is on record already or if its own
source does not compile. A rejected unit prints nothing and leaves
everything but the record alone, and the prompt clears the record behind
every unit. So **units that do not compile can be left out of a dialogue**:
what the others print, come to and report stays the same.
-/

namespace TanLang

namespace Source

variable {src : Text}

theorem not_compiles_iff : ¬ Compiles src ↔ reports src ≠ [] ∨
    Program.reports (tokens src) ≠ [] ∨ (Scoping.resolve (program src)).issues ≠ [] := by
  have hall : Compiles src ↔ reports src = [] ∧
      Program.reports (tokens src) = [] ∧ (Scoping.resolve (program src)).issues = [] :=
    ⟨fun h => ⟨h.scanned, h.parsed, h.resolved⟩, fun h => ⟨h.1, h.2.1, h.2.2⟩⟩
  rw [hall, Classical.not_and_iff_not_or_not, Classical.not_and_iff_not_or_not]

/-- The reports of scanning and parsing. -/
def parsingReports (src : Text) : List Report := reports src ++ Program.reports (tokens src)

end Source

/-- What can be seen of a unit: what it prints, what it comes to, and the
reports on it as printed. -/
def UnitRun.seen (u : UnitRun) : Text × Status × Text := (u.output, u.status, u.diagnostics)

namespace Session

variable {s : Session} {src : Text}

/-! ## One rejected unit -/

/-- What is reported on a unit that is rejected. It is resolved only if
nothing was on record once it was parsed. -/
def refusal (s : Session) (src : Text) : List Report :=
  if s.tally.hadError || !(Source.parsingReports src).isEmpty then Source.parsingReports src
  else (Scoping.resolve (Source.program src)).issues.map Scoping.Issue.report

theorem filterMap_reported (source : Text) (reports : List Report) :
    (reported source reports).filterMap Event.report? = reports := by
  unfold reported
  rw [List.filterMap_map]
  exact List.filterMap_some

/-- **A rejected unit**: it prints nothing, and only the record changes. -/
theorem run_rejected (h : s.tally.hadError = true ∨ ¬ Source.Compiles src)
    (bound : Nat := recursionBound) :
    (∃ tally, (s.run src bound).1 = { s with tally := tally }) ∧
      (s.run src bound).2.status = .compileError ∧ (s.run src bound).2.output = [] ∧
      (s.run src bound).2.reports = s.refusal src := by
  unfold run refusal Source.parsingReports
  simp only [Tally.hadError_addAll]
  split
  · -- the record is not clear once the unit is parsed
    refine ⟨⟨_, rfl⟩, rfl, rfl, ?_⟩
    unfold UnitRun.reports
    simp only [List.filterMap_append, filterMap_reported, rejection]
    exact List.append_nil _ |>.trans (List.append_nil _)
  · rename_i hparsed
    split
    · refine ⟨⟨_, rfl⟩, rfl, rfl, ?_⟩
      have hnone : Source.reports src ++ Program.reports (Source.tokens src) = [] := by
        simp only [Bool.or_eq_true, Bool.not_eq_true', not_or, Bool.not_eq_false,
          List.isEmpty_iff] at hparsed
        exact hparsed.2
      unfold UnitRun.reports
      simp only [List.filterMap_append, filterMap_reported, rejection, hnone]
      exact List.append_nil _ |>.trans (List.append_nil _)
    · -- it cannot have come to be executed
      rename_i hresolved
      simp only [Bool.or_eq_true, Bool.not_eq_true', not_or, Bool.not_eq_true, Bool.not_eq_false,
        List.isEmpty_iff, List.append_eq_nil_iff, List.map_eq_nil_iff] at hparsed hresolved
      rcases h with h | h
      · rw [hparsed.1] at h
        cases h
      · exact absurd ⟨hparsed.2.1, hparsed.2.2, hresolved.2⟩ h

theorem status_ne_compileError (e : Ending) : e.status ≠ .compileError := by
  cases e <;> exact nofun

/-- **Which units are rejected.** -/
theorem status_run_iff (s : Session) (src : Text) :
    (s.run src).2.status = .compileError ↔
      s.tally.hadError = true ∨ ¬ Source.Compiles src := by
  refine ⟨fun hstatus => ?_, fun h => (run_rejected h).2.1⟩
  rcases Bool.eq_false_or_eq_true s.tally.hadError with herror | hclear
  · exact .inl herror
  · refine .inr fun hsrc => ?_
    obtain ⟨-, -, -, -, hran, -⟩ := run_spec hclear hsrc
    exact status_ne_compileError _ (hran.symm.trans hstatus)

/-- **A unit changes nothing but the machine and the record.** -/
theorem reset_run (s : Session) (src : Text) :
    (s.run src).1.reset = { s.reset with machine := (s.run src).1.machine } := by
  rcases s.run_cases src recursionBound with ⟨tally, u, hrun, -⟩ | ⟨-, earlier, hrun, -⟩
  · rw [hrun]
    rfl
  · rw [hrun]
    unfold execute
    simp only
    split <;> rfl

/-! ## The record and what can be seen -/

theorem flatMap_reportText {source : Text} {events : List Event}
    (h : ∀ r shown, Event.report r shown ∈ events → shown = source) :
    events.flatMap Event.reportText =
      (events.filterMap Event.report?).flatMap (Report.render source) := by
  induction events with
  | nil => rfl
  | cons e rest ih =>
    have hrest := ih fun r shown hr => h r shown (List.mem_cons_of_mem _ hr)
    cases e with
    | report r shown =>
      obtain rfl := h r shown (List.mem_cons_self ..)
      rw [List.flatMap_cons, hrest]
      rfl
    | log r =>
      rw [List.flatMap_cons, hrest]
      rfl

/-- The reports on a unit are printed one after the other, each with lines
of the unit if the session shows the source. -/
theorem diagnostics_run (s : Session) (src : Text) :
    (s.run src).2.diagnostics = (s.run src).2.reports.flatMap (Report.render (s.shown src)) :=
  flatMap_reportText fun _ _ h => (report_of_mem_run h).1

/-- **The record matters only by the compile error on it**: what can be seen
of a unit, and all of the session after it but the record, is as with the
record cleared before. -/
theorem run_reset (hclear : s.tally.hadError = false) (src : Text) :
    (s.run src).2.seen = (s.reset.run src).2.seen ∧
      (s.run src).1.reset = (s.reset.run src).1.reset := by
  have hclear' : s.reset.tally.hadError = false := rfl
  unfold UnitRun.seen
  rw [diagnostics_run, diagnostics_run]
  by_cases hsrc : Source.Compiles src
  · obtain ⟨hmachine, -, houtput, -, hstatus, hreports⟩ := run_spec hclear hsrc
    obtain ⟨hmachine', -, houtput', -, hstatus', hreports'⟩ := run_spec hclear' hsrc
    rw [houtput, hstatus, hreports, houtput', hstatus', hreports']
    refine ⟨rfl, ?_⟩
    rw [reset_run, reset_run s.reset, hmachine, hmachine']
    rfl
  · obtain ⟨⟨tally, hs⟩, hstatus, houtput, hreports⟩ := run_rejected (s := s) (.inr hsrc)
    obtain ⟨⟨tally', hs'⟩, hstatus', houtput', hreports'⟩ := run_rejected (s := s.reset) (.inr hsrc)
    rw [houtput, hstatus, hreports, hs, houtput', hstatus', hreports', hs']
    refine ⟨?_, rfl⟩
    unfold refusal
    rw [hclear, hclear']
    rfl

end Session

namespace Prompt

open Session

/-! ## Dialogues -/

theorem runLines_reset {s : Session} (hclear : s.tally.hadError = false) (lines : List Text) :
    (runLines s lines).map UnitRun.seen = (runLines s.reset lines).map UnitRun.seen := by
  cases lines with
  | nil => rfl
  | cons line rest =>
    -- the record is cleared behind the first line, so from there on the sessions are the same
    obtain ⟨hseen, hnext⟩ := run_reset hclear line
    show (s.run line).2.seen :: (runLines (s.run line).1.reset rest).map UnitRun.seen =
      (s.reset.run line).2.seen :: (runLines (s.reset.run line).1.reset rest).map UnitRun.seen
    rw [hseen, hnext]

/-- The units of a dialogue, each marked in some way, with what they give. -/
def dialogue (s : Session) (units : List (Text × Bool)) : List ((Text × Bool) × UnitRun) :=
  units.zip (runLines s (units.map Prod.fst))

theorem dialogue_cons (s : Session) (unit : Text × Bool) (rest : List (Text × Bool)) :
    dialogue s (unit :: rest) =
      (unit, (s.run unit.1).2) :: dialogue (s.run unit.1).1.reset rest := rfl

/-- **Rejected units can be left out of a dialogue.** Each unit is marked to
be kept or not; if those not kept are rejected, the others alone look as they
do among all. -/
theorem seen_kept (units : List (Text × Bool)) :
    ∀ s : Session, s.tally.hadError = false →
      (∀ d ∈ dialogue s units, d.1.2 = false → d.2.status = .compileError) →
      (runLines s ((units.filter Prod.snd).map Prod.fst)).map UnitRun.seen =
        ((dialogue s units).filter fun d => d.1.2).map fun d => d.2.seen := by
  induction units with
  | nil => exact fun _ _ _ => rfl
  | cons unit rest ih =>
    intro s hclear hdropped
    obtain ⟨src, kept⟩ := unit
    rw [dialogue_cons] at hdropped ⊢
    have hrest := ih (s.run src).1.reset rfl fun d hd => hdropped d (List.mem_cons_of_mem _ hd)
    cases kept with
    | true =>
      show (s.run src).2.seen :: (runLines (s.run src).1.reset _).map UnitRun.seen = _
      rw [hrest]
      rfl
    | false =>
      have hstatus : (s.run src).2.status = .compileError :=
        hdropped _ (List.mem_cons_self ..) rfl
      -- the session behind the rejected unit is the one before it, but for the record
      obtain ⟨⟨tally, hs⟩, -⟩ := run_rejected ((status_run_iff s src).1 hstatus)
      have hsame : (s.run src).1.reset = s.reset := by
        rw [hs]
        rfl
      rw [hsame] at hrest ⊢
      exact (runLines_reset hclear _).trans hrest

end Prompt

namespace Session

open Prompt

/-- **A unit that does not compile has no effect.** In every session, a unit
comes to a compile error exactly if one is on record already, or scanning,
parsing or resolving reports something; it then prints nothing, and nothing
of the session changes but the record: not the globals, not any scope, object
or code in the heap, not the active scope, not the depth. And if no compile
error is on record, then in the dialogue that runs any units one after the
other and clears the record behind each, any units that come to a compile
error can be left out: what the others print, come to and report is the same. -/
theorem rejected_without_effect (s : Session) :
    (∀ src, ((s.run src).2.status = .compileError ↔ s.tally.hadError = true ∨
        Source.reports src ≠ [] ∨ Program.reports (Source.tokens src) ≠ [] ∨
        (Scoping.resolve (Program.ofTokens (Source.tokens src))).issues ≠ []) ∧
      ((s.run src).2.status = .compileError →
        (s.run src).2.output = [] ∧ (s.run src).1.machine = s.machine ∧
          ∃ tally, (s.run src).1 = { s with tally := tally })) ∧
    (s.tally.hadError = false → ∀ units : List (Text × Bool),
      (∀ d ∈ units.zip (runLines s (units.map Prod.fst)),
        d.1.2 = false → d.2.status = .compileError) →
      (runLines s ((units.filter Prod.snd).map Prod.fst)).map
          (fun u => (u.output, u.status, u.diagnostics)) =
        ((units.zip (runLines s (units.map Prod.fst))).filter fun d => d.1.2).map
          fun d => (d.2.output, d.2.status, d.2.diagnostics)) := by
  refine ⟨fun src => ⟨?_, fun hstatus => ?_⟩, fun hclear units hdropped => ?_⟩
  · rw [status_run_iff, Source.not_compiles_iff]
    rfl
  · obtain ⟨⟨tally, hs⟩, -, houtput, -⟩ := run_rejected ((status_run_iff s src).1 hstatus)
    refine ⟨houtput, ?_, tally, hs⟩
    rw [hs]
  · exact seen_kept units s hclear hdropped

/-- A unit with a stray character and one that reads a local in its own
initializer, left out between a declaration and its use. -/
theorem rejected_without_effect_dialogue :
    let s := Session.start 0 false false ⟨0, 0⟩
    let units := [(Text.ofString "var a = 1;", true), (Text.ofString "a = 2; @", false),
      (Text.ofString "\x7b var b = b; \x7d", false), (Text.ofString "print a;", true)]
    (s.run (Text.ofString "a = 2; @")).2.status = .compileError ∧
      (runLines s [Text.ofString "var a = 1;", Text.ofString "print a;"]).map
          (fun u => (u.output, u.status, u.diagnostics)) =
        ((units.zip (runLines s (units.map Prod.fst))).filter fun d => d.1.2).map
          (fun d => (d.2.output, d.2.status, d.2.diagnostics)) := by
  intro s units
  refine ⟨((rejected_without_effect s).1 _).1.2 (.inr (.inl (by decide +kernel))), ?_⟩
  exact (rejected_without_effect s).2 rfl units (by decide +kernel)

end Session

end TanLang
