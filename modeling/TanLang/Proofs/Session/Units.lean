import TanLang.Prompt
import TanLang.Proofs.Evaluation.Lines
import TanLang.Proofs.Parsing.Lines
import TanLang.Proofs.Scoping.Lines
import TanLang.Proofs.Session.Compiled
import TanLang.Proofs.Source.Seam
/-!
# Sessions — a program in one unit or in several

Sources that compile, put together with line ends between them, compile to
their programs one after the other, each on lines further down. Running
them as one unit or one by one therefore runs the same code; only the lines
in it differ, and what was printed is collected per unit. So **it makes no
difference how a program is split into units**, as long as all but the last
of them run to their end: the same is printed, the globals are the same, and
the last unit comes to the same, with the same error if there is one.
-/

namespace TanLang

/-! ## Sources with line ends between them -/

namespace Source

/-- **Two sources that compile, with a line end between them.** -/
theorem Compiles.seam {a b : Text} (hnul : 0 ∉ a) (ha : Compiles a) (hb : Compiles b) :
    Compiles (a ++ Text.newline :: b) ∧ ∃ k : Int,
      compiled (a ++ Text.newline :: b) = compiled a ++ Stmt.relineAll (· + k) (compiled b) := by
  obtain ⟨k, hahead, hreports⟩ := tokens_seam b hnul ha.scanned
  have hread := Program.read_append hahead (List.map_eq_nil_iff.1 ha.parsed)
    (List.map_eq_nil_iff.1 hb.parsed)
  have hprogram : program (a ++ Text.newline :: b) =
      program a ++ Stmt.relineAll (· + k) (program b) := by
    unfold program Program.ofTokens
    rw [hread, Stmt.desugarAll_append, Stmt.relineAll_desugarAll]
  -- resolution starts over between statements at the top, where no scope is open
  obtain ⟨hissues, hvalue⟩ := Scoping.resolve_append (f := (· + k)) ha.core ha.resolved hb.resolved
  rw [← hprogram] at hissues hvalue
  refine ⟨⟨hreports hb.scanned, ?_, hissues⟩, k, hvalue⟩
  rw [Program.reports, hread]
  rfl

/-- **Sources that compile, put together with line ends**, compile to their
programs one after the other, but for the lines. -/
theorem compiles_join (us : List Text) (last : Text) (hnul : ∀ u ∈ us, 0 ∉ u)
    (hcompiles : ∀ u ∈ us ++ [last], Compiles u) :
    Compiles (Text.join [Text.newline] (us ++ [last])) ∧
      Stmt.relineAll anyLine (compiled (Text.join [Text.newline] (us ++ [last]))) =
        Stmt.relineAll anyLine ((us ++ [last]).flatMap compiled) := by
  induction us with
  | nil =>
    refine ⟨hcompiles last (List.mem_singleton_self _), ?_⟩
    simp only [List.nil_append, Text.join, List.flatMap_singleton]
  | cons u rest ih =>
    obtain ⟨hrest, hcode⟩ := ih (fun v hv => hnul v (List.mem_cons_of_mem _ hv))
      fun v hv => hcompiles v (List.mem_cons_of_mem _ hv)
    have hjoin : Text.join [Text.newline] (u :: rest ++ [last]) =
        u ++ Text.newline :: Text.join [Text.newline] (rest ++ [last]) := by
      cases rest with
      | nil => simp [Text.join]
      | cons v more => simp [Text.join]
    obtain ⟨hboth, k, hvalue⟩ := Compiles.seam (hnul u (List.mem_cons_self ..))
      (hcompiles u (List.mem_cons_self ..)) hrest
    rw [hjoin]
    refine ⟨hboth, ?_⟩
    rw [hvalue, Stmt.relineAll_append, Stmt.relineAll_relineAll, List.cons_append,
      List.flatMap_cons, Stmt.relineAll_append, ← hcode]
    rfl

end Source

/-! ## What a unit comes to -/

/-- The report on another line. -/
def Report.reline (f : Int → Int) (r : Report) : Report := { r with line := f r.line }

namespace Ending

/-- The ending with its error on another line. -/
def reline (f : Int → Int) : Ending → Ending
  | failed e => .failed (e.reline f)
  | ending => ending

/-- What a unit comes to that is executed. -/
def status : Ending → Status
  | finished => .ok
  | _ => .runtimeError

/-- What is reported of an execution. -/
def reports : Ending → List Report
  | failed e => [e.report]
  | _ => []

theorem status_reline (f : Int → Int) (e : Ending) : (e.reline f).status = e.status := by
  cases e <;> rfl

theorem reports_reline (f : Int → Int) (e : Ending) :
    (e.reline f).reports = e.reports.map (Report.reline f) := by
  cases e <;> rfl

end Ending

/-- The report of an event, if it is one. -/
def Event.report? : Event → Option Report
  | report r _ => some r
  | log _ => none

/-- The reports made on a unit. -/
def UnitRun.reports (u : UnitRun) : List Report := u.events.filterMap Event.report?

namespace Session

variable {s : Session} {src : Text}

/-- What the execution of a unit in a session comes to. -/
def outcome (s : Session) (src : Text) (bound : Nat := recursionBound) : Outcome Unit :=
  Eval.interpret s.rules bound (Source.compiled src) s.fresh

theorem endingOf_moved {α β : Type} (f : Int → Int) (earlier : List Text) (move : α → β)
    (o : Outcome α) : endingOf (o.moved f earlier move) = (endingOf o).reline f := by
  cases o <;> rfl

theorem machine_moved {α β : Type} (f : Int → Int) (earlier : List Text) (move : α → β)
    (o : Outcome α) : (o.moved f earlier move).machine = o.machine.moved f earlier := by
  cases o <;> rfl

/-- Nothing that is logged is a report. -/
theorem filterMap_report_log (records : List Log.Record) :
    (records.map Event.log).filterMap Event.report? = [] := by
  rw [List.filterMap_map]
  exact List.filterMap_eq_nil_iff.2 fun _ _ => rfl

theorem execute_spec (s : Session) (bound : Nat) (source : Text) (p : Program Address)
    (before : List Event) :
    let o := Eval.interpret s.rules bound p s.fresh
    let ran := s.execute bound source p before
    ran.2.output = o.machine.output ∧ ran.2.ending = endingOf o ∧
      ran.2.status = (endingOf o).status ∧
      ran.2.reports = before.filterMap Event.report? ++ (endingOf o).reports ∧
      ran.1.rules = s.rules := by
  intro o ran
  have ho : Eval.interpret s.rules bound p { s.machine with printed := [] } = o := rfl
  unfold ran execute UnitRun.reports
  simp only [ho]
  cases o
  all_goals
    refine ⟨rfl, rfl, rfl, ?_, rfl⟩
    simp only [endingOf, List.filterMap_append, List.filterMap_cons, filterMap_report_log,
      List.append_assoc]
    rfl

/-- **What running a unit gives that compiles**, in a session without a
compile error on record. -/
theorem run_spec (hclear : s.tally.hadError = false) (hsrc : Source.Compiles src)
    (bound : Nat := recursionBound) :
    let ran := s.run src bound
    ran.1.machine = (s.outcome src bound).machine ∧ ran.1.rules = s.rules ∧
      ran.2.output = (s.outcome src bound).machine.output ∧
      ran.2.ending = endingOf (s.outcome src bound) ∧
      ran.2.status = (endingOf (s.outcome src bound)).status ∧
      ran.2.reports = (endingOf (s.outcome src bound)).reports := by
  have hresolved : (Scoping.resolve (Program.ofTokens (Source.tokens src))).issues = [] :=
    hsrc.resolved
  unfold run
  simp only [hsrc.scanned, hsrc.parsed, hresolved, List.map_nil, List.append_nil, Tally.addAll,
    List.foldl_nil, hclear, Bool.false_eq_true, if_false]
  obtain ⟨houtput, hending, hstatus, hreports, hrules⟩ :=
    execute_spec s bound (if s.showSource = true then src else []) (Source.compiled src)
      (reported (if s.showSource = true then src else []) [] ++
        [.log ⟨"parsed program", [("statements", .int (Source.program src).length),
          ("tokens", .int (Program.tokenCount (Source.tokens src)))]⟩] ++
        reported (if s.showSource = true then src else []) [] ++
        [.log ⟨"resolved program", [("locals", .int (localCount (Source.compiled src)))]⟩])
  exact ⟨execute_machine _ _ _ _ _, hrules, houtput, hending, hstatus, hreports⟩

/-! ## Units one by one -/

/-- The text of lines, the last one first. -/
def linesText (printed : List Text) : Text :=
  printed.reverse.flatMap fun line => line ++ [Text.newline]

theorem linesText_append (later earlier : List Text) :
    linesText (later ++ earlier) = linesText earlier ++ linesText later := by
  unfold linesText
  rw [List.reverse_append, List.flatMap_append]

theorem output_eq (m : Machine) : m.output = linesText m.printed := rfl

/-- A unit that comes to `ok` ran to its end. -/
theorem outcome_of_ok (hclear : s.tally.hadError = false) (hsrc : Source.Compiles src)
    (hok : (s.run src).2.status = .ok) : ∃ m, s.outcome src = .done () m := by
  obtain ⟨-, -, -, -, hstatus, -⟩ := run_spec hclear hsrc
  rw [hstatus] at hok
  cases ho : s.outcome src with
  | done a m => exact ⟨m, rfl⟩
  | raised e m =>
    rw [ho] at hok
    cases hok
  | crashed m =>
    rw [ho] at hok
    cases hok
  | exhausted m =>
    rw [ho] at hok
    cases hok

end Session

namespace Prompt

/-- The session after lines run one after the other. -/
def after (s : Session) (us : List Text) : Session := us.foldl (fun s u => (step s u).1) s

theorem runLines_append (s : Session) (us : List Text) (last : Text) :
    runLines s (us ++ [last]) = runLines s us ++ [((after s us).run last).2] := by
  induction us generalizing s with
  | nil => rfl
  | cons u rest ih =>
    simp only [List.cons_append, runLines, ih]
    rfl

end Prompt

namespace Session

open Eval Prompt

/-- **One unit first.** The code of a unit that ran to its end, followed by
other code, does what the other code does in the session after the unit; but
for the lines, and with the unit's output before it. -/
theorem interpret_first {s : Session} {u : Text} {m : Machine} {p q : Program Address}
    (hfirst : s.outcome u = .done () m)
    (hcode : Stmt.relineAll anyLine p = Stmt.relineAll anyLine (Source.compiled u ++ q))
    (earlier : List Text) :
    (interpret s.rules recursionBound p s.fresh).moved anyLine earlier id =
      (interpret s.rules recursionBound q { m with printed := [] }).moved anyLine
        (m.printed ++ earlier) id := by
  -- the lines are forgotten in the code and in the heap, so that both sides agree
  have hu : interpret s.rules recursionBound (Stmt.relineAll anyLine (Source.compiled u))
      (s.fresh.moved anyLine earlier) = .done () (m.moved anyLine earlier) := by
    rw [interpret_echoes, show interpret s.rules recursionBound (Source.compiled u) s.fresh = _ from
      hfirst]
    rfl
  calc (interpret s.rules recursionBound p s.fresh).moved anyLine earlier id
      = interpret s.rules recursionBound (Stmt.relineAll anyLine p)
          (s.fresh.moved anyLine earlier) := (interpret_echoes _ _ _ _).symm
    _ = (interpret s.rules recursionBound (Stmt.relineAll anyLine (Source.compiled u)) >>=
          fun _ => interpret s.rules recursionBound (Stmt.relineAll anyLine q))
          (s.fresh.moved anyLine earlier) := by
        rw [hcode, Stmt.relineAll_append, interpret_append]
    _ = interpret s.rules recursionBound (Stmt.relineAll anyLine q)
          (m.moved anyLine earlier) := by
        change Action.andThen _ _ _ = _
        unfold Action.andThen
        rw [hu]
    _ = (interpret s.rules recursionBound q { m with printed := [] }).moved anyLine
          (m.printed ++ earlier) id := interpret_echoes _ _ _ { m with printed := [] }

/-- **Units in one and units one by one.** If all but the last run to their
end, the execution of all in one comes to what the execution of the last one
comes to after the others, but for the lines and with their output before. -/
theorem outcome_join (us : List Text) (last : Text) :
    ∀ (s : Session), s.tally.hadError = false → (∀ u ∈ us, 0 ∉ u) →
      (∀ u ∈ us ++ [last], Source.Compiles u) → (∀ r ∈ runLines s us, r.status = .ok) →
      (after s us).tally.hadError = false ∧ ∃ printed,
        linesText printed = (runLines s us).flatMap UnitRun.output ∧
        ∀ earlier, (s.outcome (Text.join [Text.newline] (us ++ [last]))).moved anyLine earlier id =
          ((after s us).outcome last).moved anyLine (printed ++ earlier) id := by
  induction us with
  | nil => exact fun s hclear _ _ _ => ⟨hclear, [], rfl, fun _ => rfl⟩
  | cons u rest ih =>
    intro s hclear hnul hcompiles hok
    have hu : Source.Compiles u := hcompiles u (List.mem_cons_self ..)
    obtain ⟨m, hfirst⟩ := outcome_of_ok hclear hu (hok (s.run u).2 (List.mem_cons_self ..))
    obtain ⟨hmachine, hrules, houtput, -⟩ := run_spec hclear hu
    rw [hfirst] at hmachine houtput
    -- the session in which the others run
    let next := (step s u).1
    have hfresh : next.fresh = { m with printed := [] } := by
      have hnext : next.machine = m := hmachine
      unfold Session.fresh
      rw [hnext]
    have hnextRules : next.rules = s.rules := hrules
    obtain ⟨hafter, printed, hprinted, hothers⟩ := ih next rfl
      (fun v hv => hnul v (List.mem_cons_of_mem _ hv))
      (fun v hv => hcompiles v (List.mem_cons_of_mem _ hv))
      fun r hr => hok r (List.mem_cons_of_mem _ hr)
    refine ⟨hafter, printed ++ m.printed, ?_, fun earlier => ?_⟩
    · show linesText (printed ++ m.printed) = (s.run u).2.output ++
        (runLines next rest).flatMap UnitRun.output
      rw [linesText_append, hprinted, houtput]
      rfl
    · -- the code of all in one is that of the first and then that of the others
      have hcode := (Source.compiles_join (u :: rest) last hnul hcompiles).2
      have hcode' := (Source.compiles_join rest last
        (fun v hv => hnul v (List.mem_cons_of_mem _ hv))
        fun v hv => hcompiles v (List.mem_cons_of_mem _ hv)).2
      have hsplit : Stmt.relineAll anyLine
            (Source.compiled (Text.join [Text.newline] (u :: rest ++ [last]))) =
          Stmt.relineAll anyLine (Source.compiled u ++
            Source.compiled (Text.join [Text.newline] (rest ++ [last]))) := by
        rw [hcode, Stmt.relineAll_append, hcode', ← Stmt.relineAll_append]
        rfl
      have hstep := interpret_first hfirst hsplit earlier
      have hnextOutcome : next.outcome (Text.join [Text.newline] (rest ++ [last])) =
          interpret s.rules recursionBound
            (Source.compiled (Text.join [Text.newline] (rest ++ [last])))
            { m with printed := [] } := by
        unfold outcome
        rw [hfresh, hnextRules]
      rw [← hnextOutcome, hothers, ← List.append_assoc] at hstep
      exact hstep

/-- **It makes no difference how a program is split into units.** Take any
session without a compile error on record, and sources without a NUL that
compile one by one. If all but the last run to their end when they are run
one after the other, with the record cleared in between, then all of them
run one by one print together what they print as one unit, with line ends
between them; the globals are the same and print the same; and the last unit
comes to the same as the one, with the same error and the same report if
there is one, but for the lines. -/
theorem run_join (s : Session) (hclear : s.tally.hadError = false) (us : List Text) (last : Text)
    (hnul : ∀ u ∈ us ++ [last], 0 ∉ u) (hcompiles : ∀ u ∈ us ++ [last], Source.Compiles u)
    (hok : ∀ r ∈ runLines s us, r.status = .ok) :
    let whole := s.run (Text.join [Text.newline] (us ++ [last]))
    let part := (after s us).run last
    runLines s (us ++ [last]) = runLines s us ++ [part.2] ∧
      whole.2.output = (runLines s (us ++ [last])).flatMap UnitRun.output ∧
      whole.1.globals = part.1.globals ∧
      (∀ v, whole.1.machine.heap.text v = part.1.machine.heap.text v) ∧
      whole.2.status = part.2.status ∧
      whole.2.ending.reline anyLine = part.2.ending.reline anyLine ∧
      whole.2.reports.map (Report.reline anyLine) = part.2.reports.map (Report.reline anyLine) := by
  intro whole part
  have hnul' : ∀ u ∈ us, 0 ∉ u := fun u hu => hnul u (List.mem_append_left _ hu)
  have hlast : Source.Compiles last :=
    hcompiles last (List.mem_append_right _ (List.mem_singleton_self _))
  obtain ⟨hafter, printed, hprinted, houtcomes⟩ :=
    outcome_join us last s hclear hnul' hcompiles hok
  have hsame := houtcomes []
  rw [List.append_nil] at hsame
  obtain ⟨hmachine, -, houtput, hending, hstatus, hreports⟩ :=
    run_spec hclear (Source.compiles_join us last hnul' hcompiles).1
  obtain ⟨hmachine', -, houtput', hending', hstatus', hreports'⟩ := run_spec hafter hlast
  -- the machines and the endings are the same, but for the lines
  have hmachines := congrArg Outcome.machine hsame
  rw [machine_moved, machine_moved, ← hmachine, ← hmachine'] at hmachines
  have hheaps : whole.1.machine.heap.reline anyLine = part.1.machine.heap.reline anyLine :=
    congrArg Machine.heap hmachines
  have hendings := congrArg endingOf hsame
  rw [endingOf_moved, endingOf_moved, ← hending, ← hending'] at hendings
  refine ⟨runLines_append s us last, ?_, ?_, ?_, ?_, hendings, ?_⟩
  · have hlines : whole.1.machine.printed ++ [] = part.1.machine.printed ++ printed :=
      congrArg Machine.printed hmachines
    rw [List.append_nil] at hlines
    rw [runLines_append, List.flatMap_append, List.flatMap_singleton, houtput, ← hmachine,
      houtput', ← hmachine', output_eq, output_eq, ← hprinted, ← linesText_append]
    exact congrArg linesText hlines
  · show whole.1.machine.heap.listing Machine.globals = part.1.machine.heap.listing Machine.globals
    rw [← Heap.listing_reline anyLine, hheaps, Heap.listing_reline]
  · intro v
    rw [← Heap.text_reline anyLine, hheaps, Heap.text_reline]
  · rw [hstatus, hstatus', ← Ending.status_reline anyLine, ← hending, hendings, hending',
      Ending.status_reline]
  · rw [hreports, hreports', ← Ending.reports_reline, ← hending, hendings, hending',
      Ending.reports_reline]

/-- A function declared in one unit and called in the next, which then stops
at a name that nothing binds. -/
theorem run_join_error :
    let s := Session.start 0 false false ⟨0, 0⟩
    let us := [Text.ofString "function f()\x7bprint \"a\";\x7d"]
    let last := Text.ofString "f();\nprint b;"
    let whole := s.run (Text.join [Text.newline] (us ++ [last]))
    (whole.2.output = (runLines s (us ++ [last])).flatMap UnitRun.output ∧
      whole.2.status = ((after s us).run last).2.status) ∧
      whole.2.output = Text.ofString "a\n" ∧ whole.2.status = .runtimeError := by
  have hcompiles : ∀ u ∈ [Text.ofString "function f()\x7bprint \"a\";\x7d"] ++
      [Text.ofString "f();\nprint b;"], Source.Compiles u := by
    intro u hu
    rcases List.mem_cons.1 hu with rfl | hu
    · exact ⟨by decide +kernel, by decide +kernel, by decide +kernel⟩
    · obtain rfl := List.mem_singleton.1 hu
      exact ⟨by decide +kernel, by decide +kernel, by decide +kernel⟩
  obtain ⟨-, houtput, -, -, hstatus, -⟩ :=
    run_join (Session.start 0 false false ⟨0, 0⟩) rfl _ _ (by decide +kernel) hcompiles
      (by decide +kernel)
  exact ⟨⟨houtput, hstatus⟩, by decide +kernel, by decide +kernel⟩

end Session

end TanLang
