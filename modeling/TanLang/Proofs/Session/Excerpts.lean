import TanLang.Proofs.Session.Provenance
/-!
# Sessions — the source that reports are shown with

Whatever is reported while a unit runs is shown with lines of that unit.
That is the source a report before execution is about, and the one a runtime
error is about unless it comes up in a function that an earlier unit has
left: **such an error is reported at a token of the earlier unit and shown
with lines of the later one.**
-/

namespace TanLang

open Eval

namespace Session

variable {s : Session} {src source : Text} {r : Report}

/-- An executed program adds the report of the error it ends in. -/
theorem report_of_mem_execute {bound : Nat} {p : Program Address} {earlier : List Event}
    (h : Event.report r source ∈ (s.execute bound src p earlier).2.events) :
    Event.report r source ∈ earlier ∨ source = src ∧
      ∃ error m, interpret s.rules bound p s.fresh = .raised error m ∧ r = error.report := by
  have hfresh : interpret s.rules bound p { s.machine with printed := [] } =
      interpret s.rules bound p s.fresh := rfl
  unfold execute at h
  simp only [hfresh] at h
  cases ho : interpret s.rules bound p s.fresh with
  | raised error m =>
    simp only [ho, endingOf, List.mem_append, List.mem_cons, List.mem_map, Event.report.injEq,
      reduceCtorEq, and_false, exists_false, List.not_mem_nil, or_false] at h
    rcases h with h | ⟨hr, hsource⟩
    · exact .inl h
    · exact .inr ⟨hsource, error, m, rfl, hr⟩
  | _ =>
    simp only [ho, endingOf, List.mem_append, List.mem_cons, List.mem_map, reduceCtorEq,
      and_false, exists_false, List.not_mem_nil, or_false] at h
    exact .inl h

/-- **What is reported while a unit runs**: what is wrong with its source, or
the runtime error it ends in; and the source it is shown with. -/
theorem report_of_mem_run {bound : Nat} (h : Event.report r source ∈ (s.run src bound).2.events) :
    source = s.shown src ∧ (r ∈ Source.diagnostics src ∨
      Source.Compiles src ∧ ∃ error m, r = error.report ∧
        interpret s.rules bound (Source.compiled src) s.fresh = .raised error m) := by
  rcases s.run_cases src bound with ⟨tally, u, hrun, hearly⟩ | ⟨hsrc, earlier, hrun, hearly⟩
  · rw [hrun] at h
    obtain ⟨hsource, hr⟩ := hearly _ h
    exact ⟨hsource, .inl hr⟩
  · rw [hrun] at h
    rcases report_of_mem_execute h with h | ⟨hsource, error, m, hraised, hr⟩
    · obtain ⟨hsource, hr⟩ := hearly _ h
      exact ⟨hsource, .inl hr⟩
    · exact ⟨hsource, .inr ⟨hsrc, error, m, hr, hraised⟩⟩

/-- Nothing is reported about an empty source, and nothing of it fails. -/
theorem ne_nil_of_mem_run {bound : Nat}
    (h : Event.report r source ∈ (s.run src bound).2.events) : src ≠ [] := by
  rintro rfl
  obtain ⟨-, hr | ⟨-, error, m, -, hraised⟩⟩ := report_of_mem_run h
  · have hnone : Source.diagnostics [] = [] := by decide +kernel
    rw [hnone] at hr
    cases hr
  · have hempty : Source.compiled [] = [] := by decide +kernel
    rw [hempty] at hraised
    cases hraised

/-- **Reports are shown with the unit that runs.** In a session that has run
some units and shows the source, whatever is reported while a unit runs is
followed by the lines of this unit around the line of the report. It is
something wrong with the source of the unit, or a runtime error at a token
of the unit or of one before it. -/
theorem excerpt_of_running_unit {natives : List Native} {units : List Text}
    (hs : History natives units s) (hshow : s.showSource = true) {bound : Nat}
    (h : Event.report r source ∈ (s.run src bound).2.events) :
    (Event.report r source).reportText = r.headline ++ Text.excerpt src r.line ∧
      (r ∈ Source.diagnostics src ∨
        ∃ error : RuntimeError, r = error.report ∧
          ∃ u ∈ src :: units, error.token ∈ Source.tokens u) := by
  obtain ⟨hsource, hr⟩ := report_of_mem_run h
  constructor
  · have hnonempty : source.isEmpty = false := by
      rw [hsource, shown, if_pos hshow]
      exact List.isEmpty_eq_false_iff.2 (ne_nil_of_mem_run h)
    rw [Event.reportText, Report.render, hnonempty, hsource, shown, if_pos hshow]
    rfl
  · refine hr.imp_right ?_
    rintro ⟨hsrc, error, m, rfl, hraised⟩
    obtain ⟨u, hu, htoken⟩ := (hs.raisable hsrc hraised).spelled
    exact ⟨error, rfl, u, hu, htoken⟩

/-- A name that the unit itself does not find: the excerpt is its line. -/
theorem excerpt_of_running_unit_name :
    let s := Session.start 0 false true ⟨0, 0⟩
    let src := Text.ofString "print 1;\nprint missing;"
    let name : Token := ⟨.identifier, Text.ofString "missing", .nil, 2⟩
    let error : RuntimeError := ⟨.undefinedVariable name.lexeme, name⟩
    .report error.report src ∈ (s.run src).2.events ∧
      (Event.report error.report src).reportText = error.report.headline ++
        Text.ofString "       1 | print 1;\n  >    2 | print missing;\n" := by
  intro s src name error
  have hmem : .report error.report src ∈ (s.run src).2.events := by decide +kernel
  have hexcerpt : Text.excerpt src error.report.line =
      Text.ofString "       1 | print 1;\n  >    2 | print missing;\n" := by decide +kernel
  have hs : History (Native.available false .unlinked) [] s := .start 0 true ⟨0, 0⟩
  obtain ⟨htext, -⟩ := excerpt_of_running_unit hs rfl hmem
  rw [hexcerpt] at htext
  exact ⟨hmem, htext⟩

/-- **The excerpt of an error in a function of an earlier unit** is not of
the unit that the error is in: it fails at a token of the first unit, and
the line shown is that of the later one. -/
theorem excerpt_of_earlier_unit :
    let s := Session.start 0 false true ⟨0, 0⟩
    let first := Text.ofString "function f() \x7b return missing; \x7d"
    let later := Text.ofString "f();"
    let name : Token := ⟨.identifier, Text.ofString "missing", .nil, 1⟩
    let error : RuntimeError := ⟨.undefinedVariable name.lexeme, name⟩
    let ran := ((s.run first).1.run later).2
    ran.ending = .failed error ∧ name ∈ Source.tokens first ∧ name ∉ Source.tokens later ∧
      ran.diagnostics = error.report.headline ++ Text.excerpt later name.line ∧
      ran.diagnostics ≠ error.report.headline ++ Text.excerpt first name.line := by
  decide +kernel

end Session

end TanLang
