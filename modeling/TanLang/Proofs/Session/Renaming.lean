import TanLang.Proofs.Evaluation.Renaming
import TanLang.Proofs.Scoping.Renaming
import TanLang.Proofs.Session.Rejection
import TanLang.Proofs.Session.Scopes
import TanLang.Proofs.Source.Renaming
/-!
# Sessions — local names do not matter

A source that compiles, a name that it declares in some of its local scopes,
and an identifier that it does not use: there is a source with the
identifier in the place of the name, in those scopes and **exactly where
resolution has bound the name to them**. It compiles, its uses of names have
the same distances, and it runs the same in every session. Only the word a
runtime error points at may have been respelled.
-/

namespace TanLang

/-! ## What a renaming may change of a unit -/

/-- Two reports that differ in the word they point at, if at all. -/
structure Report.Varies (r : Renaming) (a a' : Report) : Prop where
  line : a'.line = a.line
  message : a'.message = a.message
  lexeme : a'.lexeme = a.lexeme ∨ a.lexeme = some r.old ∧ a'.lexeme = some r.new

/-- Two endings that differ in the word an error points at, if at all. -/
inductive Ending.Varies (r : Renaming) : Ending → Ending → Prop where
  | finished : Varies r .finished .finished
  | failed {e e' : RuntimeError} (h : e.Varies r e') : Varies r (.failed e) (.failed e')
  | crashed : Varies r .crashed .crashed
  | exhausted : Varies r .exhausted .exhausted

/-- **Two units that differ in the word an error points at**, if at all. -/
structure UnitRun.Varies (r : Renaming) (u u' : UnitRun) : Prop where
  output : u'.output = u.output
  status : u'.status = u.status
  ending : u.ending.Varies r u'.ending
  reports : List.Forall₂ (Report.Varies r) u.reports u'.reports

variable {r : Renaming}

theorem RuntimeError.Varies.report {e e' : RuntimeError} (h : e.Varies r e') :
    e.report.Varies r e'.report := by
  obtain ⟨fault, token⟩ := e
  obtain ⟨fault', token'⟩ := e'
  obtain ⟨hfault, htoken⟩ := h
  obtain rfl : fault' = fault := hfault
  obtain rfl | ⟨hold, rfl⟩ : token' = token ∨ _ := htoken
  · exact ⟨rfl, rfl, .inl rfl⟩
  · refine ⟨rfl, rfl, ?_⟩
    by_cases heof : token.kind = .eof
    · -- at the end of the source no word is pointed at
      left
      simp only [RuntimeError.report, Token.report, Token.shown, if_pos heof]
    · right
      have hlexeme : token.lexeme = r.old := hold
      simp only [RuntimeError.report, Token.report, Token.shown, if_neg heof, hlexeme, and_self]

namespace Ending.Varies

variable {e e' : Ending}

theorem status (h : e.Varies r e') : e'.status = e.status := by
  cases h <;> rfl

theorem reports (h : e.Varies r e') : List.Forall₂ (Report.Varies r) e.reports e'.reports := by
  cases h with
  | failed h => exact .cons h.report .nil
  | finished => exact .nil
  | crashed => exact .nil
  | exhausted => exact .nil

end Ending.Varies

/-! ## Renamed sources -/

namespace Source

/-- An identifier is not the word `this`. -/
theorem Spelling.text_ne_thisName {y : Spelling} (hy : y.kind = .identifier) :
    y.text ≠ thisName := by
  obtain ⟨c, cs, -, -, htext, hword⟩ := y.exists_word hy
  rw [htext]
  intro hthis
  rw [hthis, ofWord_thisName] at hword
  cases hword

/-- **A source that compiles has renamed twins.** -/
theorem Compiles.exists_renamed {src : Text} (h : Compiles src) (chosen : Nat → Bool) (x : Text)
    {y : Spelling} (hy : y.kind = .identifier)
    (hmentioned : y.text ∉ Stmt.mentionedAll (program src))
    (hbound : y.text ∉ Stmt.boundAll (program src)) :
    (∃ src', Compiles src' ∧ compiled src' = (compiled src).rename ⟨x, y.text⟩ chosen ∧
      Renaming.RewordedAll ⟨x, y.text⟩ (Program.ahead (tokens src))
        (Program.ahead (tokens src'))) ∧
    Stmt.VariesAll (Renaming.variation ⟨x, y.text⟩) [] (compiled src)
      ((compiled src).rename ⟨x, y.text⟩ chosen) := by
  obtain ⟨p', hrespelled, hvalue, hissues, hvaries⟩ :=
    Scoping.exists_renamed (r := ⟨x, y.text⟩) chosen h.core (Spelling.text_ne_thisName hy)
      hmentioned hbound h.resolved
  refine ⟨?_, hvaries⟩
  -- from the tree to the tokens, and from the tokens to a source
  obtain ⟨w, hw, hreads⟩ := Program.exists_reworded (List.map_eq_nil_iff.1 h.parsed) hrespelled
  obtain ⟨src', hreports, hahead⟩ := exists_source hy h.scanned hw
  obtain ⟨hparsed, hprogram⟩ := hreads (tokens src') hahead
  have hprogram' : program src' = p' := hprogram
  refine ⟨src', ⟨hreports, hparsed, ?_⟩, ?_, ?_⟩
  · rw [hprogram', hissues]
  · rw [compiled, hprogram', hvalue]
    rfl
  · rw [hahead]
    exact hw

end Source

/-! ## Renamed units -/

namespace Session

open Eval

variable {natives : List Native} {s : Session} {src src' : Text}

/-- Outcomes that agree end the same, in machines that are in step. -/
theorem ending_of_agrees {α : Type} {T : Zone} {m : Machine} {o o' : Outcome α}
    (h : Agrees r T m o o') :
    (endingOf o).Varies r (endingOf o') ∧ ∃ T', InStep r T' o.machine o'.machine := by
  cases h with
  | done a h => exact ⟨.finished, _, h.inStep⟩
  | raised he h => exact ⟨.failed he, _, h.inStep⟩
  | crashed h => exact ⟨.crashed, _, h.inStep⟩
  | exhausted h => exact ⟨.exhausted, _, h.inStep⟩

/-- **A unit and a renamed one execute in step.** -/
theorem outcome_agrees (hs : Reachable natives s)
    (h : Stmt.VariesAll r.variation [] (Source.compiled src) (Source.compiled src'))
    (bound : Nat) :
    Agrees r (fun _ => false) s.fresh (s.outcome src bound) (s.outcome src' bound) := by
  obtain ⟨L, hready⟩ := hs.ready
  have hstep : InStep r (fun _ => false) s.fresh s.fresh :=
    ⟨hready.sound.mirrors, rfl, rfl, rfl⟩
  refine interpret_follows rfl bound h _ _ _ hstep ?_
  show Heap.Around _ _ [] s.machine.active
  rw [hready.active]
  exact .globals

/-- A unit that compiles is rejected without a report if there is a compile
error on record, and nothing is executed. -/
theorem run_on_error (herror : s.tally.hadError = true) (hsrc : Source.Compiles src)
    (bound : Nat) :
    (∃ tally, (s.run src bound).1 = { s with tally := tally }) ∧
      (s.run src bound).2.output = [] ∧ (s.run src bound).2.status = .compileError ∧
      (s.run src bound).2.ending = .finished ∧ (s.run src bound).2.reports = [] := by
  have hrejected : s.tally.hadError = true ∨ ¬ Source.Compiles src := .inl herror
  obtain ⟨hsession, hstatus, houtput, hreports⟩ := run_rejected hrejected bound
  refine ⟨hsession, houtput, hstatus, ?_, ?_⟩
  · unfold run
    simp only [Tally.hadError_addAll, herror, Bool.true_or, if_true]
  · rw [hreports, refusal, herror, Bool.true_or, if_pos rfl, Source.parsingReports, hsrc.scanned,
      hsrc.parsed, List.append_nil]

/-- **A unit and a renamed one run the same**: they print the same and end
the same, and leave the same globals, which print the same. -/
theorem run_varies (hs : Reachable natives s) (hsrc : Source.Compiles src)
    (hsrc' : Source.Compiles src')
    (h : Stmt.VariesAll r.variation [] (Source.compiled src) (Source.compiled src'))
    (bound : Nat) :
    let ran := s.run src bound
    let ran' := s.run src' bound
    ran.2.Varies r ran'.2 ∧ ran'.1.globals = ran.1.globals ∧
      ∀ v, ran'.1.machine.heap.text v = ran.1.machine.heap.text v := by
  intro ran ran'
  rcases Bool.eq_false_or_eq_true s.tally.hadError with herror | hclear
  · obtain ⟨⟨tally, hsession⟩, houtput, hstatus, hending, hreports⟩ :=
      run_on_error herror hsrc bound
    obtain ⟨⟨tally', hsession'⟩, houtput', hstatus', hending', hreports'⟩ :=
      run_on_error herror hsrc' bound
    refine ⟨⟨?_, ?_, ?_, ?_⟩, ?_, fun v => ?_⟩
    · rw [houtput, houtput']
    · rw [hstatus, hstatus']
    · rw [hending, hending']
      exact .finished
    · rw [hreports, hreports']
      exact .nil
    · rw [hsession, hsession']
      rfl
    · rw [hsession, hsession']
  · obtain ⟨hmachine, -, houtput, hending, hstatus, hreports⟩ := run_spec hclear hsrc bound
    obtain ⟨hmachine', -, houtput', hending', hstatus', hreports'⟩ := run_spec hclear hsrc' bound
    obtain ⟨hends, T, hstep⟩ := ending_of_agrees (outcome_agrees hs h bound)
    refine ⟨⟨?_, ?_, ?_, ?_⟩, ?_, fun v => ?_⟩
    · rw [houtput, houtput', output_eq, output_eq, hstep.printed]
    · rw [hstatus, hstatus', hends.status]
    · rw [hending, hending']
      exact hends
    · rw [hreports, hreports']
      exact hends.reports
    · unfold globals
      rw [hmachine, hmachine', hstep.heap.listing_globals]
    · rw [hmachine, hmachine', hstep.heap.text]

/-- **Local names do not matter.** Take a source that compiles, a name `x`,
an identifier that the source neither uses nor declares, and any choice of
local scopes. In the chosen scopes that declare `x` as a variable or a
parameter, the declaration and the uses that resolution has bound to it are
renamed. The result is again what a source compiles to, one that differs in
the spelling of these names; the distances are the same; and in every session
with any natives, within any bound on the recursion, every source that
compiles to it prints the same, leaves the same globals, which print the same,
and comes to the same, with the same message on the same line if there is an
error. -/
theorem run_renamed (hs : Reachable natives s) (hsrc : Source.Compiles src)
    (chosen : Nat → Bool) (x : Text) {y : Source.Spelling} (hy : y.kind = .identifier)
    (hmentioned : y.text ∉ Stmt.mentionedAll (Source.program src))
    (hbound : y.text ∉ Stmt.boundAll (Source.program src)) :
    let r : Renaming := ⟨x, y.text⟩
    let renamed := (Source.compiled src).rename r chosen
    (∃ src', Source.Compiles src' ∧ Source.compiled src' = renamed ∧
      r.RewordedAll (Program.ahead (Source.tokens src)) (Program.ahead (Source.tokens src'))) ∧
    r.SameUses (Source.compiled src).uses renamed.uses ∧
    ∀ src', Source.Compiles src' → Source.compiled src' = renamed → ∀ bound,
      let ran := s.run src bound
      let ran' := s.run src' bound
      ran.2.Varies r ran'.2 ∧ ran'.1.globals = ran.1.globals ∧
        ∀ v, ran'.1.machine.heap.text v = ran.1.machine.heap.text v := by
  intro r renamed
  obtain ⟨hexists, hvaries⟩ := hsrc.exists_renamed chosen x hy hmentioned hbound
  refine ⟨hexists, Program.sameUses hvaries, fun src' hsrc' hrenamed bound => ?_⟩
  refine run_varies hs hsrc hsrc' ?_ bound
  rw [hrenamed]
  exact hvaries

/-- A block that reads a global, declares a variable of that name and fails
at a use of it. The variable and its uses are renamed, and the use before the
declaration is not. -/
theorem run_renamed_shadow :
    let s := Session.start 0 false false ⟨0, 0⟩
    let src := Text.ofString "var a=1;\x7bprint a;var a=2;print a;class C<a\x7b\x7d\x7d"
    let r : Renaming := ⟨Text.ofString "a", Text.ofString "b"⟩
    let renamed := (Source.compiled src).rename r fun _ => true
    (∃ src', Source.Compiles src' ∧ Source.compiled src' = renamed ∧
      (s.run src).2.Varies r (s.run src').2 ∧
      (s.run src').2.output = Text.ofString "1\n2\n" ∧ (s.run src').2.status = .runtimeError) ∧
    renamed.uses.map (fun u => (u.1.lexeme, u.2)) =
      [(Text.ofString "a", none), (Text.ofString "b", some 0), (Text.ofString "b", some 0)] := by
  intro s src r renamed
  have hsrc : Source.Compiles src := ⟨by decide +kernel, by decide +kernel, by decide +kernel⟩
  obtain ⟨y, hkind, htext⟩ :
      ∃ y : Source.Spelling, y.kind = .identifier ∧ y.text = Text.ofString "b" :=
    ⟨.word 'b' [] (by decide) (List.forall_mem_nil _), by decide +kernel, by decide +kernel⟩
  have hall := run_renamed (s := s) (.start 0 false ⟨0, 0⟩) hsrc (fun _ => true) (Text.ofString "a")
    hkind (by rw [htext]; decide +kernel) (by rw [htext]; decide +kernel)
  rw [htext] at hall
  obtain ⟨⟨src', hsrc', hrenamed, -⟩, -, hruns⟩ := hall
  obtain ⟨hvaries, -, -⟩ := hruns src' hsrc' hrenamed recursionBound
  have houtput : (s.run src).2.output = Text.ofString "1\n2\n" := by decide +kernel
  have hstatus : (s.run src).2.status = .runtimeError := by decide +kernel
  have huses : renamed.uses.map (fun u => (u.1.lexeme, u.2)) =
      [(Text.ofString "a", none), (Text.ofString "b", some 0), (Text.ofString "b", some 0)] := by
    decide +kernel
  refine ⟨⟨src', hsrc', hrenamed, hvaries, ?_, ?_⟩, huses⟩
  · rw [hvaries.output, houtput]
  · rw [hvaries.status, hstatus]

end Session

end TanLang
