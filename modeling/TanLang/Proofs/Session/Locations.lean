import TanLang.Proofs.Evaluation.Anatomy
import TanLang.Proofs.Session.Safety
import TanLang.Proofs.Session.Units
import TanLang.Proofs.Source.Renaming
/-!
# Sessions — where runtime errors are reported

A runtime error is reported at a token of the code that failed, and that
code is from a unit that compiled: the one that runs, or one before it that
left a function or a class. So **every runtime error points at a line of
source that was accepted**.

A native has no code of its own. If it fails, the error is reported at the
end of the call that it was called by, and the calls around that one hand it
on as it is.
-/

namespace TanLang

open Eval

/-! ## Natives that fail -/

/-- A native that fails with a message, reported at a parenthesis. -/
def Halt.native (message : Text) (paren : Token) : Halt := .raised ⟨.native message, paren⟩

theorem Value.prefixed_ne_native (v : Value) (op : Token) (message : Text) :
    v.prefixed op ≠ .error (.native message) := by
  intro h
  unfold prefixed at h
  split at h
  · cases h
  · split at h <;> cases h
  · cases h

theorem Value.combine_ne_native (op : Token) (left right : Value) (message : Text) :
    combine op left right ≠ .error (.native message) := by
  intro h
  unfold combine at h
  split at h
  · cases h
  · cases h
  · unfold sum at h
    split at h <;> cases h
  · split at h
    · unfold numeric at h
      split at h
      case h_3 => split at h <;> cases h
      all_goals cases h
    · cases h

theorem Outcome.exists_raised {α : Type} {o : Outcome α} {error : RuntimeError}
    (h : o.halt? = some (.raised error)) : ∃ m, o = .raised error m := by
  cases o <;> cases h
  exact ⟨_, rfl⟩

namespace Eval

variable {rules : Rules} {n bound : Nat} {t : Task} {p : Program Address} {m m' : Machine}
variable {message : Text} {paren : Token}

/-- **A task is the call of a native that fails**, from a parenthesis and with
a message. -/
def Task.Fails (rules : Rules) (message : Text) (paren : Token) (m : Machine) : Task → Prop
  | .invoke paren' (.native f) args => paren' = paren ∧ ∃ native, m.heap.native? f = some native ∧
      native.run (m.world rules) (args.map m.heap.argument) = .error message
  | _ => False

theorem liftFault_native {token : Token} {α : Type} {result : Except Fault α}
    (h : (Action.liftFault token result m).halt? = some (.native message paren)) :
    result = .error (.native message) := by
  cases result with
  | ok a => cases h
  | error fault =>
    cases h
    rfl

/-- **Only the call of a native fails as one.** -/
theorem Task.fails_of_act (h : ActHalts rules n t m (.native message paren)) :
    t.Fails rules message paren m := by
  obtain ⟨m', α, y, hacts, hhalt⟩ := h
  cases hacts with
  | native =>
    simp only [callNative] at hhalt
    split at hhalt
    · cases hhalt
    · rename_i native hnative
      split at hhalt
      · cases hhalt
      · rename_i message' hrun
        cases hhalt
        exact ⟨rfl, native, hnative, hrun⟩
  | prefixed _ => exact absurd (liftFault_native hhalt) (Value.prefixed_ne_native _ _ _)
  | combine _ _ => exact absurd (liftFault_native hhalt) (Value.combine_ne_native _ _ _ _)
  | @object _ _ _ o _ _ => cases o <;> cases hhalt
  | @target _ _ _ _ o _ _ => cases o <;> cases hhalt
  | property _ _ =>
    simp only [readProperty] at hhalt
    split at hhalt <;> cases hhalt
  | checkCall =>
    simp only [checkCall] at hhalt
    split at hhalt
    · cases hhalt
    · split at hhalt <;> cases hhalt
  | checkDepth _ =>
    simp only [checkDepth] at hhalt
    split at hhalt <;> cases hhalt
  | fetch =>
    simp only [fetchFunction] at hhalt
    split at hhalt <;> cases hhalt
  | instantiate =>
    simp only [instantiate] at hhalt
    split at hhalt <;> cases hhalt
  | enter =>
    simp only [enterCall] at hhalt
    split at hhalt <;> cases hhalt
  | declareClass _ =>
    simp only [declareClass] at hhalt
    split at hhalt <;> cases hhalt
  | read =>
    simp only [Action.read] at hhalt
    split at hhalt <;> cases hhalt
  | write =>
    simp only [Action.write] at hhalt
    split at hhalt <;> cases hhalt
  | _ => cases hhalt

/-- A native that fails stops its call, if the bound is not at its end. -/
theorem Task.Fails.halt? (h : t.Fails rules message paren m) (n : Nat) :
    t.halt? rules n m = some (.native message paren) ∨
      t.halt? rules n m = some .exhausted := by
  cases t with
  | invoke paren' callee args =>
    cases callee with
    | native f =>
      obtain ⟨rfl, native, hnative, hrun⟩ := h
      cases n with
      | zero => exact .inr rfl
      | succ n =>
        refine .inl ?_
        simp only [Task.halt?, Task.run, Eval.invoke, callNative, hnative, hrun]
        rfl
    | _ => exact h.elim
  | _ => exact h.elim

/-- **A run ends in the failure of a native exactly if it comes to the call of
one that fails.** No call around it takes the error for its own. -/
theorem native_error_iff (hended : (interpret rules bound p m).Ended) :
    (interpret rules bound p m).halt? = some (.native message paren) ↔
      ∃ f native args m', During rules bound p m (.invoke paren (.native f) args) m' ∧
        m'.heap.native? f = some native ∧
        native.run (m'.world rules) (args.map m'.heap.argument) = .error message := by
  constructor
  · intro hhalt
    obtain ⟨n, t, m', hduring, hact⟩ :=
      exists_act_of_interpret_halt (k := .native message paren) nofun hhalt
    have hfails := Task.fails_of_act hact
    cases t with
    | invoke paren' callee args =>
      cases callee with
      | native f =>
        obtain ⟨rfl, native, hnative, hrun⟩ := hfails
        exact ⟨f, native, args, m', hduring, hnative, hrun⟩
      | _ => exact hfails.elim
    | _ => exact hfails.elim
  · rintro ⟨f, native, args, m', hduring, hnative, hrun⟩
    have hfails : Task.Fails rules message paren m' (.invoke paren (.native f) args) :=
      ⟨rfl, native, hnative, hrun⟩
    exact (hduring.halt? hfails.halt?).resolve_right hended

/-- **Whatever is called is called by a call expression**: its callee came to
the value and its arguments to the values, and then the call was opened. -/
theorem During.exists_call {callee : Value} {args : List Value}
    (hduring : During rules bound p m (.invoke paren callee args) m') :
    ∃ n e es m₀ m₁ m₂, During rules bound p m (.evaluate (.call e paren es)) m₀ ∧
      evaluate rules n e m₀ = .done callee m₁ ∧ evaluateAll rules n es m₁ = .done args m₂ ∧
      m' = { m₂ with depth := m₂.depth + 1 } := by
  obtain ⟨s, ⟨⟩⟩ | ⟨n, t, m₃, hduring', hcall⟩ := hduring.last
  cases hcall with
  | @apply _ _ _ _ m₄ m₅ hcheck hdepth =>
    obtain ⟨s, ⟨⟩⟩ | ⟨n', t', m₀, hduring'', hcall'⟩ := hduring'.last
    cases hcall' with
    | @call e _ es _ _ m₁ _ _ hcallee hargs =>
      -- neither check touches the machine
      have hchecked := (arity?_of_checkCall hcheck).1
      have hsame : m₅ = m₄ := by
        unfold checkDepth at hdepth
        split at hdepth <;> cases hdepth
        rfl
      exact ⟨n', e, es, m₀, m₁, _, hduring'', hcallee, hargs, by rw [hsame, hchecked]⟩

/-- The failure of a native is reported at the end of a call. -/
theorem Raisable.mark_paren {P : Mark → Prop} {natives : Array Native}
    (h : Raisable P natives ⟨.native message, paren⟩) : P (.paren paren) := by
  cases h with
  | sign _ hfault => exact absurd hfault (Value.prefixed_ne_native _ _ _)
  | operator _ hfault => exact absurd hfault (Value.combine_ne_native _ _ _ _)
  | native hmark => exact hmark

end Eval

/-! ## The code of units that compile -/

/-- A known mark that stands in one of the units that compile. -/
def Mark.Accepted (units : List Text) (k : Mark) : Prop :=
  ∃ u ∈ units, Source.Compiles u ∧ k.From (Source.tokens u)

namespace Session

variable {natives : List Native} {units : List Text} {s : Session} {src : Text}

/-- The code in the heap is from units that compiled. -/
theorem lasting_accepted : Lasting Mark.Accepted where
  new _ src hsrc k hk := ⟨src, List.mem_cons_self, hsrc, hsrc.marks k hk⟩
  later _ src _ := fun ⟨u, hu, hk⟩ => ⟨u, List.mem_cons_of_mem src hu, hk⟩

/-! ## What is reported -/

/-- What an ending adds to the record: a runtime error one report. -/
def tallyAfter (t : Tally) : Ending → Tally
  | .failed _ => t.add .runtime
  | _ => t

theorem execute_tally (s : Session) (bound : Nat) (source : Text) (p : Program Address)
    (before : List Event) :
    (s.execute bound source p before).1.tally =
      tallyAfter s.tally (endingOf (interpret s.rules bound p s.fresh)) := by
  have ho : interpret s.rules bound p { s.machine with printed := [] } =
      interpret s.rules bound p s.fresh := rfl
  unfold execute
  simp only [ho]
  cases interpret s.rules bound p s.fresh <;> rfl

/-- **Execution adds a report to the record for a runtime error**, and none
otherwise. -/
theorem run_tally (hclear : s.tally.hadError = false) (hsrc : Source.Compiles src)
    (bound : Nat) :
    (s.run src bound).1.tally = tallyAfter s.tally (endingOf (s.outcome src bound)) := by
  have hresolved : (Scoping.resolve (Program.ofTokens (Source.tokens src))).issues = [] :=
    hsrc.resolved
  unfold run
  simp only [hsrc.scanned, hsrc.parsed, hresolved, List.map_nil, List.append_nil, Tally.addAll,
    List.foldl_nil, hclear, Bool.false_eq_true, if_false]
  exact execute_tally _ _ _ _ _

/-- **Every runtime error is located in the source.** In a session that has
any natives and has run any units, take a unit that compiles, and any bound
on its recursion. An error that it ends in is reported at a token of a unit
that compiled, this one or one before it, so on line 1 or below. If it ends,
it ends in the failure of a native exactly if it comes to the call of a
native that fails, with the message and at the parenthesis of that call,
which is a closing one; and whatever is called is called by a call expression
with this parenthesis. One report is made for the error: the record has one
more, and a runtime error, and no compile error. -/
theorem errors_located (hs : History natives units s) (hsrc : Source.Compiles src) (bound : Nat) :
    let run := interpret s.rules bound (Source.compiled src) s.fresh
    let Reached := During s.rules bound (Source.compiled src) s.fresh
    (∀ error m, run = .raised error m →
      1 ≤ error.report.line ∧
        ∃ u ∈ src :: units, Source.Compiles u ∧ error.token ∈ Source.tokens u) ∧
    (∀ message paren, run.halt? = some (.raised ⟨.native message, paren⟩) →
      paren.kind = .rightParen) ∧
    (run.Ended → ∀ message paren,
      (run.halt? = some (.raised ⟨.native message, paren⟩) ↔
        ∃ f native args m, Reached (.invoke paren (.native f) args) m ∧
          m.heap.native? f = some native ∧
          native.run (m.world s.rules) (args.map m.heap.argument) = .error message)) ∧
    (∀ paren callee args m, Reached (.invoke paren callee args) m →
      ∃ n e es m₀ m₁ m₂, Reached (.evaluate (.call e paren es)) m₀ ∧
        evaluate s.rules n e m₀ = .done callee m₁ ∧
        evaluateAll s.rules n es m₁ = .done args m₂ ∧
        m = { m₂ with depth := m₂.depth + 1 }) ∧
    (s.tally.hadError = false → ∀ error m, run = .raised error m →
      let ran := s.run src bound
      ran.2.ending = .failed error ∧ ran.2.reports = [error.report] ∧
        ran.1.tally = { s.tally with hadRuntimeError := true, count := s.tally.count + 1 } ∧
        ran.1.tally.hadError = false) := by
  intro run Reached
  refine ⟨fun error m hraised => ?_, fun message paren hhalt => ?_,
    fun hended message paren => native_error_iff hended,
    fun paren callee args m hreached => hreached.exists_call,
    fun hclear error m hraised => ?_⟩
  · obtain ⟨k, ⟨u, hu, hcompiles, hk⟩, htoken⟩ :=
      (lasting_accepted.raisable hs hsrc hraised).exists_mark
    have hmem : error.token ∈ Source.tokens u := htoken ▸ hk.mem
    exact ⟨Source.one_le_line hcompiles.scanned hmem, u, hu, hcompiles, hmem⟩
  · obtain ⟨m, hraised⟩ := Outcome.exists_raised hhalt
    obtain ⟨u, -, -, hparen⟩ := (lasting_accepted.raisable hs hsrc hraised).mark_paren
    exact hparen.known
  · obtain ⟨-, -, -, hending, -, hreports⟩ := run_spec hclear hsrc bound
    have htally := run_tally hclear hsrc bound
    have houtcome : s.outcome src bound = .raised error m := hraised
    rw [houtcome] at hending hreports htally
    refine ⟨hending, hreports, htally, ?_⟩
    rw [htally]
    exact hclear

/-- A native that fails inside a function of an earlier unit: the error is
reported on the first line, where that unit calls the native, and not on the
third, where the function is called. -/
theorem errors_located_native :
    let first := Text.ofString "function f()\x7b dbClose(\"x\"); \x7d"
    let src := Text.ofString "\n\nf();"
    let s := ((Session.start 0 true false ⟨0, 0⟩).run first).1
    let paren : Token := ⟨.rightParen, Text.ofString ")", .nil, 1⟩
    let error : RuntimeError :=
      ⟨.native (Text.ofString "dbClose: handle must be an integer."), paren⟩
    (∃ m, s.outcome src = .raised error m) ∧ 1 ≤ error.report.line ∧ paren.kind = .rightParen ∧
      (∃ u ∈ [src, first], Source.Compiles u ∧ paren ∈ Source.tokens u) ∧
      (∃ e es m, During s.rules recursionBound (Source.compiled src) s.fresh
        (.evaluate (.call e paren es)) m) ∧
      (s.run src).2.reports = [error.report] := by
  intro first src s paren error
  have hs : History (Native.available true .unlinked) [first] s :=
    .run (.start 0 false ⟨0, 0⟩) first recursionBound
  have hsrc : Source.Compiles src := ⟨by decide +kernel, by decide +kernel, by decide +kernel⟩
  obtain ⟨hlocated, hparen, hnative, hcalls, hreported⟩ := errors_located hs hsrc recursionBound
  have hhalt : (s.outcome src).halt? = some (.raised error) := by decide +kernel
  obtain ⟨m, hraised⟩ := Outcome.exists_raised hhalt
  have hended : (s.outcome src).Ended := by
    rw [hraised]
    exact .raised
  obtain ⟨f, native, args, m', hreached, -, -⟩ := (hnative hended _ _).1 hhalt
  obtain ⟨n, e, es, m₀, -, -, hcall, -⟩ := hcalls _ _ _ _ hreached
  obtain ⟨hline, hmem⟩ := hlocated error m hraised
  exact ⟨⟨m, hraised⟩, hline, hparen _ _ hhalt, hmem, ⟨e, es, m₀, hcall⟩,
    (hreported (by decide +kernel) error m hraised).2.1⟩

end Session

end TanLang
