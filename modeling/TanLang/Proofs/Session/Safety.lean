import TanLang.Proofs.Session.Provenance
import TanLang.Proofs.Session.Scopes
/-!
# Sessions — units that compile do not go wrong inside

What the phases before execution promise is enough for it. **No runtime
error is about an operator that evaluation does not know**; the `for` loops
are written out, every function is entered with as many arguments as it has
parameters, a class declaration finds the name it has just bound, and no
statement at the top of a unit ends in a `return`.
-/

namespace TanLang

open Eval

/-! ## Errors at operators -/

/-- A sign that is known fails only on its operand. -/
theorem Value.prefixed_error {op : Token} {v : Value} {fault : Fault}
    (hop : op.kind ∈ Mark.signs) (h : v.prefixed op = .error fault) :
    fault = .operandNotNumber := by
  unfold prefixed at h
  split at h
  · cases h
  · split at h
    · cases h
    · exact (Except.error.inj h).symm
  · rename_i hbang hminus
    simp only [Mark.signs, List.mem_cons, List.not_mem_nil, or_false] at hop
    exact (hop.elim hbang hminus).elim

/-- An operator that is known fails only on its operands. -/
theorem Value.combine_error {op : Token} {left right : Value} {fault : Fault}
    (hop : op.kind ∈ Mark.operators) (h : combine op left right = .error fault) :
    fault = .operandsNotAddable ∨ fault = .operandsNotNumbers ∨ fault = .divisionByZero := by
  unfold combine at h
  split at h
  · cases h
  · cases h
  · unfold sum at h
    split at h
    · cases h
    · cases h
    · exact .inl (Except.error.inj h).symm
  · rename_i hequal hnotEqual hplus
    split at h
    · unfold numeric at h
      split at h
      case h_3 =>
        split at h
        · exact .inr (.inr (Except.error.inj h).symm)
        · cases h
      case h_8 =>
        -- no other operator is known
        simp only [Mark.operators, List.mem_cons, List.not_mem_nil, or_false] at hop
        grind
      all_goals cases h
    · exact .inr (.inl (Except.error.inj h).symm)

namespace Eval

variable {P : Mark → Prop} {natives : Array Native} {error : RuntimeError}

/-- **No runtime error of known code is about an unknown operator**, for the
parser gives every sign and operator a place that evaluation knows. -/
theorem Raisable.ne_unknownOperator (h : Raisable P natives error) (hknown : ∀ k, P k → k.Known)
    (lexeme : Text) : error.fault ≠ .unknownOperator lexeme := by
  cases h with
  | sign hmark hfault =>
    rw [Value.prefixed_error (hknown _ hmark) hfault]
    exact nofun
  | operator hmark hfault =>
    rcases Value.combine_error (hknown _ hmark) hfault with rfl | rfl | rfl <;> exact nofun
  | _ => exact nofun

end Eval

/-! ## Units -/

/-- No statement of a unit that compiles ends in a `return`. -/
theorem Source.Compiles.returns {src : Text} (h : Compiles src) {st : Stmt Address}
    (hst : st ∈ compiled src) : st.returns = false :=
  Stmt.returns_of_mem hst (Scoping.returns_resolve h.resolved)

namespace Session

variable {natives : List Native} {s : Session}

/-- Whatever a unit reaches that compiles fits where it is reached. -/
theorem Reachable.runs (hs : Reachable natives s) {src : Text}
    (hsrc : Source.Compiles src) {bound : Nat} {t : Task} {m : Machine}
    (hduring : During s.rules bound (Source.compiled src) s.fresh t m) : t.Runs False m := by
  obtain ⟨L, hready⟩ := hs.ready
  have hfresh : Ready False L s.fresh := ⟨hready.sound, hready.active⟩
  exact hduring.runs rfl hfresh (hsrc.fits False.elim)

/-- **Units that compile do not go wrong inside.** In a session that has any
natives and has run any units, take a unit that compiles, and any bound on
its recursion. No error that it ends in is about an operator unknown to
evaluation, and it meets no kind of statement that was to be written out
before. Whenever the body of a function is entered, there are as many
arguments as parameters; whenever a class is declared whose superclass was
found, its name is bound to it; and a statement at the top that ends without
an error does not end in a `return`. -/
theorem units_stay_sound (hs : Reachable natives s) {src : Text}
    (hsrc : Source.Compiles src) (bound : Nat) :
    (∀ error m, interpret s.rules bound (Source.compiled src) s.fresh = .raised error m →
      ∀ lexeme, error.fault ≠ .unknownOperator lexeme) ∧
    (∀ t m, During s.rules bound (Source.compiled src) s.fresh t m →
      (∀ keyword initial cond step body,
        t ≠ .execute (.forLoop keyword initial cond step body)) ∧
      (∀ f args, t = .runFunction f args → args.length = f.decl.params.length ∧
        ∃ scope m', enterCall f args m = .done scope m') ∧
      (∀ name superclass methods, t = .execute (.classDecl name superclass methods) →
        ∀ c m', readSuperclass s.rules superclass m = .done c m' →
          ∃ m'', declareClass name c methods m' = .done () m'')) ∧
    ∀ st ∈ Source.compiled src, ∀ m c m',
      Eval.execute s.rules bound st m = .done c m' → c = .normal := by
  refine ⟨fun error m hraised => ?_, fun t m hduring => ?_, fun st hst m c m' hdone => ?_⟩
  · obtain ⟨units, hunits⟩ := hs.exists_history
    refine (hunits.raisable hsrc hraised).ne_unknownOperator ?_
    rintro k ⟨u, -, hk⟩
    exact hk.known
  · obtain ⟨L, hsound, hfits⟩ := hs.runs hsrc hduring
    refine ⟨?_, ?_, ?_⟩
    · rintro keyword initial cond step body rfl
      obtain ⟨Γ, -, hfalse⟩ := hfits
      exact hfalse
    · rintro f args rfl
      obtain ⟨-, -, hparams⟩ := hfits
      exact ⟨hparams.symm, _, _, enterCall_eq (Nat.le_of_eq hparams)⟩
    · rintro name superclass methods rfl c m' hdone
      obtain ⟨Γ, hstands, -, hsuperclass, -⟩ := hfits
      obtain ⟨L', hkept, -⟩ :=
        (readSuperclass_keeps rfl hsound hstands hsuperclass).of_eq_done hdone
      exact ⟨_, declareClass_eq ((hkept.stands hstands).isSome_scope hkept.sound)⟩
  · have hwithin : BehavesWithin (fun _ => True) s.rules bound := behavesWithin s.rules bound
    have hfinishes := (hwithin.execute fun _ _ => trivial).of_eq_done (.of_true m.heap) hdone
    exact hfinishes.2 (hsrc.returns hst)

/-- A class called with the argument of its `init` method. -/
theorem units_stay_sound_init :
    let s := Session.start 0 false false ⟨0, 0⟩
    let src := Text.ofString "class A\x7binit(x)\x7b\x7d\x7dA(\"y\");"
    let args := [Value.string (Text.ofString "y")]
    ∃ f m, During s.rules 20 (Source.compiled src) s.fresh (.runFunction f args) m ∧
      f.decl.name.lexeme = initName ∧ args.length = f.decl.params.length ∧
      ∃ scope m', enterCall f args m = .done scope m' := by
  intro s src args
  have hcompiles : Source.Compiles src :=
    ⟨by decide +kernel, by decide +kernel, by decide +kernel⟩
  have hsafe := units_stay_sound (s := s) (.start 0 false ⟨0, 0⟩) hcompiles 20
  have hreach : During s.rules 20 (Source.compiled src) s.fresh (.runFunction _ args) _ :=
    .next rfl (.first (.call .expr (.call (.call rfl rfl)
      (.call (.apply rfl rfl) (.call (.init rfl) .here)))))
  exact ⟨_, _, hreach, rfl, (hsafe.2.1 _ _ hreach).2.1 _ args rfl⟩

end Session

end TanLang
