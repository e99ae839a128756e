import TanLang.Proofs.Scoping.Resolution
/-!
# Scoping — a `return` stands in a function

What a statement returns with is a `return` that stands in it, but in no
function or method inside it. **Resolution leaves no such `return` at the
top of a program** without an issue.
-/

namespace TanLang

namespace Stmt

variable {α : Type}

mutual

/-- Whether a statement can end in a `return`. -/
def returns : Stmt α → Bool
  | block _ body => returnsAny body
  | expr _ => false
  | print _ _ => false
  | varDecl _ _ => false
  | branch _ _ yes no => returns yes || returnsOption no
  | loop _ _ body => returnsOption body
  | forLoop _ _ _ _ body => returnsOption body
  | function _ => false
  | ret _ _ => true
  | classDecl _ _ _ => false

/-- The same for statements in a row. -/
def returnsAny : List (Stmt α) → Bool
  | [] => false
  | s :: rest => returns s || returnsAny rest

/-- The same for a statement that may be missing. -/
def returnsOption : Option (Stmt α) → Bool
  | none => false
  | some s => returns s

end

/-- Statements in a row return if one of them does. -/
theorem returns_of_mem {s : Stmt α} {ss : List (Stmt α)} (hs : s ∈ ss)
    (hss : returnsAny ss = false) : s.returns = false := by
  induction ss with
  | nil => cases hs
  | cons first rest ih =>
    obtain ⟨hfirst, hrest⟩ := Bool.or_eq_false_iff.1 hss
    rcases List.mem_cons.1 hs with rfl | hs
    · exact hfirst
    · exact ih hs hrest

end Stmt

namespace Scoping

variable {around : Surroundings}

mutual

/-- **A statement outside all functions that resolves without an issue does
not end in a `return`.** -/
theorem returns_resolveStmt (haround : around.inFunction = false) : ∀ (s : Stmt Unit)
    {frames : List Frame}, (resolveStmt around s frames).issues = [] →
      (resolveStmt around s frames).value.returns = false
  | .block _ body, frames, h => by
    simp only [resolveStmt, Step.bind_run, Step.pure_run, inScope_run, List.append_nil,
      Stmt.returns] at h ⊢
    exact returns_resolveStmts haround body h
  | .expr _, _, _ => rfl
  | .print _ _, _, _ => rfl
  | .varDecl _ _, _, _ => rfl
  | .branch _ _ yes no, frames, h => by
    simp only [resolveStmt, Step.bind_run, Step.pure_run, List.append_nil,
      List.append_eq_nil_iff] at h
    obtain ⟨-, hyes, hno⟩ := h
    simp only [resolveStmt, Step.bind_run, Step.pure_run, Stmt.returns, Bool.or_eq_false_iff]
    exact ⟨returns_resolveStmt haround yes hyes, returns_resolveOptionStmt haround no hno⟩
  | .loop _ _ body, frames, h => by
    simp only [resolveStmt, Step.bind_run, Step.pure_run, List.append_nil,
      List.append_eq_nil_iff] at h
    exact returns_resolveOptionStmt haround body h.2
  | .forLoop _ initial _ _ body, frames, h => by
    simp only [resolveStmt, inScopeIf] at h ⊢
    split at h <;> rename_i hinitial <;> simp only [hinitial, if_true]
    all_goals
      simp only [Step.bind_run, Step.pure_run, inScope_run, List.append_nil,
        List.append_eq_nil_iff] at h
      exact returns_resolveOptionStmt haround body h.2.2.1
  | .function _, _, _ => rfl
  | .ret _ _, _, h => by
    -- there is an issue right here
    simp [resolveStmt, Step.bind_run, haround, complain_run] at h
  | .classDecl _ _ _, _, _ => rfl

theorem returns_resolveStmts (haround : around.inFunction = false) : ∀ (ss : List (Stmt Unit))
    {frames : List Frame}, (resolveStmts around ss frames).issues = [] →
      Stmt.returnsAny (resolveStmts around ss frames).value = false
  | [], _, _ => rfl
  | s :: rest, frames, h => by
    simp only [resolveStmts, Step.bind_run, Step.pure_run, List.append_nil,
      List.append_eq_nil_iff] at h
    simp only [resolveStmts, Step.bind_run, Step.pure_run, Stmt.returnsAny,
      Bool.or_eq_false_iff]
    exact ⟨returns_resolveStmt haround s h.1, returns_resolveStmts haround rest h.2⟩

theorem returns_resolveOptionStmt (haround : around.inFunction = false) :
    ∀ (s : Option (Stmt Unit)) {frames : List Frame},
      (resolveOptionStmt around s frames).issues = [] →
      Stmt.returnsOption (resolveOptionStmt around s frames).value = false
  | none, _, _ => rfl
  | some s, frames, h => by
    simp only [resolveOptionStmt, Step.bind_run, Step.pure_run, List.append_nil] at h
    exact returns_resolveStmt haround s h

end

/-- **No statement of a program that resolves without an issue ends in a
`return`.** -/
theorem returns_resolve {p : Program Unit} (h : (resolve p).issues = []) :
    Stmt.returnsAny (resolve p).value = false :=
  returns_resolveStmts rfl p h

end Scoping

end TanLang
