import TanLang.Proofs.Renaming
import TanLang.Proofs.Scoping.Resolution
/-!
# Scoping — renamed programs are resolved the same

A program that resolves without an issue, and the same program with a name
replaced in some of its scopes, are resolved side by side. Where a scope is
one that the renaming is for, what the one walk has declared under the old
name the other has under the new one. The new name occurs nowhere in the
program, so it hides nothing and is hidden by nothing: **every use comes to
the same distance**, and there is nothing to report.
-/

namespace TanLang

variable {α : Type}

/-! ## The names that are declared -/

namespace Stmt

mutual

/-- The names of the variables, parameters, functions and classes that a
statement declares, however deep inside. -/
def bound : Stmt α → List Text
  | block _ body => boundAll body
  | varDecl name _ => [name.lexeme]
  | branch _ _ yes no => bound yes ++ boundOption no
  | loop _ _ body => boundOption body
  | forLoop _ initial _ _ body => boundOption initial ++ boundOption body
  | function decl => decl.name.lexeme :: boundRoutine decl
  | classDecl name _ methods => name.lexeme :: boundMethods methods
  | expr _ => []
  | print _ _ => []
  | ret _ _ => []

/-- The same for statements in a row. -/
def boundAll : List (Stmt α) → List Text
  | [] => []
  | s :: rest => bound s ++ boundAll rest

/-- The same for a statement that may be missing. -/
def boundOption : Option (Stmt α) → List Text
  | none => []
  | some s => bound s

/-- The same for a function, its own name left out. -/
def boundRoutine : Routine (Stmt α) → List Text
  | ⟨_, params, body⟩ => params.map Token.lexeme ++ boundAll body

/-- The same for the methods of a class. -/
def boundMethods : List (Routine (Stmt α)) → List Text
  | [] => []
  | m :: rest => boundRoutine m ++ boundMethods rest

end

/-- A variable is declared where it stands. -/
theorem mem_declares_of_varName? {ss : List (Stmt α)} {name : Token}
    (h : name ∈ ss.filterMap varName?) : name.lexeme ∈ declares ss := by
  obtain ⟨s, hs, hname⟩ := List.mem_filterMap.1 h
  refine List.mem_filterMap.2 ⟨s, hs, ?_⟩
  cases s <;> cases hname
  rfl

theorem declaresVariable_iff {x : Text} {params : List Token} {body : List (Stmt α)} :
    declaresVariable x params body = true ↔
      (∃ p ∈ params, p.lexeme = x) ∨ ∃ name ∈ body.filterMap varName?, name.lexeme = x := by
  simp only [declaresVariable, List.any_eq_true, List.mem_append, beq_iff_eq, or_and_right,
    exists_or]

end Stmt

namespace Scoping

/-! ## A name is declared once -/

section

variable {x : Text} {sur : Surroundings} {frames : List Frame}

theorem innermost_mark (y : Text) (b : Bool) (h : (innermost x frames).isSome = true) :
    (innermost x (mark y b frames)).isSome = true := by
  cases frames with
  | nil => cases h
  | cons frame outer =>
    simp only [mark, innermost, List.head?_cons, Option.bind_some] at h ⊢
    by_cases hx : x = y
    · rw [hx, Table.find?_insert_self]
      rfl
    · rwa [Table.find?_insert_of_ne _ _ hx]

theorem innermost_framesAfter (s : Stmt α) (h : (innermost x frames).isSome = true) :
    (innermost x (framesAfter s frames)).isSome = true := by
  unfold framesAfter
  split
  · exact h
  · exact innermost_mark _ _ h

/-- A name that a statement declares can be found in the scope afterwards. -/
theorem innermost_declared {s : Stmt α} {name : Token} (hname : name ∈ s.declared)
    (hframes : frames ≠ []) : (innermost name.lexeme (framesAfter s frames)).isSome = true := by
  cases frames with
  | nil => exact absurd rfl hframes
  | cons frame outer =>
    rw [Option.mem_def] at hname
    simp only [framesAfter, hname, mark, innermost, List.head?_cons, Option.bind_some,
      Table.find?_insert_self, Option.isSome_some]

/-- Declaring a name again is an issue. -/
theorem innermost_eq_none {s : Stmt Unit} {name : Token} (hname : name ∈ s.declared)
    (hissues : (resolveStmt sur s frames).issues = []) : innermost name.lexeme frames = none := by
  have hnone : ∀ {issues : List Issue} {token : Token},
      (if (innermost token.lexeme frames).isSome = true then [⟨token, .alreadyDeclared⟩]
        else []) ++ issues = [] → innermost token.lexeme frames = none := by
    intro issues token h
    split at h
    · cases h
    · rename_i hnot
      exact Option.not_isSome_iff_eq_none.1 hnot
  cases s <;> cases hname <;> exact hnone hissues

theorem frames_ne_nil {s : Stmt α} (h : frames ≠ []) : framesAfter s frames ≠ [] := by
  unfold framesAfter
  split
  · exact h
  · cases frames with
    | nil => exact absurd rfl h
    | cons frame outer => exact List.cons_ne_nil _ _

/-- What a scope has declared is not declared again. -/
theorem not_mem_declares : ∀ {ss : List (Stmt Unit)} {frames : List Frame}, Stmt.CoreAll ss →
    (innermost x frames).isSome = true → (resolveStmts sur ss frames).issues = [] →
    x ∉ Stmt.declares ss
  | [], _, _, _, _ => List.not_mem_nil
  | s :: rest, frames, ⟨hs, hrest⟩, hsome, hissues => by
    simp only [resolveStmts, Step.bind_run, Step.pure_run, frames_resolveStmt s sur frames hs,
      List.append_nil, List.append_eq_nil_iff] at hissues
    rw [Stmt.mem_declares_cons, not_or]
    refine ⟨?_, not_mem_declares hrest (innermost_framesAfter s hsome) hissues.2⟩
    rintro ⟨name, hname, rfl⟩
    rw [innermost_eq_none hname hissues.1] at hsome
    cases hsome

/-- **A scope that has a variable or a parameter of a name has no function
and no class of that name.** -/
theorem ne_of_variable : ∀ {ss : List (Stmt Unit)} {frames : List Frame}, Stmt.CoreAll ss →
    frames ≠ [] → (resolveStmts sur ss frames).issues = [] →
    ((innermost x frames).isSome = true ∨
      ∃ name ∈ ss.filterMap Stmt.varName?, name.lexeme = x) →
    ∀ s ∈ ss, s.varName? = none → ∀ name ∈ s.declared, name.lexeme ≠ x
  | s :: rest, frames, ⟨hs, hrest⟩, hframes, hissues, hx, t, ht, hvar, name, hname => by
    simp only [resolveStmts, Step.bind_run, Step.pure_run, frames_resolveStmt s sur frames hs,
      List.append_nil, List.append_eq_nil_iff] at hissues
    have hlater : (innermost x (framesAfter s frames)).isSome = true ∨
        ∃ name ∈ rest.filterMap Stmt.varName?, name.lexeme = x := by
      rcases hx with hx | ⟨other, hother, rfl⟩
      · exact .inl (innermost_framesAfter s hx)
      · obtain ⟨u, hu, huname⟩ := List.mem_filterMap.1 hother
        rcases List.mem_cons.1 hu with rfl | hu
        · refine .inl (innermost_declared ?_ hframes)
          cases u <;> cases huname
          rfl
        · exact .inr ⟨other, List.mem_filterMap.2 ⟨u, hu, huname⟩, rfl⟩
    rcases List.mem_cons.1 ht with rfl | ht
    · rintro rfl
      -- the statement declares the name itself, so no later one does
      have hnone := innermost_eq_none hname hissues.1
      have hdone := not_mem_declares hrest (innermost_declared hname hframes) hissues.2
      rcases hx with hx | ⟨other, hother, hsame⟩
      · rw [hnone] at hx
        cases hx
      · rw [List.filterMap_cons_none hvar] at hother
        rw [← hsame] at hdone
        exact hdone (Stmt.mem_declares_of_varName? hother)
    · exact ne_of_variable hrest (frames_ne_nil hframes) hissues.2 hlater t ht hvar name hname

theorem varName?_resolveStmt (s : Stmt Unit) :
    (resolveStmt sur s frames).value.varName? = s.varName? := by
  cases s with
  | forLoop keyword initial cond step body =>
    simp only [resolveStmt, inScopeIf]
    split <;> rfl
  | ret keyword value =>
    simp only [resolveStmt]
    split <;> rfl
  | _ => rfl

theorem varNames_resolveStmts : ∀ (ss : List (Stmt Unit)) (frames : List Frame),
    (resolveStmts sur ss frames).value.filterMap Stmt.varName? = ss.filterMap Stmt.varName?
  | [], _ => rfl
  | s :: rest, frames => by
    simp only [resolveStmts, Step.bind_run, Step.pure_run, List.filterMap_cons,
      varName?_resolveStmt, varNames_resolveStmts rest]

theorem declaresVariable_resolveStmts (params : List Token) (ss : List (Stmt Unit)) :
    Stmt.declaresVariable x params (resolveStmts sur ss frames).value =
      Stmt.declaresVariable x params ss := by
  simp only [Stmt.declaresVariable, varNames_resolveStmts]

end

/-! ## The scopes of both walks -/

section

variable {r : Renaming} {around : List Bool} {frames : List Frame} {here : Bool} {x : Text}

/-- **The scopes as the walk over the renamed program has them.** -/
def reframe (r : Renaming) (around : List Bool) (frames : List Frame) : List Frame :=
  List.zipWith (fun here frame => frame.rekey (r.swap here)) around frames

/-- None of the scopes has the new name, and none that the renaming is for
has `this`. -/
inductive Clear (r : Renaming) : List Bool → List Frame → Prop where
  | nil : Clear r [] []
  | cons {here : Bool} {around : List Bool} {frame : Frame} {frames : List Frame}
      (hnew : frame.find? r.new = none) (hthis : here = true → r.old ≠ thisName)
      (hrest : Clear r around frames) : Clear r (here :: around) (frame :: frames)

theorem Clear.mark (h : Clear r around frames) (hx : x ≠ r.new) (b : Bool) :
    Clear r around (mark x b frames) := by
  cases h with
  | nil => exact .nil
  | cons hnew hthis hrest =>
    refine .cons ?_ hthis hrest
    rw [Table.find?_insert_of_ne _ _ hx.symm]
    exact hnew

theorem Clear.framesAfter (h : Clear r around frames) {s : Stmt α}
    (hs : ∀ name ∈ s.declared, name.lexeme ≠ r.new) : Clear r around (framesAfter s frames) := by
  unfold Scoping.framesAfter
  split
  · exact h
  · rename_i name hname
    exact h.mark (hs name hname) true

/-- The old name is not `this` if a scope around is one that the renaming is
for. -/
theorem Clear.ne_thisName (h : Clear r around frames) {a : Address}
    (hfor : Renaming.isFor around a = true) : r.old ≠ thisName := by
  cases a with
  | none => cases hfor
  | some d =>
    induction h generalizing d with
    | nil => cases hfor
    | cons hnew hthis hrest ih =>
      cases d with
      | zero => exact hthis hfor
      | succ d => exact ih d hfor

/-- What one scope has for a name, however the name is spelled. -/
theorem find?_rekey_swap {frame : Frame} (hnew : frame.find? r.new = none) (hx : x ≠ r.new)
    (b : Bool) : (frame.rekey (r.swap here)).find? (r.swap b x) = frame.find? x ∨
      (frame.rekey (r.swap here)).find? (r.swap b x) = none := by
  have hfind : (frame.rekey (r.swap here)).find? (r.swap b x) =
      frame.find? (r.swap here (r.swap b x)) := by
    have hback := Table.find?_rekey (Renaming.swap_injective (r := r) here) frame
      (r.swap here (r.swap b x))
    rwa [Renaming.swap_swap] at hback
  rw [hfind]
  by_cases hsame : here = b
  · rw [hsame, Renaming.swap_swap]
    exact .inl rfl
  · -- one of the two exchanges the names, the other does nothing
    have hone : r.swap here (r.swap b x) = r.swap true x := by
      cases here <;> cases b <;> first | rfl | exact absurd rfl hsame
    rw [hone]
    by_cases hold : x = r.old
    · refine .inr ?_
      have hnewName : r.swap true r.old = r.new := by simp [Renaming.swap]
      rw [hold, hnewName]
      exact hnew
    · rw [Renaming.swap_of_ne fun _ => ⟨hold, hx⟩]
      exact .inl rfl

/-- **A use comes to the same distance in both walks.** -/
theorem distance_reframe (h : Clear r around frames) (hx : x ≠ r.new) :
    distance (r.swap (Renaming.isFor around (distance x frames)) x) (reframe r around frames) =
      distance x frames := by
  induction h with
  | nil => rfl
  | @cons here around frame frames hnew hthis hrest ih =>
    have hcons : ∀ (y : Text) (frame : Frame) (frames : List Frame),
        distance y (frame :: frames) =
          if frame.contains y then some 0 else (distance y frames).map (· + 1) :=
      fun _ _ _ => List.findIdx?_cons
    have hreframe : reframe r (here :: around) (frame :: frames) =
        frame.rekey (r.swap here) :: reframe r around frames := rfl
    rw [hreframe, hcons, hcons]
    by_cases hfound : frame.contains x = true
    · have hsame : (frame.rekey (r.swap here)).contains (r.swap here x) = true := by
        rw [Table.contains, Table.find?_rekey (Renaming.swap_injective here)]
        exact hfound
      rw [if_pos hfound]
      exact if_pos hsame
    · have hstep : Renaming.isFor (here :: around) ((distance x frames).map (· + 1)) =
          Renaming.isFor around (distance x frames) := by
        cases distance x frames <;> rfl
      have hnone : frame.find? x = none := by
        simpa only [Table.contains, Option.not_isSome_iff_eq_none] using hfound
      have hother : ¬ (frame.rekey (r.swap here)).contains
          (r.swap (Renaming.isFor around (distance x frames)) x) = true := by
        rw [Table.contains]
        rcases find?_rekey_swap hnew hx (Renaming.isFor around (distance x frames)) with hf | hf
        · rw [hf, hnone]
          exact Bool.false_ne_true
        · rw [hf]
          exact Bool.false_ne_true
      rw [if_neg hfound, hstep, if_neg hother, ih]

/-- A name that can be read in the one walk can be read in the other. -/
theorem innermost_reframe (h : Clear r around frames) (hx : x ≠ r.new) (b : Bool)
    (hread : innermost x frames ≠ some false) :
    innermost (r.swap b x) (reframe r around frames) ≠ some false := by
  cases h with
  | nil => nofun
  | @cons here _ frame _ hnew =>
    show (frame.rekey (r.swap here)).find? (r.swap b x) ≠ some false
    rcases find?_rekey_swap hnew hx b with hf | hf
    · rw [hf]
      exact hread
    · rw [hf]
      nofun

/-- A name declared in the innermost scope, as it is spelled in either
walk. -/
theorem innermost_head (h : Clear r around frames) :
    innermost (r.swap (around.headD false) x) (reframe r around frames) = innermost x frames := by
  cases h with
  | nil => rfl
  | cons => exact Table.find?_rekey (Renaming.swap_injective _) _ _

theorem mark_reframe (h : Clear r around frames) (b : Bool) :
    mark (r.swap (around.headD false) x) b (reframe r around frames) =
      reframe r around (mark x b frames) := by
  cases h with
  | nil => rfl
  | @cons here _ frame =>
    have hinsert := Table.rekey_insert (Renaming.swap_injective (r := r) here) frame x b
    simp only [mark, reframe, List.zipWith_cons_cons, List.headD_cons, hinsert]

/-- How a token is spelled after a renaming. -/
theorem lexeme_token {t : Token} (ht : t.lexeme ≠ r.new) (here : Bool) :
    (r.token here t).lexeme = r.swap here t.lexeme :=
  Renaming.Respells.lexeme ⟨fun _ => ht, rfl⟩

theorem rekey_false (frame : Frame) : frame.rekey (r.swap false) = frame := Table.rekey_id frame

end

/-! ## Both walks -/

/-- **A piece of program and its renamed twin.** The twin differs in how names
are spelled, it is resolved without an issue, and what comes out is the
piece, resolved and then renamed. -/
structure Twins {β γ : Type} (r : Renaming) (around : List Bool) (frames : List Frame)
    (respelled : β → β → Prop) (varies : γ → γ → Prop) (resolve : β → Step γ) (rename : γ → γ)
    (a a' : β) : Prop where
  respelled : respelled a a'
  resolved : resolve a' (reframe r around frames) =
    ⟨rename (resolve a frames).value, reframe r around (resolve a frames).frames, []⟩
  varies : varies (resolve a frames).value (rename (resolve a frames).value)

section

variable {r : Renaming} {sur : Surroundings} {around : List Bool} {frames : List Frame}

/-- A use of a name, and how it is resolved in both walks. -/
theorem use_twins (hclear : Clear r around frames) {name : Token} (hname : name.lexeme ≠ r.new) :
    distance (r.token (Renaming.isFor around (distance name.lexeme frames)) name).lexeme
        (reframe r around frames) = distance name.lexeme frames ∧
      r.variation.use around name (distance name.lexeme frames)
        (r.token (Renaming.isFor around (distance name.lexeme frames)) name)
        (distance name.lexeme frames) := by
  refine ⟨?_, rfl, fun _ => hname, rfl⟩
  rw [lexeme_token hname]
  exact distance_reframe hclear hname

/-- A read that is no issue in the one walk is none in the other. -/
theorem readable_twins (hclear : Clear r around frames) {name : Token} (hname : name.lexeme ≠ r.new)
    (hread : innermost name.lexeme frames ≠ some false) (here : Bool) :
    innermost (r.token here name).lexeme (reframe r around frames) ≠ some false := by
  rw [lexeme_token hname]
  exact innermost_reframe hclear hname _ hread

section

variable (r sur around frames)

/-- Expressions that are twins. -/
abbrev ExprTwins : Expr Unit → Expr Unit → Prop :=
  Twins r around frames (Expr.Varies r.respelling around) (Expr.Varies r.variation around)
    (resolveExpr sur) (Expr.rename r around)

/-- The same for expressions in a row. -/
abbrev ExprsTwins : List (Expr Unit) → List (Expr Unit) → Prop :=
  Twins r around frames (Expr.VariesAll r.respelling around) (Expr.VariesAll r.variation around)
    (resolveExprs sur) (Expr.renameAll r around)

/-- The same for an expression that may be missing. -/
abbrev ExprOptionTwins : Option (Expr Unit) → Option (Expr Unit) → Prop :=
  Twins r around frames (Expr.VariesOption r.respelling around)
    (Expr.VariesOption r.variation around) (resolveOption sur) (Option.map (Expr.rename r around))

end

/-! ### Expressions -/

mutual

/-- **An expression resolved without an issue has a twin.** -/
theorem exists_exprTwins (hnew : r.new ≠ thisName) (hclear : Clear r around frames) :
    ∀ e : Expr Unit, e.Spelled → r.new ∉ e.mentioned → (resolveExpr sur e frames).issues = [] →
    ∃ e', ExprTwins r sur around frames e e'
  | .literal token value, _, _, _ => ⟨.literal token value, .literal token value, rfl, .literal _ _⟩
  | .grouping paren inner, hspelled, hfresh, hissues => by
    simp only [resolveExpr, Step.bind_run, Step.pure_run, List.append_nil] at hissues
    obtain ⟨inner', h⟩ := exists_exprTwins hnew hclear inner hspelled hfresh hissues
    refine ⟨.grouping paren inner', .grouping paren h.respelled, ?_, .grouping paren h.varies⟩
    simp only [resolveExpr, Step.bind_run, Step.pure_run, h.resolved, Expr.rename,
      List.append_nil]
  | .unary op operand, hspelled, hfresh, hissues => by
    simp only [resolveExpr, Step.bind_run, Step.pure_run, List.append_nil] at hissues
    obtain ⟨operand', h⟩ := exists_exprTwins hnew hclear operand hspelled hfresh hissues
    refine ⟨.unary op operand', .unary op h.respelled, ?_, .unary op h.varies⟩
    simp only [resolveExpr, Step.bind_run, Step.pure_run, h.resolved, Expr.rename,
      List.append_nil]
  | .binary left op right, hspelled, hfresh, hissues => by
    simp only [Expr.mentioned, List.mem_append, not_or] at hfresh
    simp only [resolveExpr, Step.bind_run, Step.pure_run, frames_resolveExpr, List.append_nil,
      List.append_eq_nil_iff] at hissues
    obtain ⟨left', hl⟩ := exists_exprTwins hnew hclear left hspelled.1 hfresh.1 hissues.1
    obtain ⟨right', hr⟩ := exists_exprTwins hnew hclear right hspelled.2 hfresh.2 hissues.2
    refine ⟨.binary left' op right', .binary op hl.respelled hr.respelled, ?_, ?_⟩
    · simp only [resolveExpr, Step.bind_run, Step.pure_run, hl.resolved, hr.resolved,
        frames_resolveExpr, Expr.rename, List.append_nil]
    · simp only [resolveExpr, Step.bind_run, Step.pure_run, frames_resolveExpr, Expr.rename]
      exact .binary op hl.varies hr.varies
  | .ternary cond mark yes no, hspelled, hfresh, hissues => by
    simp only [Expr.mentioned, List.mem_append, not_or] at hfresh
    simp only [resolveExpr, Step.bind_run, Step.pure_run, frames_resolveExpr, List.append_nil,
      List.append_eq_nil_iff] at hissues
    obtain ⟨cond', hc⟩ := exists_exprTwins hnew hclear cond hspelled.1 hfresh.1.1 hissues.1
    obtain ⟨yes', hy⟩ := exists_exprTwins hnew hclear yes hspelled.2.1 hfresh.1.2 hissues.2.1
    obtain ⟨no', hn⟩ := exists_exprTwins hnew hclear no hspelled.2.2 hfresh.2 hissues.2.2
    refine ⟨.ternary cond' mark yes' no',
      .ternary mark hc.respelled hy.respelled hn.respelled, ?_, ?_⟩
    · simp only [resolveExpr, Step.bind_run, Step.pure_run, hc.resolved, hy.resolved, hn.resolved,
        frames_resolveExpr, Expr.rename, List.append_nil]
    · simp only [resolveExpr, Step.bind_run, Step.pure_run, frames_resolveExpr, Expr.rename]
      exact .ternary mark hc.varies hy.varies hn.varies
  | .logical left op right, hspelled, hfresh, hissues => by
    simp only [Expr.mentioned, List.mem_append, not_or] at hfresh
    simp only [resolveExpr, Step.bind_run, Step.pure_run, frames_resolveExpr, List.append_nil,
      List.append_eq_nil_iff] at hissues
    obtain ⟨left', hl⟩ := exists_exprTwins hnew hclear left hspelled.1 hfresh.1 hissues.1
    obtain ⟨right', hr⟩ := exists_exprTwins hnew hclear right hspelled.2 hfresh.2 hissues.2
    refine ⟨.logical left' op right', .logical op hl.respelled hr.respelled, ?_, ?_⟩
    · simp only [resolveExpr, Step.bind_run, Step.pure_run, hl.resolved, hr.resolved,
        frames_resolveExpr, Expr.rename, List.append_nil]
    · simp only [resolveExpr, Step.bind_run, Step.pure_run, frames_resolveExpr, Expr.rename]
      exact .logical op hl.varies hr.varies
  | .var name mark, _, hfresh, hissues => by
    simp only [Expr.mentioned, List.mem_singleton] at hfresh
    simp only [resolveExpr, Step.bind_run, Step.pure_run, checkReadable_run, locate_run,
      List.append_nil, ite_eq_right_iff, reduceCtorEq, imp_false] at hissues
    obtain ⟨hdistance, huse⟩ := use_twins hclear (Ne.symm hfresh)
    have hread := readable_twins hclear (Ne.symm hfresh) hissues
      (Renaming.isFor around (distance name.lexeme frames))
    refine ⟨.var (r.token (Renaming.isFor around (distance name.lexeme frames)) name) mark,
      .var huse.2.respelled, ?_, .var huse⟩
    simp only [resolveExpr, Step.bind_run, Step.pure_run, checkReadable_run, locate_run,
      if_neg hread, hdistance, Expr.rename, List.append_nil]
  | .assign name mark value, hspelled, hfresh, hissues => by
    simp only [Expr.mentioned, List.mem_cons, not_or] at hfresh
    simp only [resolveExpr, Step.bind_run, Step.pure_run, frames_resolveExpr, locate_run,
      List.append_nil] at hissues
    obtain ⟨hdistance, huse⟩ := use_twins hclear (Ne.symm hfresh.1)
    obtain ⟨value', h⟩ := exists_exprTwins hnew hclear value hspelled.2 hfresh.2 hissues
    refine ⟨.assign (r.token (Renaming.isFor around (distance name.lexeme frames)) name) mark
      value', .assign huse.2.respelled h.respelled, ?_, ?_⟩
    · simp only [resolveExpr, Step.bind_run, Step.pure_run, h.resolved, frames_resolveExpr,
        locate_run, hdistance, Expr.rename, List.append_nil]
    · simp only [resolveExpr, Step.bind_run, Step.pure_run, frames_resolveExpr, locate_run,
        Expr.rename]
      exact .assign huse h.varies
  | .call callee paren args, hspelled, hfresh, hissues => by
    simp only [Expr.mentioned, List.mem_append, not_or] at hfresh
    simp only [resolveExpr, Step.bind_run, Step.pure_run, frames_resolveExpr, List.append_nil,
      List.append_eq_nil_iff] at hissues
    obtain ⟨callee', hc⟩ := exists_exprTwins hnew hclear callee hspelled.1 hfresh.1 hissues.1
    obtain ⟨args', ha⟩ := exists_exprsTwins hnew hclear args hspelled.2 hfresh.2 hissues.2
    refine ⟨.call callee' paren args', .call paren hc.respelled ha.respelled, ?_, ?_⟩
    · simp only [resolveExpr, Step.bind_run, Step.pure_run, hc.resolved, ha.resolved,
        frames_resolveExpr, Expr.rename, List.append_nil]
    · simp only [resolveExpr, Step.bind_run, Step.pure_run, frames_resolveExpr, Expr.rename]
      exact .call paren hc.varies ha.varies
  | .get object name, hspelled, hfresh, hissues => by
    simp only [resolveExpr, Step.bind_run, Step.pure_run, List.append_nil] at hissues
    obtain ⟨object', h⟩ := exists_exprTwins hnew hclear object hspelled hfresh hissues
    refine ⟨.get object' name, .get name h.respelled, ?_, .get name h.varies⟩
    simp only [resolveExpr, Step.bind_run, Step.pure_run, h.resolved, Expr.rename,
      List.append_nil]
  | .set object name value, hspelled, hfresh, hissues => by
    simp only [Expr.mentioned, List.mem_append, not_or] at hfresh
    simp only [resolveExpr, Step.bind_run, Step.pure_run, frames_resolveExpr, List.append_nil,
      List.append_eq_nil_iff] at hissues
    obtain ⟨object', ho⟩ := exists_exprTwins hnew hclear object hspelled.1 hfresh.1 hissues.2
    obtain ⟨value', hv⟩ := exists_exprTwins hnew hclear value hspelled.2 hfresh.2 hissues.1
    refine ⟨.set object' name value', .set name ho.respelled hv.respelled, ?_, ?_⟩
    · simp only [resolveExpr, Step.bind_run, Step.pure_run, ho.resolved, hv.resolved,
        frames_resolveExpr, Expr.rename, List.append_nil]
    · simp only [resolveExpr, Step.bind_run, Step.pure_run, frames_resolveExpr, Expr.rename]
      exact .set name ho.varies hv.varies
  | .receiver keyword mark, hspelled, _, hissues => by
    have hthis : keyword.lexeme = thisName := hspelled
    have hne : keyword.lexeme ≠ r.new := by
      rw [hthis]
      exact hnew.symm
    simp only [resolveExpr] at hissues
    split at hissues
    · rename_i hclass
      -- the scopes that the renaming is for do not have `this`
      have hold : Renaming.isFor around (distance keyword.lexeme frames) = true →
          keyword.lexeme ≠ r.old ∧ keyword.lexeme ≠ r.new := fun hfor =>
        ⟨by rw [hthis]; exact (hclear.ne_thisName hfor).symm, hne⟩
      have hdistance := distance_reframe hclear hne
      rw [Renaming.swap_of_ne hold] at hdistance
      refine ⟨.receiver keyword mark, .receiver trivial, ?_, ?_⟩
      · simp only [resolveExpr, hclass, if_true, Step.bind_run, Step.pure_run, locate_run,
          hdistance, Expr.rename, List.append_nil]
      · simp only [resolveExpr, hclass, if_true, Step.bind_run, Step.pure_run, locate_run,
          Expr.rename]
        exact .receiver ⟨rfl, hold⟩
    · simp only [Step.bind_run, Step.pure_run, complain_run, List.append_nil, List.cons_ne_nil]
        at hissues

/-- The same for expressions in a row. -/
theorem exists_exprsTwins (hnew : r.new ≠ thisName) (hclear : Clear r around frames) :
    ∀ es : List (Expr Unit), Expr.SpelledAll es → r.new ∉ Expr.mentionedAll es →
    (resolveExprs sur es frames).issues = [] → ∃ es', ExprsTwins r sur around frames es es'
  | [], _, _, _ => ⟨[], .nil, rfl, .nil⟩
  | e :: rest, hspelled, hfresh, hissues => by
    simp only [Expr.mentionedAll, List.mem_append, not_or] at hfresh
    simp only [resolveExprs, Step.bind_run, Step.pure_run, frames_resolveExpr, List.append_nil,
      List.append_eq_nil_iff] at hissues
    obtain ⟨e', he⟩ := exists_exprTwins hnew hclear e hspelled.1 hfresh.1 hissues.1
    obtain ⟨rest', hrest⟩ := exists_exprsTwins hnew hclear rest hspelled.2 hfresh.2 hissues.2
    refine ⟨e' :: rest', .cons he.respelled hrest.respelled, ?_, ?_⟩
    · simp only [resolveExprs, Step.bind_run, Step.pure_run, he.resolved, hrest.resolved,
        frames_resolveExpr, frames_resolveExprs, Expr.renameAll, List.append_nil]
    · simp only [resolveExprs, Step.bind_run, Step.pure_run, frames_resolveExpr, Expr.renameAll]
      exact .cons he.varies hrest.varies

end

/-- The same for an expression that may be missing. -/
theorem exists_exprOptionTwins (hnew : r.new ≠ thisName) (hclear : Clear r around frames)
    {e : Option (Expr Unit)} (hspelled : Expr.SpelledOption e)
    (hfresh : r.new ∉ Expr.mentionedOption e) (hissues : (resolveOption sur e frames).issues = []) :
    ∃ e', ExprOptionTwins r sur around frames e e' := by
  cases e with
  | none => exact ⟨none, .none, rfl, .none⟩
  | some e =>
    simp only [resolveOption, Step.bind_run, Step.pure_run, List.append_nil] at hissues
    obtain ⟨e', h⟩ := exists_exprTwins hnew hclear e hspelled hfresh hissues
    refine ⟨some e', .some h.respelled, ?_, .some h.varies⟩
    simp only [resolveOption, Step.bind_run, Step.pure_run, h.resolved, Option.map_some,
      List.append_nil]

/-! ### Declarations -/

theorem tail_reframe (here : Bool) (frames : List Frame) :
    (reframe r (here :: around) frames).tail = reframe r around frames.tail := by
  cases frames with
  | nil => simp [reframe]
  | cons frame outer => rfl

/-- A name declared in both walks. -/
theorem mark_twins (hclear : Clear r around frames) {name : Token} (hname : name.lexeme ≠ r.new)
    (b : Bool) : mark (r.token (around.headD false) name).lexeme b (reframe r around frames) =
      reframe r around (mark name.lexeme b frames) := by
  rw [lexeme_token hname]
  exact mark_reframe hclear b

theorem innermost_twins (hclear : Clear r around frames) {name : Token}
    (hname : name.lexeme ≠ r.new) :
    innermost (r.token (around.headD false) name).lexeme (reframe r around frames) =
      innermost name.lexeme frames := by
  rw [lexeme_token hname]
  exact innermost_head hclear

/-- A name that is not the old one where the renaming is for stays. -/
theorem token_eq_self {here : Bool} {t : Token} (h : here = true → t.lexeme ≠ r.old) :
    r.token here t = t := by
  unfold Renaming.token Renaming.apply
  by_cases hhere : here = true
  · rw [if_pos hhere, if_neg (h hhere)]
  · exact if_neg hhere

/-- The name of a function or a class declared in both walks: it is spelled
the same. -/
theorem named_twins (hclear : Clear r around frames) {name : Token} (hname : name.lexeme ≠ r.new)
    (hold : around.headD false = true → name.lexeme ≠ r.old) :
    innermost name.lexeme (reframe r around frames) = innermost name.lexeme frames ∧
      mark name.lexeme true (reframe r around frames) =
        reframe r around (mark name.lexeme true frames) := by
  have hinnermost := innermost_twins hclear hname
  have hmark := mark_twins hclear hname true
  rw [token_eq_self hold] at hinnermost hmark
  exact ⟨hinnermost, hmark⟩

/-- Parameters declared in both walks. -/
theorem declareAll_twins : ∀ {params : List Token} {frames : List Frame},
    Clear r around frames → (∀ p ∈ params, p.lexeme ≠ r.new) →
    (declareAll params frames).issues = [] →
    declareAll (params.map (r.token (around.headD false))) (reframe r around frames) =
      ⟨(), reframe r around (declareAll params frames).frames, []⟩ ∧
    Clear r around (declareAll params frames).frames
  | [], _, hclear, _, _ => ⟨rfl, hclear⟩
  | p :: rest, frames, hclear, hfresh, hissues => by
    obtain ⟨hp, hrest⟩ := List.forall_mem_cons.1 hfresh
    simp only [declareAll, Step.bind_run, declare_run, define_run, mark_mark, List.nil_append,
      List.append_eq_nil_iff] at hissues ⊢
    obtain ⟨hall, hclear'⟩ := declareAll_twins (hclear.mark hp true) hrest hissues.2
    refine ⟨?_, hclear'⟩
    simp only [ite_eq_right_iff, List.cons_ne_nil, imp_false] at hissues
    simp only [List.map_cons, declareAll, Step.bind_run, declare_run, define_run, mark_mark,
      innermost_twins hclear hp, mark_twins hclear hp, mark_twins (hclear.mark hp false) hp, hall,
      if_neg hissues.1, List.append_nil]

/-- A superclass in both walks. -/
theorem exists_superclassTwins {name : Token} (hclear : Clear r around frames)
    (hname : name.lexeme ≠ r.new) {superclass : Option (Token × Unit)}
    (hfresh : r.new ∉ (superclass.map fun s => s.1.lexeme).toList)
    (hissues : (resolveSuperclass name superclass frames).issues = []) :
    ∃ superclass', Twins r around frames (Stmt.SuperclassVaries r.respelling around)
      (Stmt.SuperclassVaries r.variation around) (resolveSuperclass name)
      (Option.map fun s => (r.token (Renaming.isFor around s.2) s.1, s.2))
      superclass superclass' := by
  cases superclass with
  | none => exact ⟨none, .none, rfl, .none⟩
  | some named =>
    obtain ⟨sup, mark⟩ := named
    simp only [Option.map_some, Option.toList_some, List.mem_singleton] at hfresh
    simp only [resolveSuperclass] at hissues
    by_cases hself : sup.lexeme = name.lexeme
    · simp only [hself, if_true, Step.bind_run, complain_run, List.cons_append,
        List.cons_ne_nil] at hissues
    · simp only [hself, if_false, Step.bind_run, Step.pure_run, checkReadable_run, locate_run,
        List.append_nil, ite_eq_right_iff, List.cons_ne_nil, imp_false] at hissues
      obtain ⟨hdistance, huse⟩ := use_twins hclear (Ne.symm hfresh)
      have hread := readable_twins hclear (Ne.symm hfresh) hissues
        (Renaming.isFor around (distance sup.lexeme frames))
      -- the class is not named anew, so its superclass does not get its name
      have hother :
          (r.token (Renaming.isFor around (distance sup.lexeme frames)) sup).lexeme ≠
            name.lexeme := by
        rcases huse.2.respelled with hsame | ⟨-, hnewName⟩
        · rw [hsame]
          exact hself
        · rw [hnewName]
          exact hname.symm
      refine ⟨some (r.token (Renaming.isFor around (distance sup.lexeme frames)) sup, mark),
        .some huse.2.respelled, ?_, ?_⟩
      · simp only [resolveSuperclass, hother, hself, if_false, Step.bind_run, Step.pure_run,
          checkReadable_run, locate_run, if_neg hread, hdistance, Option.map_some,
          List.append_nil]
      · simp only [resolveSuperclass, hself, if_false, Step.bind_run, Step.pure_run,
          checkReadable_run, locate_run, Option.map_some]
        exact .some huse

end

/-! ### Statements -/

section

variable (r : Renaming) (chosen : Nat → Bool) (sur : Surroundings) (around : List Bool) (n : Nat)
variable (frames : List Frame)

/-- Statements that are twins. -/
abbrev StmtTwins : Stmt Unit → Stmt Unit → Prop :=
  Twins r around frames (Stmt.Varies r.respelling around) (Stmt.Varies r.variation around)
    (resolveStmt sur) (Stmt.rename r chosen around n)

/-- The same for statements in a row. -/
abbrev StmtsTwins : List (Stmt Unit) → List (Stmt Unit) → Prop :=
  Twins r around frames (Stmt.VariesAll r.respelling around) (Stmt.VariesAll r.variation around)
    (resolveStmts sur) (Stmt.renameAll r chosen around n)

/-- The same for a statement that may be missing. -/
abbrev StmtOptionTwins : Option (Stmt Unit) → Option (Stmt Unit) → Prop :=
  Twins r around frames (Stmt.VariesOption r.respelling around)
    (Stmt.VariesOption r.variation around) (resolveOptionStmt sur)
    (Stmt.renameOption r chosen around n)

/-- The same for functions. -/
abbrev RoutineTwins : Routine (Stmt Unit) → Routine (Stmt Unit) → Prop :=
  Twins r around frames (Stmt.RoutineVaries r.respelling around)
    (Stmt.RoutineVaries r.variation around) (resolveRoutine sur)
    (Stmt.renameRoutine r chosen around n)

/-- The same for the methods of a class. -/
abbrev MethodsTwins : List (Routine (Stmt Unit)) → List (Routine (Stmt Unit)) → Prop :=
  Twins r around frames (Stmt.MethodsVary r.respelling around)
    (Stmt.MethodsVary r.variation around) (resolveMethods sur)
    (Stmt.renameMethods r chosen around n)

/-- In a scope that the renaming is for, a statement that declares no
variable does not declare the old name. -/
def Apart (s : Stmt α) : Prop :=
  around.headD false = true → s.varName? = none → ∀ name ∈ s.declared, name.lexeme ≠ r.old

end

section

variable {r : Renaming} {chosen : Nat → Bool} {around : List Bool}

theorem Apart.of_none {s : Stmt α} (h : s.declared = none) : Apart r around s := by
  intro _ _ name hname
  rw [h] at hname
  cases hname

/-- A scope entered in both walks, and whether the renaming is for it. -/
theorem entered (around : List Bool) {sur : Surroundings} {params : List Token}
    {body : List (Stmt Unit)} {frames : List Frame} (hparams : ∀ p ∈ params, p.lexeme ≠ thisName)
    (hcore : Stmt.CoreAll body)
    (hissues : (resolveStmts sur body (paramFrame params :: frames)).issues = [])
    {here picked : Bool} (hhere : here = (picked && Stmt.declaresVariable r.old params
      (resolveStmts sur body (paramFrame params :: frames)).value)) :
    (here = true → r.old ≠ thisName) ∧ ∀ s ∈ body, Apart r (here :: around) s := by
  have hdeclares : here = true → Stmt.declaresVariable r.old params body = true := by
    intro h
    rw [hhere, declaresVariable_resolveStmts, Bool.and_eq_true] at h
    exact h.2
  refine ⟨fun h => ?_, fun s hs h hvar => ?_⟩
  · rcases Stmt.declaresVariable_iff.1 (hdeclares h) with ⟨p, hp, hold⟩ | ⟨name, hname, hold⟩
    · rw [← hold]
      exact hparams p hp
    · rw [← hold]
      exact ne_thisName_of_mem_declares hcore _ (Stmt.mem_declares_of_varName? hname)
  · refine ne_of_variable hcore (List.cons_ne_nil _ _) hissues ?_ s hs hvar
    rcases Stmt.declaresVariable_iff.1 (hdeclares h) with ⟨p, hp, hold⟩ | hvariable
    · refine .inl ?_
      have hfind := find?_paramFrame_of_mem hp
      rw [hold] at hfind
      simp only [innermost, List.head?_cons, Option.bind_some, hfind, Option.isSome_some]
    · exact .inr hvariable

mutual

/-- **A statement resolved without an issue has a twin.** -/
theorem exists_stmtTwins (hnew : r.new ≠ thisName) : ∀ (s : Stmt Unit) (sur : Surroundings)
    (around : List Bool) (n : Nat) (frames : List Frame), Clear r around frames → s.Core →
    r.new ∉ s.mentioned → r.new ∉ s.bound → Apart r around s →
    (resolveStmt sur s frames).issues = [] → ∃ s', StmtTwins r chosen sur around n frames s s'
  | .block brace body, sur, around, n, frames, hclear, hcore, hfresh, hbound, _, hissues => by
    simp only [resolveStmt, Step.bind_run, Step.pure_run, inScope_run, List.append_nil]
      at hissues
    obtain ⟨here, hhere⟩ : ∃ here, here = (chosen n && Stmt.declaresVariable r.old []
      (resolveStmts sur body (.empty :: frames)).value) := ⟨_, rfl⟩
    obtain ⟨hthis, hapart⟩ := entered around (List.forall_mem_nil _) hcore hissues hhere
    obtain ⟨body', h⟩ := exists_stmtsTwins hnew body sur (here :: around) (n + 1)
      (.empty :: frames) (.cons rfl hthis hclear) hcore hfresh hbound hapart hissues
    have hresolved : resolveStmts sur body' (.empty :: reframe r around frames) = _ := h.resolved
    refine ⟨.block brace body', .block here brace h.respelled, ?_, ?_⟩
    · simp only [resolveStmt, Step.bind_run, Step.pure_run, inScope_run, hresolved, tail_reframe,
        Stmt.rename, ← hhere, List.append_nil]
    · simp only [resolveStmt, Step.bind_run, Step.pure_run, inScope_run, Stmt.rename, ← hhere]
      exact .block here brace h.varies
  | .expr e, sur, around, n, frames, hclear, hcore, hfresh, _, _, hissues => by
    simp only [resolveStmt, Step.bind_run, Step.pure_run, List.append_nil] at hissues
    obtain ⟨e', h⟩ := exists_exprTwins hnew hclear e hcore hfresh hissues
    refine ⟨.expr e', .expr h.respelled, ?_, .expr h.varies⟩
    simp only [resolveStmt, Step.bind_run, Step.pure_run, h.resolved, Stmt.rename,
      List.append_nil]
  | .print keyword value, sur, around, n, frames, hclear, hcore, hfresh, _, _, hissues => by
    simp only [resolveStmt, Step.bind_run, Step.pure_run, List.append_nil] at hissues
    obtain ⟨value', h⟩ := exists_exprTwins hnew hclear value hcore hfresh hissues
    refine ⟨.print keyword value', .print keyword h.respelled, ?_, .print keyword h.varies⟩
    simp only [resolveStmt, Step.bind_run, Step.pure_run, h.resolved, Stmt.rename,
      List.append_nil]
  | .varDecl name initial, sur, around, n, frames, hclear, hcore, hfresh, hbound, _, hissues => by
    have hname : name.lexeme ≠ r.new := fun h => hbound (by simp [Stmt.bound, h])
    simp only [resolveStmt, Step.bind_run, Step.pure_run, declare_run, define_run,
      frames_resolveOption, List.append_nil, List.append_eq_nil_iff, ite_eq_right_iff,
      List.cons_ne_nil, imp_false] at hissues
    have hmarked := hclear.mark hname false
    obtain ⟨initial', h⟩ := exists_exprOptionTwins hnew hmarked hcore.2 hfresh hissues.2
    refine ⟨.varDecl (r.token (around.headD false) name) initial',
      .varDecl (Renaming.respelled_token _ name) h.respelled, ?_,
      .varDecl ⟨fun _ => hname, rfl⟩ h.varies⟩
    simp only [resolveStmt, Step.bind_run, Step.pure_run, declare_run, define_run,
      innermost_twins hclear hname, mark_twins hclear hname, mark_twins hmarked hname, h.resolved,
      frames_resolveOption, Stmt.rename, if_neg hissues.1, List.append_nil]
  | .branch keyword cond yes no, sur, around, n, frames, hclear, ⟨hcond, ⟨hdeclared, hyes⟩, hno⟩,
      hfresh, hbound, _, hissues => by
    simp only [Stmt.mentioned, List.mem_append, not_or] at hfresh
    simp only [Stmt.bound, List.mem_append, not_or] at hbound
    simp only [resolveStmt, Step.bind_run, Step.pure_run, frames_resolveExpr,
      frames_resolveStmt yes sur frames hyes, framesAfter_of_none hdeclared, List.append_nil,
      List.append_eq_nil_iff] at hissues
    obtain ⟨cond', hc⟩ := exists_exprTwins hnew hclear cond hcond hfresh.1.1 hissues.1
    obtain ⟨yes', hy⟩ := exists_stmtTwins hnew yes sur around n frames hclear hyes hfresh.1.2
      hbound.1 (.of_none hdeclared) hissues.2.1
    obtain ⟨no', hn⟩ := exists_stmtOptionTwins hnew no sur around
      (n + (resolveStmt sur yes frames).value.scopes) frames hclear hno hfresh.2 hbound.2
      hissues.2.2
    refine ⟨.branch keyword cond' yes' no',
      .branch keyword hc.respelled hy.respelled hn.respelled, ?_, ?_⟩
    · simp only [resolveStmt, Step.bind_run, Step.pure_run, hc.resolved, hy.resolved, hn.resolved,
        frames_resolveExpr, frames_resolveStmt yes sur frames hyes, framesAfter_of_none hdeclared,
        Stmt.rename, List.append_nil]
    · simp only [resolveStmt, Step.bind_run, Step.pure_run, frames_resolveExpr,
        frames_resolveStmt yes sur frames hyes, framesAfter_of_none hdeclared, Stmt.rename]
      exact .branch keyword hc.varies hy.varies hn.varies
  | .loop keyword cond body, sur, around, n, frames, hclear, ⟨hcond, hbody⟩, hfresh, hbound, _,
      hissues => by
    simp only [Stmt.mentioned, List.mem_append, not_or] at hfresh
    simp only [resolveStmt, Step.bind_run, Step.pure_run, frames_resolveExpr, List.append_nil,
      List.append_eq_nil_iff] at hissues
    obtain ⟨cond', hc⟩ := exists_exprTwins hnew hclear cond hcond hfresh.1 hissues.1
    obtain ⟨body', hb⟩ := exists_stmtOptionTwins hnew body sur around n frames hclear hbody
      hfresh.2 hbound hissues.2
    refine ⟨.loop keyword cond' body', .loop keyword hc.respelled hb.respelled, ?_, ?_⟩
    · simp only [resolveStmt, Step.bind_run, Step.pure_run, hc.resolved, hb.resolved,
        frames_resolveExpr, Stmt.rename, List.append_nil]
    · simp only [resolveStmt, Step.bind_run, Step.pure_run, frames_resolveExpr, Stmt.rename]
      exact .loop keyword hc.varies hb.varies
  | .forLoop _ _ _ _ _, _, _, _, _, _, hcore, _, _, _, _ => hcore.elim
  | .function decl, sur, around, n, frames, hclear, hcore, hfresh, hbound, hapart, hissues => by
    simp only [Stmt.bound, List.mem_cons, not_or] at hbound
    have hname : decl.name.lexeme ≠ r.new := Ne.symm hbound.1
    have hold := fun h => hapart h rfl decl.name rfl
    simp only [resolveStmt, Step.bind_run, Step.pure_run, declare_run, define_run, mark_mark,
      List.append_nil, List.nil_append, List.append_eq_nil_iff, ite_eq_right_iff,
      List.cons_ne_nil, imp_false] at hissues
    obtain ⟨decl', h⟩ := exists_routineTwins hnew decl sur around n _ (hclear.mark hname true)
      hcore.2 hfresh hbound.2 hissues.2
    obtain ⟨hinnermost, hmark⟩ := named_twins hclear hname hold
    refine ⟨.function decl', .function trivial h.respelled, ?_, ?_⟩
    · simp only [resolveStmt, Step.bind_run, Step.pure_run, declare_run, define_run, mark_mark,
        h.respelled.name_eq, hinnermost, hmark, h.resolved, if_neg hissues.1, Stmt.rename,
        List.append_nil]
    · simp only [resolveStmt, Step.bind_run, Step.pure_run, declare_run, define_run, mark_mark,
        Stmt.rename]
      refine .function (fun hfor => ?_) h.varies
      rw [name_resolveRoutine]
      exact ⟨hold hfor, hname⟩
  | .ret keyword value, sur, around, n, frames, hclear, hcore, hfresh, _, _, hissues => by
    simp only [resolveStmt] at hissues
    by_cases hinside : sur.inFunction = true
    · rw [if_pos hinside] at hissues
      simp only [Step.bind_run, Step.pure_run, List.append_nil] at hissues
      obtain ⟨value', h⟩ := exists_exprOptionTwins hnew hclear hcore hfresh hissues
      refine ⟨.ret keyword value', .ret keyword h.respelled, ?_, ?_⟩
      · simp only [resolveStmt, hinside, if_true, Step.bind_run, Step.pure_run, h.resolved,
          Stmt.rename, List.append_nil]
      · simp only [resolveStmt, hinside, if_true, Step.bind_run, Step.pure_run, Stmt.rename]
        exact .ret keyword h.varies
    · rw [if_neg hinside] at hissues
      simp only [Step.bind_run, complain_run, List.cons_append, List.cons_ne_nil] at hissues
  | .classDecl name superclass methods, sur, around, n, frames, hclear, hcore, hfresh, hbound,
      hapart, hissues => by
    simp only [Stmt.mentioned, List.mem_append, not_or] at hfresh
    simp only [Stmt.bound, List.mem_cons, not_or] at hbound
    have hname : name.lexeme ≠ r.new := Ne.symm hbound.1
    have hold := fun h => hapart h rfl name rfl
    simp only [resolveStmt, Step.bind_run, Step.pure_run, declare_run, define_run, mark_mark,
      frames_resolveSuperclass, inScope_run, List.append_nil, List.nil_append,
      List.append_eq_nil_iff, ite_eq_right_iff, List.cons_ne_nil, imp_false] at hissues
    have hmarked := hclear.mark hname true
    have hthis : thisFrame.find? r.new = none := Table.find?_insert_of_ne _ _ hnew
    obtain ⟨superclass', hs⟩ := exists_superclassTwins hmarked hname hfresh.1 hissues.2.1
    obtain ⟨methods', hm⟩ := exists_methodsTwins hnew methods { sur with inClass := true }
      (false :: around) n (thisFrame :: mark name.lexeme true frames)
      (.cons hthis nofun hmarked) hcore.2 hfresh.2 hbound.2 hissues.2.2
    have hresolved := hm.resolved
    rw [show reframe r (false :: around) (thisFrame :: mark name.lexeme true frames) =
      thisFrame :: reframe r around (mark name.lexeme true frames) from
        congrArg (· :: _) (rekey_false thisFrame)] at hresolved
    obtain ⟨hinnermost, hmark⟩ := named_twins hclear hname hold
    refine ⟨.classDecl name superclass' methods',
      .classDecl trivial hs.respelled hm.respelled, ?_, ?_⟩
    · simp only [resolveStmt, Step.bind_run, Step.pure_run, declare_run, define_run, mark_mark,
        inScope_run, hinnermost, hmark, hs.resolved, hresolved, frames_resolveSuperclass,
        tail_reframe, if_neg hissues.1, Stmt.rename, List.append_nil]
    · simp only [resolveStmt, Step.bind_run, Step.pure_run, declare_run, define_run, mark_mark,
        frames_resolveSuperclass, inScope_run, Stmt.rename]
      exact .classDecl (fun hfor => ⟨hold hfor, hname⟩) hs.varies hm.varies

/-- The same for statements in a row. -/
theorem exists_stmtsTwins (hnew : r.new ≠ thisName) : ∀ (ss : List (Stmt Unit))
    (sur : Surroundings) (around : List Bool) (n : Nat) (frames : List Frame),
    Clear r around frames → Stmt.CoreAll ss → r.new ∉ Stmt.mentionedAll ss →
    r.new ∉ Stmt.boundAll ss → (∀ s ∈ ss, Apart r around s) →
    (resolveStmts sur ss frames).issues = [] → ∃ ss', StmtsTwins r chosen sur around n frames ss ss'
  | [], _, _, _, _, _, _, _, _, _, _ => ⟨[], .nil, rfl, .nil⟩
  | s :: rest, sur, around, n, frames, hclear, ⟨hs, hrest⟩, hfresh, hbound, hapart, hissues => by
    simp only [Stmt.mentionedAll, List.mem_append, not_or] at hfresh
    simp only [Stmt.boundAll, List.mem_append, not_or] at hbound
    obtain ⟨hapart₁, hapart₂⟩ := List.forall_mem_cons.1 hapart
    simp only [resolveStmts, Step.bind_run, Step.pure_run, frames_resolveStmt s sur frames hs,
      List.append_nil, List.append_eq_nil_iff] at hissues
    have hname : ∀ name ∈ s.declared, name.lexeme ≠ r.new := by
      rintro name hname hsame
      refine hbound.1 ?_
      cases s <;> cases hname <;> simp [Stmt.bound, hsame]
    obtain ⟨s', h⟩ := exists_stmtTwins hnew s sur around n frames hclear hs hfresh.1 hbound.1
      hapart₁ hissues.1
    obtain ⟨rest', hr⟩ := exists_stmtsTwins hnew rest sur around
      (n + (resolveStmt sur s frames).value.scopes) (framesAfter s frames)
      (hclear.framesAfter hname) hrest hfresh.2 hbound.2 hapart₂ hissues.2
    refine ⟨s' :: rest', .cons h.respelled hr.respelled, ?_, ?_⟩
    · simp only [resolveStmts, Step.bind_run, Step.pure_run, h.resolved, hr.resolved,
        frames_resolveStmt s sur frames hs, Stmt.renameAll, List.append_nil]
    · simp only [resolveStmts, Step.bind_run, Step.pure_run, frames_resolveStmt s sur frames hs,
        Stmt.renameAll]
      exact .cons h.varies hr.varies

/-- The same for a statement that may be missing and declares nothing. -/
theorem exists_stmtOptionTwins (hnew : r.new ≠ thisName) : ∀ (s : Option (Stmt Unit))
    (sur : Surroundings) (around : List Bool) (n : Nat) (frames : List Frame),
    Clear r around frames → Stmt.CoreOption s → r.new ∉ Stmt.mentionedOption s →
    r.new ∉ Stmt.boundOption s → (resolveOptionStmt sur s frames).issues = [] →
    ∃ s', StmtOptionTwins r chosen sur around n frames s s'
  | none, _, _, _, _, _, _, _, _, _ => ⟨none, .none, rfl, .none⟩
  | some s, sur, around, n, frames, hclear, ⟨hdeclared, hs⟩, hfresh, hbound, hissues => by
    simp only [resolveOptionStmt, Step.bind_run, Step.pure_run, List.append_nil] at hissues
    obtain ⟨s', h⟩ := exists_stmtTwins hnew s sur around n frames hclear hs hfresh hbound
      (.of_none hdeclared) hissues
    refine ⟨some s', .some h.respelled, ?_, .some h.varies⟩
    simp only [resolveOptionStmt, Step.bind_run, Step.pure_run, h.resolved, Stmt.renameOption,
      List.append_nil]

/-- The same for a function. -/
theorem exists_routineTwins (hnew : r.new ≠ thisName) : ∀ (decl : Routine (Stmt Unit))
    (sur : Surroundings) (around : List Bool) (n : Nat) (frames : List Frame),
    Clear r around frames → Stmt.CoreRoutine decl → r.new ∉ Stmt.mentionedRoutine decl →
    r.new ∉ Stmt.boundRoutine decl → (resolveRoutine sur decl frames).issues = [] →
    ∃ decl', RoutineTwins r chosen sur around n frames decl decl'
  | ⟨name, params, body⟩, sur, around, n, frames, hclear, ⟨hparams, hcore⟩, hfresh, hbound,
      hissues => by
    simp only [Stmt.boundRoutine, List.mem_append, not_or] at hbound
    have hparamsNew : ∀ p ∈ params, p.lexeme ≠ r.new := fun p hp hsame =>
      hbound.1 (List.mem_map.2 ⟨p, hp, hsame⟩)
    simp only [resolveRoutine, inScope_run, Step.bind_run, Step.pure_run, List.append_nil,
      List.append_eq_nil_iff] at hissues
    have hframes := frames_declareAll params .empty frames
    obtain ⟨here, hhere⟩ : ∃ here, here = (chosen n && Stmt.declaresVariable r.old params
      (resolveStmts { sur with inFunction := true } body
        (declareAll params (.empty :: frames)).frames).value) := ⟨_, rfl⟩
    obtain ⟨hthis, hapart⟩ : (here = true → r.old ≠ thisName) ∧ _ := by
      rw [hframes] at hhere hissues
      exact entered around hparams hcore hissues.2 hhere
    have hopened : Clear r (here :: around) (.empty :: frames) := .cons rfl hthis hclear
    obtain ⟨hall, hclear'⟩ := declareAll_twins hopened hparamsNew hissues.1
    obtain ⟨body', h⟩ := exists_stmtsTwins hnew body { sur with inFunction := true }
      (here :: around) (n + 1) _ hclear' hcore hfresh hbound.2 hapart hissues.2
    have hentered : declareAll (params.map (r.token here)) (.empty :: reframe r around frames) =
      _ := hall
    refine ⟨⟨name, params.map (r.token here), body'⟩, .intro here name ?_ h.respelled, ?_, ?_⟩
    · exact List.forall₂_map_right_iff.2
        (List.forall₂_same.2 fun p _ => Renaming.respelled_token here p)
    · simp only [resolveRoutine, inScope_run, Step.bind_run, Step.pure_run, hentered, h.resolved,
        tail_reframe, Stmt.renameRoutine, ← hhere, List.append_nil]
    · simp only [resolveRoutine, inScope_run, Step.bind_run, Step.pure_run, Stmt.renameRoutine,
        ← hhere]
      refine .intro here name ?_ h.varies
      exact List.forall₂_map_right_iff.2
        (List.forall₂_same.2 fun p hp => ⟨fun _ => hparamsNew p hp, rfl⟩)

/-- The same for methods in a row. -/
theorem exists_methodsTwins (hnew : r.new ≠ thisName) : ∀ (ms : List (Routine (Stmt Unit)))
    (sur : Surroundings) (around : List Bool) (n : Nat) (frames : List Frame),
    Clear r around frames → Stmt.CoreMethods ms → r.new ∉ Stmt.mentionedMethods ms →
    r.new ∉ Stmt.boundMethods ms → (resolveMethods sur ms frames).issues = [] →
    ∃ ms', MethodsTwins r chosen sur around n frames ms ms'
  | [], _, _, _, _, _, _, _, _, _ => ⟨[], .nil, rfl, .nil⟩
  | m :: rest, sur, around, n, frames, hclear, ⟨hm, hrest⟩, hfresh, hbound, hissues => by
    simp only [Stmt.mentionedMethods, List.mem_append, not_or] at hfresh
    simp only [Stmt.boundMethods, List.mem_append, not_or] at hbound
    simp only [resolveMethods, Step.bind_run, Step.pure_run, frames_resolveRoutine m sur frames hm,
      List.append_nil, List.append_eq_nil_iff] at hissues
    obtain ⟨m', h⟩ := exists_routineTwins hnew m sur around n frames hclear hm hfresh.1 hbound.1
      hissues.1
    obtain ⟨rest', hr⟩ := exists_methodsTwins hnew rest sur around
      (n + Stmt.scopesRoutine (resolveRoutine sur m frames).value) frames hclear hrest hfresh.2
      hbound.2 hissues.2
    refine ⟨m' :: rest', .cons h.respelled hr.respelled, ?_, ?_⟩
    · simp only [resolveMethods, Step.bind_run, Step.pure_run, h.resolved, hr.resolved,
        frames_resolveRoutine m sur frames hm, Stmt.renameMethods, List.append_nil]
    · simp only [resolveMethods, Step.bind_run, Step.pure_run,
        frames_resolveRoutine m sur frames hm, Stmt.renameMethods]
      exact .cons h.varies hr.varies

end

end

/-- **A renamed program is resolved the same.** If a program is resolved
without an issue and the new name does not occur in it, there is a program
that differs from it in how names are spelled, and that is resolved without
an issue to the first one, resolved and renamed in the chosen scopes. -/
theorem exists_renamed {r : Renaming} (chosen : Nat → Bool) {p : Program Unit}
    (hcore : Stmt.CoreAll p) (hnew : r.new ≠ thisName) (hfresh : r.new ∉ Stmt.mentionedAll p)
    (hbound : r.new ∉ Stmt.boundAll p) (hissues : (resolve p).issues = []) :
    ∃ p', Stmt.VariesAll r.respelling [] p p' ∧
      (resolve p').value = (resolve p).value.rename r chosen ∧ (resolve p').issues = [] ∧
      Stmt.VariesAll r.variation [] (resolve p).value ((resolve p).value.rename r chosen) := by
  have hapart : ∀ s ∈ p, Apart r [] s := fun _ _ => nofun
  obtain ⟨p', h⟩ : ∃ p', StmtsTwins r chosen {} [] 0 [] p p' :=
    exists_stmtsTwins hnew p {} [] 0 [] .nil hcore hfresh hbound hapart hissues
  have hresolved : resolve p' = ⟨_, _, []⟩ := h.resolved
  refine ⟨p', h.respelled, ?_, ?_, h.varies⟩
  · rw [hresolved]
    rfl
  · rw [hresolved]

end Scoping

end TanLang
