import TanLang.Proofs.Lines
import TanLang.Proofs.Scoping.Resolution
/-!
# Scoping — the same code on other lines

Resolution looks at what names are spelled like and never at a line, so
code on other lines is resolved to the same distances. At the top of a
program there is no local scope that declarations could go into; so **what
follows a program at the top is resolved as if it stood alone**.
-/

namespace TanLang

namespace Scoping

variable {α β γ δ : Type} {f : Int → Int}

/-- What resolution gives, on other lines. -/
def Resolved.reline (f : Int → Int) (move : α → β) (r : Resolved α) : Resolved β :=
  ⟨move r.value, r.frames, r.issues.map fun i => ⟨i.token.reline f, i.complaint⟩⟩

/-- **A step does on other lines what another one does.** -/
def Moves (f : Int → Int) (move : α → β) (s : Step α) (s' : Step β) : Prop :=
  ∀ frames, s' frames = (s frames).reline f move

namespace Moves

theorem pure (move : α → β) (a : α) : Moves f move (Pure.pure a) (Pure.pure (move a)) :=
  fun _ => rfl

/-- One step after another. -/
theorem bind {move : α → β} {move' : γ → δ} {s : Step α} {s' : Step β} {k : α → Step γ}
    {k' : β → Step δ} (hs : Moves f move s s') (hk : ∀ a, Moves f move' (k a) (k' (move a))) :
    Moves f move' (s >>= k) (s' >>= k') := by
  intro frames
  rw [Step.bind_run, Step.bind_run, hs frames]
  simp only [Resolved.reline, hk (s frames).value (s frames).frames, List.map_append]

theorem complain (t : Token) (c : Complaint) :
    Moves f id (Scoping.complain t c) (Scoping.complain (t.reline f) c) :=
  fun _ => rfl

theorem locate (t : Token) : Moves f id (Scoping.locate t) (Scoping.locate (t.reline f)) :=
  fun _ => rfl

theorem define (t : Token) : Moves f id (Scoping.define t) (Scoping.define (t.reline f)) :=
  fun _ => rfl

theorem declare (t : Token) : Moves f id (Scoping.declare t) (Scoping.declare (t.reline f)) := by
  intro frames
  by_cases hdeclared : (innermost t.lexeme frames).isSome = true
  · simp [declare_run, Resolved.reline, hdeclared]
  · simp [declare_run, Resolved.reline, hdeclared]

theorem checkReadable (t : Token) :
    Moves f id (Scoping.checkReadable t) (Scoping.checkReadable (t.reline f)) := by
  intro frames
  by_cases hunreadable : innermost t.lexeme frames = some false
  · simp [checkReadable_run, Resolved.reline, hunreadable]
  · simp [checkReadable_run, Resolved.reline, hunreadable]

theorem inScope {move : α → β} {s : Step α} {s' : Step β} (names : Frame)
    (hs : Moves f move s s') :
    Moves f move (Scoping.inScope names s) (Scoping.inScope names s') := by
  intro frames
  rw [inScope_run, inScope_run, hs]
  rfl

theorem inScopeIf {move : α → β} {s : Step α} {s' : Step β} (called : Bool)
    (hs : Moves f move s s') :
    Moves f move (Scoping.inScopeIf called s) (Scoping.inScopeIf called s') := by
  cases called with
  | false => exact hs
  | true => exact hs.inScope .empty

theorem declareAll : ∀ params : List Token,
    Moves f id (Scoping.declareAll params) (Scoping.declareAll (params.map (Token.reline f)))
  | [] => .pure id ()
  | p :: rest => (declare p).bind fun _ => (define p).bind fun _ => declareAll rest

end Moves

mutual

/-- **An expression is resolved to the same distances on other lines.** -/
theorem resolveExpr_reline (around : Surroundings) : ∀ e : Expr Unit,
    Moves f (Expr.reline f) (resolveExpr around e) (resolveExpr around (e.reline f))
  | .literal token value => .pure (Expr.reline f) (.literal token value)
  | .grouping paren inner => by
    simp only [resolveExpr, Expr.reline]
    exact (resolveExpr_reline around inner).bind fun _ => .pure (Expr.reline f) _
  | .unary op operand => by
    simp only [resolveExpr, Expr.reline]
    exact (resolveExpr_reline around operand).bind fun _ => .pure (Expr.reline f) _
  | .binary left op right => by
    simp only [resolveExpr, Expr.reline]
    refine (resolveExpr_reline around left).bind fun l => ?_
    exact (resolveExpr_reline around right).bind fun r => .pure (Expr.reline f) (.binary l op r)
  | .ternary cond mark yes no => by
    simp only [resolveExpr, Expr.reline]
    refine (resolveExpr_reline around cond).bind fun c => ?_
    refine (resolveExpr_reline around yes).bind fun y => ?_
    exact (resolveExpr_reline around no).bind fun n => .pure (Expr.reline f) (.ternary c mark y n)
  | .logical left op right => by
    simp only [resolveExpr, Expr.reline]
    refine (resolveExpr_reline around left).bind fun l => ?_
    exact (resolveExpr_reline around right).bind fun r => .pure (Expr.reline f) (.logical l op r)
  | .var name _ => by
    simp only [resolveExpr, Expr.reline]
    refine (Moves.checkReadable name).bind fun _ => ?_
    exact (Moves.locate name).bind fun d => .pure (Expr.reline f) (.var name d)
  | .assign name _ value => by
    simp only [resolveExpr, Expr.reline]
    refine (resolveExpr_reline around value).bind fun v => ?_
    exact (Moves.locate name).bind fun d => .pure (Expr.reline f) (.assign name d v)
  | .call callee paren args => by
    simp only [resolveExpr, Expr.reline]
    refine (resolveExpr_reline around callee).bind fun c => ?_
    exact (resolveExprs_reline around args).bind fun es => .pure (Expr.reline f) (.call c paren es)
  | .get object name => by
    simp only [resolveExpr, Expr.reline]
    exact (resolveExpr_reline around object).bind fun o => .pure (Expr.reline f) (.get o name)
  | .set object name value => by
    simp only [resolveExpr, Expr.reline]
    refine (resolveExpr_reline around value).bind fun v => ?_
    exact (resolveExpr_reline around object).bind fun o => .pure (Expr.reline f) (.set o name v)
  | .receiver keyword _ => by
    simp only [resolveExpr, Expr.reline]
    split
    · exact (Moves.locate keyword).bind fun d => .pure (Expr.reline f) (.receiver keyword d)
    · exact (Moves.complain keyword _).bind fun _ =>
        .pure (Expr.reline f) (.receiver keyword none)

/-- The same for expressions in a row. -/
theorem resolveExprs_reline (around : Surroundings) : ∀ es : List (Expr Unit),
    Moves f (Expr.relineAll f) (resolveExprs around es) (resolveExprs around (Expr.relineAll f es))
  | [] => .pure (Expr.relineAll f) []
  | e :: rest => by
    simp only [resolveExprs, Expr.relineAll]
    refine (resolveExpr_reline around e).bind fun e => ?_
    exact (resolveExprs_reline around rest).bind fun es => .pure (Expr.relineAll f) (e :: es)

end

theorem resolveOption_reline (around : Surroundings) (e : Option (Expr Unit)) :
    Moves f (Option.map (Expr.reline f)) (resolveOption around e)
      (resolveOption around (e.map (Expr.reline f))) := by
  cases e with
  | none => exact .pure (Option.map (Expr.reline f)) none
  | some e =>
    simp only [resolveOption, Option.map_some]
    exact (resolveExpr_reline around e).bind fun e => .pure (Option.map (Expr.reline f)) (some e)

theorem resolveSuperclass_reline (name : Token) (superclass : Option (Token × Unit)) :
    Moves f (Option.map fun s : Token × Address => (s.1.reline f, s.2))
      (resolveSuperclass name superclass)
      (resolveSuperclass (name.reline f) (superclass.map fun s => (s.1.reline f, s.2))) := by
  let move : Option (Token × Address) → Option (Token × Address) :=
    Option.map fun s => (s.1.reline f, s.2)
  cases superclass with
  | none => exact .pure move none
  | some named =>
    simp only [resolveSuperclass, Option.map_some]
    by_cases hself : named.1.lexeme = name.lexeme
    · have hself' : (named.1.reline f).lexeme = (name.reline f).lexeme := hself
      rw [if_pos hself, if_pos hself']
      refine (Moves.complain named.1 _).bind fun _ => ?_
      refine (Moves.checkReadable named.1).bind fun _ => ?_
      exact (Moves.locate named.1).bind fun d => .pure move (some (named.1, d))
    · have hself' : (named.1.reline f).lexeme ≠ (name.reline f).lexeme := hself
      rw [if_neg hself, if_neg hself']
      refine (Moves.checkReadable named.1).bind fun _ => ?_
      exact (Moves.locate named.1).bind fun d => .pure move (some (named.1, d))

mutual

/-- **A statement is resolved to the same distances on other lines.** -/
theorem resolveStmt_reline : ∀ (around : Surroundings) (s : Stmt Unit),
    Moves f (Stmt.reline f) (resolveStmt around s) (resolveStmt around (s.reline f))
  | around, .block brace body => by
    simp only [resolveStmt, Stmt.reline]
    refine ((resolveStmts_reline around body).inScope .empty).bind fun ss => ?_
    exact .pure (Stmt.reline f) (.block brace ss)
  | around, .expr e => by
    simp only [resolveStmt, Stmt.reline]
    exact (resolveExpr_reline around e).bind fun e => .pure (Stmt.reline f) (.expr e)
  | around, .print keyword value => by
    simp only [resolveStmt, Stmt.reline]
    exact (resolveExpr_reline around value).bind fun v => .pure (Stmt.reline f) (.print keyword v)
  | around, .varDecl name initial => by
    simp only [resolveStmt, Stmt.reline]
    refine (Moves.declare name).bind fun _ => ?_
    refine (resolveOption_reline around initial).bind fun e => ?_
    exact (Moves.define name).bind fun _ => .pure (Stmt.reline f) (.varDecl name e)
  | around, .branch keyword cond yes no => by
    simp only [resolveStmt, Stmt.reline]
    refine (resolveExpr_reline around cond).bind fun c => ?_
    refine (resolveStmt_reline around yes).bind fun y => ?_
    refine (resolveOptionStmt_reline around no).bind fun n => ?_
    exact .pure (Stmt.reline f) (.branch keyword c y n)
  | around, .loop keyword cond body => by
    simp only [resolveStmt, Stmt.reline]
    refine (resolveExpr_reline around cond).bind fun c => ?_
    refine (resolveOptionStmt_reline around body).bind fun b => ?_
    exact .pure (Stmt.reline f) (.loop keyword c b)
  | around, .forLoop keyword initial cond step body => by
    have hcalled : (Stmt.relineOption f initial).isSome = initial.isSome := by
      cases initial <;> rfl
    simp only [resolveStmt, Stmt.reline, hcalled]
    refine Moves.inScopeIf _ ((resolveOptionStmt_reline around initial).bind fun i => ?_)
    refine (resolveOption_reline around cond).bind fun c => ?_
    refine (resolveOptionStmt_reline around body).bind fun b => ?_
    refine (resolveOption_reline around step).bind fun t => ?_
    exact .pure (Stmt.reline f) (.forLoop keyword i c t b)
  | around, .function decl => by
    simp only [resolveStmt, Stmt.reline, Stmt.name_relineRoutine]
    refine (Moves.declare decl.name).bind fun _ => ?_
    refine (Moves.define decl.name).bind fun _ => ?_
    exact (resolveRoutine_reline around decl).bind fun d => .pure (Stmt.reline f) (.function d)
  | around, .ret keyword value => by
    simp only [resolveStmt, Stmt.reline]
    have hvalue : Moves f (Stmt.reline f)
        (resolveOption around value >>= fun e => Pure.pure (.ret keyword e))
        (resolveOption around (value.map (Expr.reline f)) >>=
          fun e => Pure.pure (.ret (keyword.reline f) e)) :=
      (resolveOption_reline around value).bind fun e => .pure (Stmt.reline f) (.ret keyword e)
    split
    · exact hvalue
    · exact (Moves.complain keyword _).bind fun _ => hvalue
  | around, .classDecl name superclass methods => by
    simp only [resolveStmt, Stmt.reline]
    refine (Moves.declare name).bind fun _ => ?_
    refine (Moves.define name).bind fun _ => ?_
    refine (resolveSuperclass_reline name superclass).bind fun s => ?_
    refine ((resolveMethods_reline _ methods).inScope thisFrame).bind fun ms => ?_
    exact .pure (Stmt.reline f) (.classDecl name s ms)

/-- The same for statements in a row. -/
theorem resolveStmts_reline : ∀ (around : Surroundings) (ss : List (Stmt Unit)),
    Moves f (Stmt.relineAll f) (resolveStmts around ss) (resolveStmts around (Stmt.relineAll f ss))
  | _, [] => .pure (Stmt.relineAll f) []
  | around, s :: rest => by
    simp only [resolveStmts, Stmt.relineAll]
    refine (resolveStmt_reline around s).bind fun s => ?_
    exact (resolveStmts_reline around rest).bind fun ss => .pure (Stmt.relineAll f) (s :: ss)

/-- The same for a statement that may be missing. -/
theorem resolveOptionStmt_reline : ∀ (around : Surroundings) (s : Option (Stmt Unit)),
    Moves f (Stmt.relineOption f) (resolveOptionStmt around s)
      (resolveOptionStmt around (Stmt.relineOption f s))
  | _, none => .pure (Stmt.relineOption f) none
  | around, some s => by
    simp only [resolveOptionStmt, Stmt.relineOption]
    exact (resolveStmt_reline around s).bind fun s => .pure (Stmt.relineOption f) (some s)

/-- The same for a function. -/
theorem resolveRoutine_reline : ∀ (around : Surroundings) (decl : Routine (Stmt Unit)),
    Moves f (Stmt.relineRoutine f) (resolveRoutine around decl)
      (resolveRoutine around (Stmt.relineRoutine f decl))
  | around, ⟨name, params, body⟩ => by
    simp only [resolveRoutine, Stmt.relineRoutine]
    refine Moves.inScope .empty ((Moves.declareAll params).bind fun _ => ?_)
    refine (resolveStmts_reline _ body).bind fun ss => ?_
    exact .pure (Stmt.relineRoutine f) ⟨name, params, ss⟩

/-- The same for the methods of a class. -/
theorem resolveMethods_reline : ∀ (around : Surroundings) (ms : List (Routine (Stmt Unit))),
    Moves f (Stmt.relineMethods f) (resolveMethods around ms)
      (resolveMethods around (Stmt.relineMethods f ms))
  | _, [] => .pure (Stmt.relineMethods f) []
  | around, m :: rest => by
    simp only [resolveMethods, Stmt.relineMethods]
    refine (resolveRoutine_reline around m).bind fun m => ?_
    exact (resolveMethods_reline around rest).bind fun ms => .pure (Stmt.relineMethods f) (m :: ms)

end

/-! ## Programs one after the other -/

theorem resolveStmts_append (around : Surroundings) (p q : List (Stmt Unit)) (frames : List Frame) :
    resolveStmts around (p ++ q) frames =
      ⟨(resolveStmts around p frames).value ++
          (resolveStmts around q (resolveStmts around p frames).frames).value,
        (resolveStmts around q (resolveStmts around p frames).frames).frames,
        (resolveStmts around p frames).issues ++
          (resolveStmts around q (resolveStmts around p frames).frames).issues⟩ := by
  induction p generalizing frames with
  | nil => rfl
  | cons s rest ih =>
    simp only [List.cons_append, resolveStmts, Step.bind_run, Step.pure_run, ih, List.append_nil,
      List.append_assoc]

/-- **A program at the top leaves no local scope behind.** -/
theorem frames_resolve {p : Program Unit} (hcore : Stmt.CoreAll p)
    (hissues : (resolve p).issues = []) : (resolve p).frames = [] := by
  unfold resolve at hissues ⊢
  induction p with
  | nil => rfl
  | cons s rest ih =>
    simp only [resolveStmts, Step.bind_run, Step.pure_run, List.append_nil,
      List.append_eq_nil_iff] at hissues ⊢
    -- that the statement fits is of no use here, only where it leaves the scopes
    obtain ⟨hframes, -⟩ :
        (resolveStmt {} s (Context.frames [])).frames = (Context.after s []).frames ∧
        StmtFits False [] (resolveStmt {} s (Context.frames [])).value :=
      resolveStmt_fits s {} [] .nil hcore.1 (fun _ _ => Context.allows_nil _) False.elim False.elim
        False.elim hissues.1
    rw [Context.after_eq_nil rfl] at hframes
    rw [show (resolveStmt {} s []).frames = [] from hframes] at hissues ⊢
    exact ih hcore.2 hissues.2

/-- **Two programs without an issue, the second on other lines, have none
together**, and their distances are those they have alone. -/
theorem resolve_append {p q : Program Unit} (hcore : Stmt.CoreAll p)
    (hp : (resolve p).issues = []) (hq : (resolve q).issues = []) :
    (resolve (p ++ Stmt.relineAll f q)).issues = [] ∧
      (resolve (p ++ Stmt.relineAll f q)).value =
        (resolve p).value ++ Stmt.relineAll f (resolve q).value := by
  have hframes := frames_resolve hcore hp
  have hmoved : resolve (Stmt.relineAll f q) = (resolve q).reline f (Stmt.relineAll f) :=
    resolveStmts_reline {} q []
  have hboth : resolve (p ++ Stmt.relineAll f q) =
      ⟨(resolve p).value ++ (resolve (Stmt.relineAll f q)).value,
        (resolve (Stmt.relineAll f q)).frames,
        (resolve p).issues ++ (resolve (Stmt.relineAll f q)).issues⟩ := by
    unfold resolve at hframes ⊢
    rw [resolveStmts_append, hframes]
  rw [hboth, hmoved]
  simp only [Resolved.reline, hp, hq, List.map_nil, List.append_nil, true_and]

end Scoping

end TanLang
