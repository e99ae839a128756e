import TanLang.Stmt
/-!
# Lines — the same code on other lines

A token carries the line it stands on, and so does every tree. `reline`
moves a token, an expression or a statement to other lines and leaves
everything else as it is. Source that stands further down in a file is cut,
parsed and resolved into the same code on other lines, and what the code
does depends on its lines only where it reports an error.
-/

namespace TanLang

variable {α : Type} (f g : Int → Int)

/-- The token on another line. -/
def Token.reline (t : Token) : Token := { t with line := f t.line }

/-- The line that stands for any line. -/
def anyLine : Int → Int := fun _ => 0

@[simp]
theorem Token.reline_kind (t : Token) : (t.reline f).kind = t.kind := rfl

@[simp]
theorem Token.reline_lexeme (t : Token) : (t.reline f).lexeme = t.lexeme := rfl

@[simp]
theorem Token.reline_literal (t : Token) : (t.reline f).literal = t.literal := rfl

@[simp]
theorem Token.reline_reline (t : Token) : (t.reline f).reline g = t.reline (g ∘ f) := rfl

namespace Expr

mutual

/-- The expression on other lines. -/
def reline : Expr α → Expr α
  | literal token value => .literal (token.reline f) value
  | grouping paren inner => .grouping (paren.reline f) (reline inner)
  | unary op operand => .unary (op.reline f) (reline operand)
  | binary left op right => .binary (reline left) (op.reline f) (reline right)
  | ternary cond mark yes no => .ternary (reline cond) (mark.reline f) (reline yes) (reline no)
  | logical left op right => .logical (reline left) (op.reline f) (reline right)
  | var name address => .var (name.reline f) address
  | assign name address value => .assign (name.reline f) address (reline value)
  | call callee paren args => .call (reline callee) (paren.reline f) (relineAll args)
  | get object name => .get (reline object) (name.reline f)
  | set object name value => .set (reline object) (name.reline f) (reline value)
  | receiver keyword address => .receiver (keyword.reline f) address

/-- The same for expressions in a row. -/
def relineAll : List (Expr α) → List (Expr α)
  | [] => []
  | e :: rest => reline e :: relineAll rest

end

mutual

theorem reline_reline : ∀ e : Expr α, (e.reline f).reline g = e.reline (g ∘ f)
  | literal _ _ => rfl
  | grouping _ inner => by
    simp only [reline, Token.reline_reline]
    rw [reline_reline inner]
  | unary _ operand => by
    simp only [reline, Token.reline_reline]
    rw [reline_reline operand]
  | binary left _ right => by
    simp only [reline, Token.reline_reline]
    rw [reline_reline left, reline_reline right]
  | ternary cond _ yes no => by
    simp only [reline, Token.reline_reline]
    rw [reline_reline cond, reline_reline yes, reline_reline no]
  | logical left _ right => by
    simp only [reline, Token.reline_reline]
    rw [reline_reline left, reline_reline right]
  | var _ _ => rfl
  | assign _ _ value => by
    simp only [reline, Token.reline_reline]
    rw [reline_reline value]
  | call callee _ args => by
    simp only [reline, Token.reline_reline]
    rw [reline_reline callee, relineAll_relineAll args]
  | get object _ => by
    simp only [reline, Token.reline_reline]
    rw [reline_reline object]
  | set object _ value => by
    simp only [reline, Token.reline_reline]
    rw [reline_reline object, reline_reline value]
  | receiver _ _ => rfl

theorem relineAll_relineAll : ∀ es : List (Expr α),
    relineAll g (relineAll f es) = relineAll (g ∘ f) es
  | [] => rfl
  | e :: rest => by
    simp only [relineAll]
    rw [reline_reline e, relineAll_relineAll rest]

end

theorem length_relineAll (es : List (Expr α)) : (relineAll f es).length = es.length := by
  induction es with
  | nil => rfl
  | cons e rest ih => simp only [relineAll, List.length_cons, ih]

end Expr

namespace Stmt

mutual

/-- The statement on other lines. -/
def reline : Stmt α → Stmt α
  | block brace body => .block (brace.reline f) (relineAll body)
  | expr e => .expr (e.reline f)
  | print keyword value => .print (keyword.reline f) (value.reline f)
  | varDecl name initial => .varDecl (name.reline f) (initial.map (Expr.reline f))
  | branch keyword cond yes no =>
    .branch (keyword.reline f) (cond.reline f) (reline yes) (relineOption no)
  | loop keyword cond body => .loop (keyword.reline f) (cond.reline f) (relineOption body)
  | forLoop keyword initial cond step body =>
    .forLoop (keyword.reline f) (relineOption initial) (cond.map (Expr.reline f))
      (step.map (Expr.reline f)) (relineOption body)
  | function decl => .function (relineRoutine decl)
  | ret keyword value => .ret (keyword.reline f) (value.map (Expr.reline f))
  | classDecl name superclass methods =>
    .classDecl (name.reline f) (superclass.map fun s => (s.1.reline f, s.2))
      (relineMethods methods)

/-- The same for statements in a row. -/
def relineAll : List (Stmt α) → List (Stmt α)
  | [] => []
  | s :: rest => reline s :: relineAll rest

/-- The same for a statement that may be missing. -/
def relineOption : Option (Stmt α) → Option (Stmt α)
  | none => none
  | some s => some (reline s)

/-- The same for a function. -/
def relineRoutine : Routine (Stmt α) → Routine (Stmt α)
  | ⟨name, params, body⟩ => ⟨name.reline f, params.map (Token.reline f), relineAll body⟩

/-- The same for the methods of a class. -/
def relineMethods : List (Routine (Stmt α)) → List (Routine (Stmt α))
  | [] => []
  | m :: rest => relineRoutine m :: relineMethods rest

end

theorem relineRoutine_eq (decl : Routine (Stmt α)) :
    relineRoutine f decl =
      ⟨decl.name.reline f, decl.params.map (Token.reline f), relineAll f decl.body⟩ := by
  cases decl
  rw [relineRoutine]

theorem name_relineRoutine (decl : Routine (Stmt α)) :
    (relineRoutine f decl).name = decl.name.reline f := by
  rw [relineRoutine_eq]

theorem relineAll_append (p q : List (Stmt α)) :
    relineAll f (p ++ q) = relineAll f p ++ relineAll f q := by
  induction p with
  | nil => rfl
  | cons s rest ih => simp only [List.cons_append, relineAll, ih]

/-! ## Moving twice -/

theorem relineExprOption_twice (e : Option (Expr α)) :
    (e.map (Expr.reline f)).map (Expr.reline g) = e.map (Expr.reline (g ∘ f)) := by
  cases e with
  | none => rfl
  | some e => simp only [Option.map_some, Expr.reline_reline]

mutual

theorem reline_reline : ∀ s : Stmt α, (s.reline f).reline g = s.reline (g ∘ f)
  | block _ body => by
    simp only [reline, Token.reline_reline]
    rw [relineAll_relineAll body]
  | expr e => by simp only [reline, Expr.reline_reline]
  | print _ value => by simp only [reline, Expr.reline_reline, Token.reline_reline]
  | varDecl _ initial => by simp only [reline, relineExprOption_twice, Token.reline_reline]
  | branch _ cond yes no => by
    simp only [reline, Expr.reline_reline, Token.reline_reline]
    rw [reline_reline yes, relineOption_relineOption no]
  | loop _ cond body => by
    simp only [reline, Expr.reline_reline, Token.reline_reline]
    rw [relineOption_relineOption body]
  | forLoop _ initial cond step body => by
    simp only [reline, relineExprOption_twice, Token.reline_reline]
    rw [relineOption_relineOption initial, relineOption_relineOption body]
  | function decl => by
    simp only [reline]
    rw [relineRoutine_relineRoutine decl]
  | ret _ value => by simp only [reline, relineExprOption_twice, Token.reline_reline]
  | classDecl _ superclass methods => by
    simp only [reline, Token.reline_reline]
    rw [relineMethods_relineMethods methods]
    cases superclass <;> rfl

theorem relineAll_relineAll : ∀ ss : List (Stmt α),
    relineAll g (relineAll f ss) = relineAll (g ∘ f) ss
  | [] => rfl
  | s :: rest => by
    simp only [relineAll]
    rw [reline_reline s, relineAll_relineAll rest]

theorem relineOption_relineOption : ∀ s : Option (Stmt α),
    relineOption g (relineOption f s) = relineOption (g ∘ f) s
  | none => rfl
  | some s => by
    simp only [relineOption]
    rw [reline_reline s]

theorem relineRoutine_relineRoutine : ∀ decl : Routine (Stmt α),
    relineRoutine g (relineRoutine f decl) = relineRoutine (g ∘ f) decl
  | ⟨name, params, body⟩ => by
    simp only [relineRoutine, Token.reline_reline, List.map_map]
    rw [relineAll_relineAll body]
    rfl

theorem relineMethods_relineMethods : ∀ ms : List (Routine (Stmt α)),
    relineMethods g (relineMethods f ms) = relineMethods (g ∘ f) ms
  | [] => rfl
  | m :: rest => by
    simp only [relineMethods]
    rw [relineRoutine_relineRoutine m, relineMethods_relineMethods rest]

end

/-! ## Writing out `for` loops -/

theorem reline_writeOut (keyword : Token) (initial : Option (Stmt α)) (cond step : Option (Expr α))
    (body : Option (Stmt α)) :
    (writeOut keyword initial cond step body).reline f =
      writeOut (keyword.reline f) (relineOption f initial) (cond.map (Expr.reline f))
        (step.map (Expr.reline f)) (relineOption f body) := by
  cases initial <;> cases cond <;> cases step <;> cases body <;> rfl

mutual

/-- **Writing out and moving can be done in either order.** -/
theorem reline_desugar : ∀ s : Stmt α, (desugar s).reline f = desugar (s.reline f)
  | block _ body => by
    simp only [reline, desugar]
    rw [relineAll_desugarAll body]
  | expr _ => rfl
  | print _ _ => rfl
  | varDecl _ _ => rfl
  | branch _ _ yes no => by
    simp only [reline, desugar]
    rw [reline_desugar yes, relineOption_desugarOption no]
  | loop _ _ body => by
    simp only [reline, desugar]
    rw [relineOption_desugarOption body]
  | forLoop _ initial _ _ body => by
    simp only [reline, desugar, reline_writeOut]
    rw [relineOption_desugarOption initial, relineOption_desugarOption body]
  | function decl => by
    simp only [reline, desugar]
    rw [relineRoutine_desugarRoutine decl]
  | ret _ _ => rfl
  | classDecl _ _ methods => by
    simp only [reline, desugar]
    rw [relineMethods_desugarMethods methods]

theorem relineAll_desugarAll : ∀ ss : List (Stmt α),
    relineAll f (desugarAll ss) = desugarAll (relineAll f ss)
  | [] => rfl
  | s :: rest => by
    simp only [relineAll, desugarAll]
    rw [reline_desugar s, relineAll_desugarAll rest]

theorem relineOption_desugarOption : ∀ s : Option (Stmt α),
    relineOption f (desugarOption s) = desugarOption (relineOption f s)
  | none => rfl
  | some s => by
    simp only [relineOption, desugarOption]
    rw [reline_desugar s]

theorem relineRoutine_desugarRoutine : ∀ decl : Routine (Stmt α),
    relineRoutine f (desugarRoutine decl) = desugarRoutine (relineRoutine f decl)
  | ⟨_, _, body⟩ => by
    simp only [relineRoutine, desugarRoutine]
    rw [relineAll_desugarAll body]

theorem relineMethods_desugarMethods : ∀ ms : List (Routine (Stmt α)),
    relineMethods f (desugarMethods ms) = desugarMethods (relineMethods f ms)
  | [] => rfl
  | m :: rest => by
    simp only [relineMethods, desugarMethods]
    rw [relineRoutine_desugarRoutine m, relineMethods_desugarMethods rest]

end

theorem desugarAll_append (p q : List (Stmt α)) :
    desugarAll (p ++ q) = desugarAll p ++ desugarAll q := by
  induction p with
  | nil => rfl
  | cons s rest ih => simp only [List.cons_append, desugarAll, ih]

end Stmt

end TanLang
