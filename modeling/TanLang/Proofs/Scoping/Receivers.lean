import TanLang.Proofs.Scoping.Resolution
/-!
# Scoping — code and the scopes that hold `this`

Of the local scopes around a piece of code, only those around the methods of
a class hold `this`, and they hold nothing else. The shape of the scopes says
which ones these are. `StmtRespects` and its companions say that resolved
code respects a shape: **nothing is declared or assigned to in a scope that
holds `this`, nor anywhere under that name**, and every `this` is read in the
innermost scope that holds it. What resolution leaves respects the shape of
the scopes it was resolved in.
-/

namespace TanLang

namespace Scoping

/-- **Which local scopes hold `this`**, innermost first. -/
abbrev Shape := List Bool

/-- A name may be declared in the innermost scope. -/
structure Shape.Declares (κ : Shape) (x : Text) : Prop where
  name : x ≠ thisName
  scope : κ.head? ≠ some true

/-- An assignment leaves the scopes that hold `this` alone. -/
structure Shape.Spares (κ : Shape) (x : Text) (address : Address) : Prop where
  name : x ≠ thisName
  scope : ∀ d, address = some d → κ[d]? = some false

/-- A use is of `this`, in the innermost scope that holds it. -/
structure Shape.Finds (κ : Shape) (x : Text) (address : Address) : Prop where
  name : x = thisName
  found : address.isSome = true
  nearest : address = κ.findIdx? id

/-! ## Code -/

mutual

/-- An expression respects a shape. -/
def ExprRespects (κ : Shape) : Expr Address → Prop
  | .literal _ _ => True
  | .grouping _ inner => ExprRespects κ inner
  | .unary _ operand => ExprRespects κ operand
  | .binary left _ right => ExprRespects κ left ∧ ExprRespects κ right
  | .ternary cond _ yes no => ExprRespects κ cond ∧ ExprRespects κ yes ∧ ExprRespects κ no
  | .logical left _ right => ExprRespects κ left ∧ ExprRespects κ right
  | .var _ _ => True
  | .assign name address value => κ.Spares name.lexeme address ∧ ExprRespects κ value
  | .call callee _ args => ExprRespects κ callee ∧ ExprsRespect κ args
  | .get object _ => ExprRespects κ object
  | .set object _ value => ExprRespects κ object ∧ ExprRespects κ value
  | .receiver keyword address => κ.Finds keyword.lexeme address

/-- The same for expressions in a row. -/
def ExprsRespect (κ : Shape) : List (Expr Address) → Prop
  | [] => True
  | e :: rest => ExprRespects κ e ∧ ExprsRespect κ rest

end

/-- The same for an expression that may be missing. -/
def ExprOptionRespects (κ : Shape) : Option (Expr Address) → Prop
  | none => True
  | some e => ExprRespects κ e

mutual

/-- **A statement respects a shape.** A block and the body of a function are
in a scope without `this`, methods are in one with it. There are no `for`
loops left. -/
def StmtRespects (κ : Shape) : Stmt Address → Prop
  | .block _ body => BodyRespects (false :: κ) body
  | .expr e => ExprRespects κ e
  | .print _ value => ExprRespects κ value
  | .varDecl name initial => κ.Declares name.lexeme ∧ ExprOptionRespects κ initial
  | .branch _ cond yes no => ExprRespects κ cond ∧ StmtRespects κ yes ∧ StmtOptionRespects κ no
  | .loop _ cond body => ExprRespects κ cond ∧ StmtOptionRespects κ body
  | .forLoop _ _ _ _ _ => False
  | .function decl => κ.Declares decl.name.lexeme ∧ RoutineRespects κ decl
  | .ret _ value => ExprOptionRespects κ value
  | .classDecl name _ methods => κ.Declares name.lexeme ∧ MethodsRespect (true :: κ) methods

/-- The same for statements in a row. -/
def BodyRespects (κ : Shape) : List (Stmt Address) → Prop
  | [] => True
  | s :: rest => StmtRespects κ s ∧ BodyRespects κ rest

/-- The same for a statement that may be missing. -/
def StmtOptionRespects (κ : Shape) : Option (Stmt Address) → Prop
  | none => True
  | some s => StmtRespects κ s

/-- The same for a function. -/
def RoutineRespects (κ : Shape) : Routine (Stmt Address) → Prop
  | ⟨_, params, body⟩ => (∀ p ∈ params, p.lexeme ≠ thisName) ∧ BodyRespects (false :: κ) body

/-- The same for the methods of a class. -/
def MethodsRespect (κ : Shape) : List (Routine (Stmt Address)) → Prop
  | [] => True
  | m :: rest => RoutineRespects κ m ∧ MethodsRespect κ rest

end

theorem routineRespects_iff {κ : Shape} {decl : Routine (Stmt Address)} :
    RoutineRespects κ decl ↔
      (∀ p ∈ decl.params, p.lexeme ≠ thisName) ∧ BodyRespects (false :: κ) decl.body := by
  cases decl
  rw [RoutineRespects]

theorem routineRespects_of_mem {κ : Shape} {m : Routine (Stmt Address)}
    {ms : List (Routine (Stmt Address))} (h : MethodsRespect κ ms) (hm : m ∈ ms) :
    RoutineRespects κ m := by
  induction ms with
  | nil => cases hm
  | cons first rest ih =>
    rcases List.mem_cons.1 hm with rfl | hm
    · exact h.1
    · exact ih h.2 hm

/-! ## Scopes in the making -/

/-- The shape of the scopes that resolution keeps. -/
def shape (frames : List Frame) : Shape := frames.map fun frame => frame.contains thisName

/-- **What holds of the scopes while code is resolved**: one that holds `this`
holds nothing else, and inside a class there is one. -/
structure Guards (around : Surroundings) (frames : List Frame) : Prop where
  own : ∀ frame ∈ frames, frame.contains thisName = true → frame = thisFrame
  inClass : around.inClass = true → true ∈ shape frames

section

variable {around : Surroundings} {frames : List Frame} {x : Text}

theorem contains_insert {α : Type} {table : Table α} (v : α) (hx : x ≠ thisName) :
    (table.insert x v).contains thisName = table.contains thisName := by
  simp only [Table.contains, Table.find?_insert_of_ne table v (Ne.symm hx)]

theorem shape_mark (b : Bool) (hx : x ≠ thisName) : shape (mark x b frames) = shape frames := by
  cases frames with
  | nil => rfl
  | cons frame outer => simp only [shape, mark, List.map_cons, contains_insert b hx]

theorem contains_thisFrame {y : Text} (h : thisFrame.contains y = true) : y = thisName := by
  by_cases hy : y = thisName
  · exact hy
  · have hnone : thisFrame.find? y = none := by
      show (Table.empty.insert thisName true).find? y = none
      rw [Table.find?_insert_of_ne _ _ hy]
      rfl
    rw [Table.contains, hnone] at h
    cases h

/-- The parameters of a function start a scope without `this`. -/
theorem contains_paramFrame {params : List Token} (h : ∀ p ∈ params, p.lexeme ≠ thisName) :
    (paramFrame params).contains thisName = false := by
  cases hfind : (paramFrame params).find? thisName with
  | none => rw [Table.contains, hfind]; rfl
  | some b =>
    obtain ⟨-, p, hp, hthis⟩ := find?_paramFrame hfind
    exact absurd hthis (h p hp)

namespace Guards

theorem nil : Guards {} [] := ⟨nofun, nofun⟩

/-- A name marked in a scope without `this`. -/
theorem mark (h : Guards around frames) (b : Bool) (hx : (shape frames).Declares x) :
    Guards around (mark x b frames) where
  own := by
    intro frame hframe hthis
    cases frames with
    | nil => cases hframe
    | cons first outer =>
      rcases List.mem_cons.1 hframe with rfl | hframe
      · rw [contains_insert b hx.name] at hthis
        exact absurd (congrArg some hthis) hx.scope
      · exact h.own frame (List.mem_cons_of_mem _ hframe) hthis
  inClass := by
    rw [shape_mark b hx.name]
    exact h.inClass

/-- A scope without `this` around the code. -/
theorem cons (h : Guards around frames) (inFunction : Bool) {frame : Frame}
    (hframe : frame.contains thisName = false) :
    Guards { around with inFunction := inFunction } (frame :: frames) where
  own := by
    intro frame' hframe' hthis
    rcases List.mem_cons.1 hframe' with rfl | hframe'
    · rw [hframe] at hthis
      cases hthis
    · exact h.own frame' hframe' hthis
  inClass := fun hclass => List.mem_cons_of_mem _ (h.inClass hclass)

/-- The scope around the methods of a class. -/
theorem cons_thisFrame (h : Guards around frames) :
    Guards { around with inClass := true } (thisFrame :: frames) where
  own := by
    intro frame hframe hthis
    rcases List.mem_cons.1 hframe with rfl | hframe
    · rfl
    · exact h.own frame hframe hthis
  inClass := fun _ => List.mem_cons_self

/-- An assignment finds a scope that declares its name, so none with
`this`. -/
theorem spares (h : Guards around frames) (hx : x ≠ thisName) :
    (shape frames).Spares x (distance x frames) where
  name := hx
  scope := by
    intro d hd
    obtain ⟨hlt, hcontains, -⟩ := List.findIdx?_eq_some_iff_getElem.1 hd
    have hframe : frames[d]? = some frames[d] := List.getElem?_eq_getElem hlt
    rw [shape, List.getElem?_map, hframe, Option.map_some]
    refine congrArg some (Bool.eq_false_iff.2 fun hthis => hx ?_)
    rw [h.own _ (List.getElem_mem hlt) hthis] at hcontains
    exact contains_thisFrame hcontains

/-- Inside a class a `this` finds the innermost scope that holds it. -/
theorem finds (h : Guards around frames) (hclass : around.inClass = true) :
    (shape frames).Finds thisName (distance thisName frames) where
  name := rfl
  nearest := by
    rw [shape, List.findIdx?_map]
    rfl
  found := by
    obtain ⟨frame, hframe, hthis⟩ := List.mem_map.1 (h.inClass hclass)
    exact List.findIdx?_isSome.trans (List.any_eq_true.2 ⟨frame, hframe, hthis⟩)

end Guards

end

/-! ## What resolution leaves -/

mutual

/-- **An expression resolved without an issue respects the scopes.** -/
theorem resolveExpr_respects {around : Surroundings} {frames : List Frame}
    (h : Guards around frames) : ∀ e : Expr Unit, e.Spelled →
    (resolveExpr around e frames).issues = [] →
    ExprRespects (shape frames) (resolveExpr around e frames).value
  | .literal _ _, _, _ => trivial
  | .grouping _ inner, hspelled, hissues => by
    simp only [resolveExpr, Step.bind_run, Step.pure_run, List.append_nil] at hissues ⊢
    exact resolveExpr_respects h inner hspelled hissues
  | .unary _ operand, hspelled, hissues => by
    simp only [resolveExpr, Step.bind_run, Step.pure_run, List.append_nil] at hissues ⊢
    exact resolveExpr_respects h operand hspelled hissues
  | .binary left _ right, hspelled, hissues => by
    simp only [resolveExpr, Step.bind_run, Step.pure_run, frames_resolveExpr, List.append_nil,
      List.append_eq_nil_iff] at hissues ⊢
    exact ⟨resolveExpr_respects h left hspelled.1 hissues.1,
      resolveExpr_respects h right hspelled.2 hissues.2⟩
  | .ternary cond _ yes no, hspelled, hissues => by
    simp only [resolveExpr, Step.bind_run, Step.pure_run, frames_resolveExpr, List.append_nil,
      List.append_eq_nil_iff] at hissues ⊢
    exact ⟨resolveExpr_respects h cond hspelled.1 hissues.1,
      resolveExpr_respects h yes hspelled.2.1 hissues.2.1,
      resolveExpr_respects h no hspelled.2.2 hissues.2.2⟩
  | .logical left _ right, hspelled, hissues => by
    simp only [resolveExpr, Step.bind_run, Step.pure_run, frames_resolveExpr, List.append_nil,
      List.append_eq_nil_iff] at hissues ⊢
    exact ⟨resolveExpr_respects h left hspelled.1 hissues.1,
      resolveExpr_respects h right hspelled.2 hissues.2⟩
  | .var _ _, _, _ => trivial
  | .assign name _ value, hspelled, hissues => by
    simp only [resolveExpr, Step.bind_run, Step.pure_run, frames_resolveExpr, locate_run,
      List.append_nil] at hissues ⊢
    exact ⟨h.spares hspelled.1, resolveExpr_respects h value hspelled.2 hissues⟩
  | .call callee _ args, hspelled, hissues => by
    simp only [resolveExpr, Step.bind_run, Step.pure_run, frames_resolveExpr, List.append_nil,
      List.append_eq_nil_iff] at hissues ⊢
    exact ⟨resolveExpr_respects h callee hspelled.1 hissues.1,
      resolveExprs_respect h args hspelled.2 hissues.2⟩
  | .get object _, hspelled, hissues => by
    simp only [resolveExpr, Step.bind_run, Step.pure_run, List.append_nil] at hissues ⊢
    exact resolveExpr_respects h object hspelled hissues
  | .set object _ value, hspelled, hissues => by
    simp only [resolveExpr, Step.bind_run, Step.pure_run, frames_resolveExpr, List.append_nil,
      List.append_eq_nil_iff] at hissues ⊢
    exact ⟨resolveExpr_respects h object hspelled.1 hissues.2,
      resolveExpr_respects h value hspelled.2 hissues.1⟩
  | .receiver keyword _, hspelled, hissues => by
    have hthis : keyword.lexeme = thisName := hspelled
    simp only [resolveExpr] at hissues ⊢
    split at hissues
    · rename_i hclass
      have hfinds := h.finds hclass
      rw [← hthis] at hfinds
      simp only [hclass, if_true, Step.bind_run, Step.pure_run, locate_run]
      exact hfinds
    · simp only [Step.bind_run, Step.pure_run, complain_run, List.append_nil, List.cons_ne_nil]
        at hissues

theorem resolveExprs_respect {around : Surroundings} {frames : List Frame}
    (h : Guards around frames) : ∀ es : List (Expr Unit), Expr.SpelledAll es →
    (resolveExprs around es frames).issues = [] →
    ExprsRespect (shape frames) (resolveExprs around es frames).value
  | [], _, _ => trivial
  | e :: rest, hspelled, hissues => by
    simp only [resolveExprs, Step.bind_run, Step.pure_run, frames_resolveExpr, List.append_nil,
      List.append_eq_nil_iff] at hissues ⊢
    exact ⟨resolveExpr_respects h e hspelled.1 hissues.1,
      resolveExprs_respect h rest hspelled.2 hissues.2⟩

end

theorem resolveOption_respects {around : Surroundings} {frames : List Frame}
    (h : Guards around frames) {e : Option (Expr Unit)} (hspelled : Expr.SpelledOption e)
    (hissues : (resolveOption around e frames).issues = []) :
    ExprOptionRespects (shape frames) (resolveOption around e frames).value := by
  cases e with
  | none => trivial
  | some e =>
    simp only [resolveOption, Step.bind_run, Step.pure_run, List.append_nil] at hissues ⊢
    exact resolveExpr_respects h e hspelled hissues

/-- What the scopes are like after a statement. -/
theorem Guards.after {around : Surroundings} {frames : List Frame} {s : Stmt Unit}
    (h : Guards around frames) (hcore : s.Core) (hhead : (shape frames).head? ≠ some true) :
    Guards around (framesAfter s frames) ∧ shape (framesAfter s frames) = shape frames := by
  unfold framesAfter
  cases hdeclared : s.declared with
  | none => exact ⟨h, rfl⟩
  | some name =>
    have hname : name.lexeme ≠ thisName := by
      cases s <;> cases hdeclared <;> exact hcore.1
    exact ⟨h.mark true ⟨hname, hhead⟩, shape_mark true hname⟩

mutual

/-- **A statement resolved without an issue respects the scopes.** -/
theorem resolveStmt_respects : ∀ (s : Stmt Unit) {around : Surroundings} {frames : List Frame},
    Guards around frames → (shape frames).head? ≠ some true → s.Core →
    (resolveStmt around s frames).issues = [] →
    StmtRespects (shape frames) (resolveStmt around s frames).value
  | .block _ body, around, frames, h, _, hcore, hissues => by
    simp only [resolveStmt, Step.bind_run, Step.pure_run, inScope_run, List.append_nil]
      at hissues ⊢
    have hempty : (Table.empty : Frame).contains thisName = false := rfl
    exact resolveStmts_respect body (h.cons around.inFunction hempty) nofun hcore hissues
  | .expr e, around, frames, h, _, hcore, hissues => by
    simp only [resolveStmt, Step.bind_run, Step.pure_run, List.append_nil] at hissues ⊢
    exact resolveExpr_respects h e hcore hissues
  | .print _ value, around, frames, h, _, hcore, hissues => by
    simp only [resolveStmt, Step.bind_run, Step.pure_run, List.append_nil] at hissues ⊢
    exact resolveExpr_respects h value hcore hissues
  | .varDecl name initial, around, frames, h, hhead, hcore, hissues => by
    have hname : (shape frames).Declares name.lexeme := ⟨hcore.1, hhead⟩
    simp only [resolveStmt, Step.bind_run, Step.pure_run, declare_run, define_run,
      List.append_nil, List.append_eq_nil_iff] at hissues ⊢
    refine ⟨hname, ?_⟩
    have hinitial := resolveOption_respects (h.mark false hname) hcore.2 hissues.2
    rwa [shape_mark false hname.name] at hinitial
  | .branch _ cond yes no, around, frames, h, hhead, ⟨hcond, ⟨hdeclared, hyes⟩, hno⟩, hissues => by
    simp only [resolveStmt, Step.bind_run, Step.pure_run, frames_resolveExpr,
      frames_resolveStmt yes around frames hyes, framesAfter_of_none hdeclared, List.append_nil,
      List.append_eq_nil_iff] at hissues ⊢
    exact ⟨resolveExpr_respects h cond hcond hissues.1,
      resolveStmt_respects yes h hhead hyes hissues.2.1,
      resolveOptionStmt_respects no h hhead hno hissues.2.2⟩
  | .loop _ cond body, around, frames, h, hhead, ⟨hcond, hbody⟩, hissues => by
    simp only [resolveStmt, Step.bind_run, Step.pure_run, frames_resolveExpr, List.append_nil,
      List.append_eq_nil_iff] at hissues ⊢
    exact ⟨resolveExpr_respects h cond hcond hissues.1,
      resolveOptionStmt_respects body h hhead hbody hissues.2⟩
  | .forLoop _ _ _ _ _, _, _, _, _, hcore, _ => hcore.elim
  | .function decl, around, frames, h, hhead, hcore, hissues => by
    have hname : (shape frames).Declares decl.name.lexeme := ⟨hcore.1, hhead⟩
    simp only [resolveStmt, Step.bind_run, Step.pure_run, declare_run, define_run, mark_mark,
      List.append_nil, List.append_eq_nil_iff, List.nil_append] at hissues ⊢
    have hdecl := resolveRoutine_respects decl (h.mark true hname) hcore.2 hissues.2
    rw [shape_mark true hname.name] at hdecl
    refine ⟨?_, hdecl⟩
    rw [name_resolveRoutine]
    exact hname
  | .ret _ value, around, frames, h, _, hcore, hissues => by
    simp only [resolveStmt] at hissues ⊢
    split at hissues
    · rename_i hfunction
      simp only [hfunction, if_true, Step.bind_run, Step.pure_run, List.append_nil] at hissues ⊢
      exact resolveOption_respects h hcore hissues
    · simp [Step.bind_run, complain_run] at hissues
  | .classDecl name superclass methods, around, frames, h, hhead, hcore, hissues => by
    have hname : (shape frames).Declares name.lexeme := ⟨hcore.1, hhead⟩
    simp only [resolveStmt, Step.bind_run, Step.pure_run, declare_run, define_run, mark_mark,
      frames_resolveSuperclass, inScope_run, List.append_nil, List.append_eq_nil_iff,
      List.nil_append] at hissues ⊢
    have hmethods :=
      resolveMethods_respect methods (h.mark true hname).cons_thisFrame hcore.2 hissues.2.2
    have hshape : shape (thisFrame :: Scoping.mark name.lexeme true frames) =
        true :: shape frames := by
      rw [shape, List.map_cons, ← shape, shape_mark true hname.name]
      rfl
    rw [hshape] at hmethods
    exact ⟨hname, hmethods⟩

theorem resolveStmts_respect : ∀ (ss : List (Stmt Unit)) {around : Surroundings}
    {frames : List Frame}, Guards around frames → (shape frames).head? ≠ some true →
    Stmt.CoreAll ss → (resolveStmts around ss frames).issues = [] →
    BodyRespects (shape frames) (resolveStmts around ss frames).value
  | [], _, _, _, _, _, _ => trivial
  | s :: rest, around, frames, h, hhead, ⟨hs, hrest⟩, hissues => by
    simp only [resolveStmts, Step.bind_run, Step.pure_run, frames_resolveStmt s around frames hs,
      List.append_nil, List.append_eq_nil_iff] at hissues ⊢
    obtain ⟨hafter, hshape⟩ := h.after hs hhead
    have hlater := resolveStmts_respect rest hafter (by rwa [hshape]) hrest hissues.2
    rw [hshape] at hlater
    exact ⟨resolveStmt_respects s h hhead hs hissues.1, hlater⟩

theorem resolveOptionStmt_respects : ∀ (s : Option (Stmt Unit)) {around : Surroundings}
    {frames : List Frame}, Guards around frames → (shape frames).head? ≠ some true →
    Stmt.CoreOption s → (resolveOptionStmt around s frames).issues = [] →
    StmtOptionRespects (shape frames) (resolveOptionStmt around s frames).value
  | none, _, _, _, _, _, _ => trivial
  | some s, around, frames, h, hhead, ⟨_, hs⟩, hissues => by
    simp only [resolveOptionStmt, Step.bind_run, Step.pure_run, List.append_nil] at hissues ⊢
    exact resolveStmt_respects s h hhead hs hissues

theorem resolveRoutine_respects : ∀ (decl : Routine (Stmt Unit)) {around : Surroundings}
    {frames : List Frame}, Guards around frames → Stmt.CoreRoutine decl →
    (resolveRoutine around decl frames).issues = [] →
    RoutineRespects (shape frames) (resolveRoutine around decl frames).value
  | ⟨name, params, body⟩, around, frames, h, ⟨hparams, hbody⟩, hissues => by
    simp only [resolveRoutine, inScope_run, Step.bind_run, Step.pure_run, frames_declareAll,
      List.append_nil, List.append_eq_nil_iff] at hissues ⊢
    have hparam := contains_paramFrame hparams
    have hshape : shape (paramFrame params :: frames) = false :: shape frames := by
      rw [shape, List.map_cons, hparam]
      rfl
    have hrespects := resolveStmts_respect body (h.cons true hparam)
      (by rw [hshape]; nofun) hbody hissues.2
    rw [hshape] at hrespects
    exact ⟨hparams, hrespects⟩

theorem resolveMethods_respect : ∀ (ms : List (Routine (Stmt Unit))) {around : Surroundings}
    {frames : List Frame}, Guards around frames → Stmt.CoreMethods ms →
    (resolveMethods around ms frames).issues = [] →
    MethodsRespect (shape frames) (resolveMethods around ms frames).value
  | [], _, _, _, _, _ => trivial
  | m :: rest, around, frames, h, ⟨hm, hrest⟩, hissues => by
    simp only [resolveMethods, Step.bind_run, Step.pure_run,
      frames_resolveRoutine m around frames hm, List.append_nil, List.append_eq_nil_iff]
      at hissues ⊢
    exact ⟨resolveRoutine_respects m h hm hissues.1, resolveMethods_respect rest h hrest hissues.2⟩

end

/-- **A program resolved without an issue respects the scopes**: at the top
there are none. -/
theorem resolve_respects {p : Program Unit} (hcore : Stmt.CoreAll p)
    (hissues : (resolve p).issues = []) : BodyRespects [] (resolve p).value :=
  resolveStmts_respect p .nil nofun hcore hissues

end Scoping

end TanLang
