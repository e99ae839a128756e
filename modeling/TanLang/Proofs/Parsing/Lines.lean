import TanLang.Proofs.Lines
import TanLang.Proofs.Parsing.Acceptance
/-!
# Parsing — the same tokens on other lines

No production asks on which line a token stands, so a derivation can be
moved to other lines, and the derivations of two programs put together
derive the one program after the other. What is read from tokens can be
told from any derivation in which every `else` stands at its nearest `if`.
-/

namespace TanLang

namespace Grammar

variable {f : Int → Int}

theorem Constant.reline {t : Token} {value : Literal} (h : Constant t value) :
    Constant (t.reline f) value := by
  cases h with
  | falsity h => exact .falsity h
  | truth h => exact .truth h
  | nothing h => exact .nothing h
  | number h => exact .number (t := t.reline f) h
  | string h => exact .string (t := t.reline f) h

theorem reline_node (t : Parser.Tier) (left right : Expr Unit) (op : Token) :
    (t.node left op right).reline f = t.node (left.reline f) (op.reline f) (right.reline f) := by
  cases t <;> rfl

mutual

/-- **A derivation of an expression on other lines.** -/
theorem Expression.reline {level : Level} {w : List Token} {e : Expr Unit} :
    Expression level w e → Expression level (w.map (Token.reline f)) (e.reline f)
  | .assign hname hequals hvalue => by
    simp only [List.map_cons, Expr.reline]
    exact .assign hname hequals hvalue.reline
  | .assignField hobject hdot hname hequals hvalue => by
    simp only [List.map_append, List.map_cons, Expr.reline]
    exact .assignField hobject.reline hdot hname hequals hvalue.reline
  | .assignNone h => .assignNone h.reline
  | .choice hcond hmark hyes hcolon hno => by
    simp only [List.map_append, List.map_cons, Expr.reline]
    exact .choice hcond.reline hmark hyes.reline hcolon hno.reline
  | .choiceNone h => .choiceNone h.reline
  | .chain hleft hop hright => by
    simp only [List.map_append, List.map_cons, reline_node]
    exact .chain hleft.reline hop hright.reline
  | .chainNone h => .chainNone h.reline
  | .sign hop h => by
    simp only [List.map_cons, Expr.reline]
    exact .sign hop h.reline
  | .signNone h => .signNone h.reline
  | .invoke hcallee hopening hclosing => by
    simp only [List.map_append, List.map_cons, List.map_nil, Expr.reline, Expr.relineAll]
    exact .invoke hcallee.reline hopening hclosing
  | .invokeWith hcallee hopening hargs hcount hclosing => by
    simp only [List.map_append, List.map_cons, List.map_nil, Expr.reline]
    refine .invokeWith hcallee.reline hopening hargs.reline ?_ hclosing
    rwa [Expr.length_relineAll]
  | .property hobject hdot hname => by
    simp only [List.map_append, List.map_cons, List.map_nil, Expr.reline]
    exact .property hobject.reline hdot hname
  | .callNone h => .callNone h.reline
  | .constant h => by
    simp only [List.map_cons, List.map_nil, Expr.reline]
    exact .constant h.reline
  | .receiver h => by
    simp only [List.map_cons, List.map_nil, Expr.reline]
    exact .receiver h
  | .name h => by
    simp only [List.map_cons, List.map_nil, Expr.reline]
    exact .name h
  | .grouping hopening h hclosing => by
    simp only [List.map_append, List.map_cons, List.map_nil, Expr.reline]
    exact .grouping hopening h.reline hclosing

/-- The same for expressions with commas between them. -/
theorem Arguments.reline {w : List Token} {es : List (Expr Unit)} :
    Arguments w es → Arguments (w.map (Token.reline f)) (Expr.relineAll f es)
  | .one h => .one h.reline
  | .more h hcomma hes => by
    simp only [List.map_append, List.map_cons, Expr.relineAll]
    exact .more h.reline hcomma hes.reline

end

theorem Optional.reline {w : List Token} {e : Option (Expr Unit)} (h : Optional w e) :
    Optional (w.map (Token.reline f)) (e.map (Expr.reline f)) := by
  cases h with
  | none => exact .none
  | some h => exact .some h.reline

theorem Variable.reline {w : List Token} {s : Stmt Unit} (h : Variable w s) :
    Variable (w.map (Token.reline f)) (s.reline f) := by
  cases h with
  | plain hkeyword hname hsemicolon => exact .plain hkeyword hname hsemicolon
  | initial hkeyword hname hequals h hsemicolon =>
    simp only [List.map_append, List.map_cons, List.map_nil, Stmt.reline, Option.map_some]
    exact .initial hkeyword hname hequals h.reline hsemicolon

theorem Effect.reline {w : List Token} {s : Stmt Unit} (h : Effect w s) :
    Effect (w.map (Token.reline f)) (s.reline f) := by
  cases h with
  | intro h hsemicolon =>
    simp only [List.map_append, List.map_cons, List.map_nil, Stmt.reline]
    exact .intro h.reline hsemicolon

theorem ForInitial.reline {w : List Token} {s : Option (Stmt Unit)} (h : ForInitial w s) :
    ForInitial (w.map (Token.reline f)) (Stmt.relineOption f s) := by
  cases h with
  | none h => exact .none h
  | declared h => exact .declared h.reline
  | effect h => exact .effect h.reline

theorem ForClauses.reline {w : List Token} {initial : Option (Stmt Unit)}
    {cond step : Option (Expr Unit)} (h : ForClauses w initial cond step) :
    ForClauses (w.map (Token.reline f)) (Stmt.relineOption f initial) (cond.map (Expr.reline f))
      (step.map (Expr.reline f)) := by
  cases h with
  | intro hopening hinitial hcond hsemicolon hstep hclosing =>
    simp only [List.map_append, List.map_cons, List.map_nil]
    exact .intro hopening hinitial.reline hcond.reline hsemicolon hstep.reline hclosing

theorem Names.reline {w names : List Token} (h : Names w names) :
    Names (w.map (Token.reline f)) (names.map (Token.reline f)) := by
  induction h with
  | one h => exact .one h
  | more h hcomma _ ih => exact .more h hcomma ih

theorem Parameters.reline {w params : List Token} (h : Parameters w params) :
    Parameters (w.map (Token.reline f)) (params.map (Token.reline f)) := by
  cases h with
  | none => exact .none
  | some h hcount =>
    refine .some h.reline ?_
    rwa [List.length_map]

theorem Superclass.reline {w : List Token} {superclass : Option (Token × Unit)}
    (h : Superclass w superclass) :
    Superclass (w.map (Token.reline f)) (superclass.map fun s => (s.1.reline f, s.2)) := by
  cases h with
  | none => exact .none
  | some hless hname => exact .some hless hname

mutual

/-- **A derivation of a statement on other lines.** -/
theorem Statement.reline {w : List Token} {s : Stmt Unit} :
    Statement w s → Statement (w.map (Token.reline f)) (s.reline f)
  | .effect h => .effect h.reline
  | .print hkeyword h hsemicolon => by
    simp only [List.map_append, List.map_cons, List.map_nil, Stmt.reline]
    exact .print hkeyword h.reline hsemicolon
  | .ret hkeyword h hsemicolon => by
    simp only [List.map_append, List.map_cons, List.map_nil, Stmt.reline]
    exact .ret hkeyword h.reline hsemicolon
  | .block hopening h => by
    simp only [List.map_cons, Stmt.reline]
    exact .block hopening h.reline
  | .branch hkeyword hopening hcond hclosing hyes => by
    simp only [List.map_append, List.map_cons, Stmt.reline, Stmt.relineOption]
    exact .branch hkeyword hopening hcond.reline hclosing hyes.reline
  | .branchElse hkeyword hopening hcond hclosing hyes hotherwise hno => by
    simp only [List.map_append, List.map_cons, Stmt.reline, Stmt.relineOption]
    exact .branchElse hkeyword hopening hcond.reline hclosing hyes.reline hotherwise hno.reline
  | .loop hkeyword hopening hcond hclosing hbody => by
    simp only [List.map_append, List.map_cons, Stmt.reline, Stmt.relineOption]
    exact .loop hkeyword hopening hcond.reline hclosing hbody.reline
  | .forLoop hkeyword hclauses hbody => by
    simp only [List.map_append, List.map_cons, Stmt.reline]
    exact .forLoop hkeyword hclauses.reline hbody.reline
  | .forEmpty hkeyword hclauses hsemicolon => by
    simp only [List.map_append, List.map_cons, List.map_nil, Stmt.reline]
    exact .forEmpty hkeyword hclauses.reline hsemicolon

/-- **A derivation of a declaration on other lines.** -/
theorem Declaration.reline {w : List Token} {s : Stmt Unit} :
    Declaration w s → Declaration (w.map (Token.reline f)) (s.reline f)
  | .statement h => .statement h.reline
  | .varDecl h => .varDecl h.reline
  | .function hkeyword h => by
    simp only [List.map_cons, Stmt.reline]
    exact .function hkeyword h.reline
  | .classDecl hkeyword hname hsuperclass hopening hmethods hclosing => by
    simp only [List.map_append, List.map_cons, List.map_nil, Stmt.reline]
    exact .classDecl hkeyword hname hsuperclass.reline hopening hmethods.reline hclosing

/-- The same for declarations in a row. -/
theorem Declarations.reline {w : List Token} {ss : List (Stmt Unit)} :
    Declarations w ss → Declarations (w.map (Token.reline f)) (Stmt.relineAll f ss)
  | .nil => .nil
  | .cons h hrest => by
    simp only [List.map_append, Stmt.relineAll]
    exact .cons h.reline hrest.reline

/-- The same for a block after its opening brace. -/
theorem Body.reline {w : List Token} {ss : List (Stmt Unit)} :
    Body w ss → Body (w.map (Token.reline f)) (Stmt.relineAll f ss)
  | .intro h hclosing => by
    simp only [List.map_append, List.map_cons, List.map_nil]
    exact .intro h.reline hclosing

/-- The same for a function from its name on. -/
theorem Method.reline {w : List Token} {decl : Routine (Stmt Unit)} :
    Method w decl → Method (w.map (Token.reline f)) (Stmt.relineRoutine f decl)
  | .intro hname hopening hparams hclosing hbrace hbody => by
    simp only [List.map_append, List.map_cons, Stmt.relineRoutine_eq]
    exact .intro hname hopening hparams.reline hclosing hbrace hbody.reline

/-- The same for methods in a row. -/
theorem Methods.reline {w : List Token} {ms : List (Routine (Stmt Unit))} :
    Methods w ms → Methods (w.map (Token.reline f)) (Stmt.relineMethods f ms)
  | .nil => .nil
  | .cons h hrest => by
    simp only [List.map_append, Stmt.relineMethods]
    exact .cons h.reline hrest.reline

end

/-- **One program after another is a program.** -/
theorem Declarations.append {w v : List Token} {p q : List (Stmt Unit)} :
    Declarations w p → Declarations v q → Declarations (w ++ v) (p ++ q)
  | .nil, hq => hq
  | .cons h hrest, hq => by
    rw [List.append_assoc]
    exact .cons h (hrest.append hq)

end Grammar

/-! ## Where an `else` belongs -/

namespace Stmt

variable {α : Type} (f : Int → Int)

mutual

theorem trailingIf_reline : ∀ s : Stmt α, (s.reline f).trailingIf = s.trailingIf
  | branch _ _ _ no => by
    simp only [reline, trailingIf]
    exact trailingIfOr_reline true no
  | loop _ _ body => by
    simp only [reline, trailingIf]
    exact trailingIfOr_reline false body
  | forLoop _ _ _ _ body => by
    simp only [reline, trailingIf]
    exact trailingIfOr_reline false body
  | block _ _ => rfl
  | expr _ => rfl
  | print _ _ => rfl
  | varDecl _ _ => rfl
  | function _ => rfl
  | ret _ _ => rfl
  | classDecl _ _ _ => rfl

theorem trailingIfOr_reline (missing : Bool) : ∀ s : Option (Stmt α),
    trailingIfOr missing (relineOption f s) = trailingIfOr missing s
  | none => rfl
  | some s => by
    simp only [relineOption, trailingIfOr]
    exact trailingIf_reline s

end

theorem isSome_relineOption (s : Option (Stmt α)) : (relineOption f s).isSome = s.isSome := by
  cases s <;> rfl

mutual

theorem NearestElse.reline : ∀ {s : Stmt α}, s.NearestElse → (s.reline f).NearestElse
  | .block _ _, h => NearestElseAll.reline h
  | .branch _ _ yes no, h => by
    obtain ⟨hyes, hno, htrailing⟩ := h
    refine ⟨hyes.reline, NearestElseOption.reline hno, fun hsome => ?_⟩
    rw [isSome_relineOption] at hsome
    rw [trailingIf_reline]
    exact htrailing hsome
  | .loop _ _ _, h => NearestElseOption.reline h
  | .forLoop _ _ _ _ _, h => ⟨NearestElseOption.reline h.1, NearestElseOption.reline h.2⟩
  | .function _, h => NearestElseRoutine.reline h
  | .classDecl _ _ _, h => NearestElseMethods.reline h
  | .expr _, _ => trivial
  | .print _ _, _ => trivial
  | .varDecl _ _, _ => trivial
  | .ret _ _, _ => trivial

theorem NearestElseAll.reline : ∀ {ss : List (Stmt α)}, NearestElseAll ss →
    NearestElseAll (relineAll f ss)
  | [], _ => trivial
  | _ :: _, h => ⟨NearestElse.reline h.1, NearestElseAll.reline h.2⟩

theorem NearestElseOption.reline : ∀ {s : Option (Stmt α)}, NearestElseOption s →
    NearestElseOption (relineOption f s)
  | none, _ => trivial
  | some _, h => NearestElse.reline h

theorem NearestElseRoutine.reline : ∀ {decl : Routine (Stmt α)}, NearestElseRoutine decl →
    NearestElseRoutine (relineRoutine f decl)
  | ⟨_, _, _⟩, h => NearestElseAll.reline h

theorem NearestElseMethods.reline : ∀ {ms : List (Routine (Stmt α))}, NearestElseMethods ms →
    NearestElseMethods (relineMethods f ms)
  | [], _ => trivial
  | _ :: _, h => ⟨NearestElseRoutine.reline h.1, NearestElseMethods.reline h.2⟩

end

theorem NearestElseAll.append {p q : List (Stmt α)} (hp : NearestElseAll p)
    (hq : NearestElseAll q) : NearestElseAll (p ++ q) := by
  induction p with
  | nil => exact hq
  | cons s rest ih => exact ⟨hp.1, ih hp.2⟩

end Stmt

/-! ## Programs one after the other -/

namespace Program

/-- **Tokens of two programs, the second on other lines, are read as the one
program after the other.** -/
theorem read_append {tokens first second : List Token} {f : Int → Int}
    (hahead : ahead tokens = ahead first ++ (ahead second).map (Token.reline f))
    (hfirst : (read first).issues = []) (hsecond : (read second).issues = []) :
    read tokens = ⟨(read first).program ++ Stmt.relineAll f (read second).program, []⟩ := by
  obtain ⟨hp, hpnear⟩ := derived_of_read hfirst
  obtain ⟨hq, hqnear⟩ := derived_of_read hsecond
  refine read_of_derived ?_ (hpnear.append (Stmt.NearestElseAll.reline f hqnear))
  rw [hahead]
  exact hp.append hq.reline

end Program

end TanLang
