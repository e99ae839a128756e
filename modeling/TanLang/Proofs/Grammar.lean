import TanLang.Parser.Statement
/-!
# The grammar

The language as productions over lists of tokens, written down without
reference to how it is parsed. Each production also names the tree that
belongs to what it derives. **A production never asks anything of a tree**,
so the trees do not restrict what can be derived, and where two
derivations of one list differ, as they do for an `else` after two open
`if`s, both are there.

The parser reads an `else` into the nearest `if`; `Stmt.NearestElse` says
of a tree that it is built that way throughout.
-/

namespace TanLang

namespace Grammar

open TanLang.Parser (Tier)

/-! ## Expressions -/

/-- The nonterminals of expressions, from loosest to tightest. -/
inductive Level where
  | assignment
  | choice
  | chain (t : Tier)
  | sign
  | call
  | primary
  deriving DecidableEq

/-- The operators of a tier. -/
def operators : Tier → List Token.Kind
  | .disjunction => [.orWord]
  | .conjunction => [.andWord]
  | .equality => [.notEqual, .equal]
  | .comparison => [.greater, .greaterEqual, .less, .lessEqual]
  | .sum => [.minus, .plus]
  | .product => [.slash, .star]

/-- What stands between the operators of a tier. -/
def between : Tier → Level
  | .disjunction => .chain .conjunction
  | .conjunction => .chain .equality
  | .equality => .chain .comparison
  | .comparison => .chain .sum
  | .sum => .chain .product
  | .product => .sign

/-- The most entries a list of parameters or of arguments may have. -/
def maxEntries : Nat := 255

/-- A token that stands for a value by itself. -/
inductive Constant : Token → Literal → Prop where
  | falsity {t : Token} (h : t.kind = .falseWord) : Constant t (.bool false)
  | truth {t : Token} (h : t.kind = .trueWord) : Constant t (.bool true)
  | nothing {t : Token} (h : t.kind = .nilWord) : Constant t .nil
  | number {t : Token} (h : t.kind = .number) : Constant t t.literal
  | string {t : Token} (h : t.kind = .string) : Constant t t.literal

mutual

/-- **The productions of expressions.** A list of tokens is derived from a
level, together with the tree it stands for. -/
inductive Expression : Level → List Token → Expr Unit → Prop where
  /-- `IDENT = assignment` -/
  | assign {name equals : Token} {w : List Token} {value : Expr Unit}
      (hname : name.kind = .identifier) (hequals : equals.kind = .assign)
      (hvalue : Expression .assignment w value) :
      Expression .assignment (name :: equals :: w) (.assign name () value)
  /-- `call . IDENT = assignment` -/
  | assignField {dot name equals : Token} {c w : List Token} {object value : Expr Unit}
      (hobject : Expression .call c object) (hdot : dot.kind = .period)
      (hname : name.kind = .identifier) (hequals : equals.kind = .assign)
      (hvalue : Expression .assignment w value) :
      Expression .assignment (c ++ dot :: name :: equals :: w) (.set object name value)
  /-- no assignment -/
  | assignNone {w : List Token} {e : Expr Unit} (h : Expression .choice w e) :
      Expression .assignment w e
  /-- `or ? ternary : ternary` -/
  | choice {mark colon : Token} {c y n : List Token} {cond yes no : Expr Unit}
      (hcond : Expression (.chain .disjunction) c cond) (hmark : mark.kind = .question)
      (hyes : Expression .choice y yes) (hcolon : colon.kind = .colon)
      (hno : Expression .choice n no) :
      Expression .choice (c ++ mark :: (y ++ colon :: n)) (.ternary cond mark yes no)
  /-- no ternary -/
  | choiceNone {w : List Token} {e : Expr Unit} (h : Expression (.chain .disjunction) w e) :
      Expression .choice w e
  /-- a chain that goes on, which groups to the left -/
  | chain {t : Tier} {op : Token} {l r : List Token} {left right : Expr Unit}
      (hleft : Expression (.chain t) l left) (hop : op.kind ∈ operators t)
      (hright : Expression (between t) r right) :
      Expression (.chain t) (l ++ op :: r) (t.node left op right)
  /-- a chain of one -/
  | chainNone {t : Tier} {w : List Token} {e : Expr Unit} (h : Expression (between t) w e) :
      Expression (.chain t) w e
  /-- `! unary` and `- unary` -/
  | sign {op : Token} {w : List Token} {e : Expr Unit} (hop : op.kind = .bang ∨ op.kind = .minus)
      (h : Expression .sign w e) : Expression .sign (op :: w) (.unary op e)
  /-- no sign -/
  | signNone {w : List Token} {e : Expr Unit} (h : Expression .call w e) :
      Expression .sign w e
  /-- `call ( )` -/
  | invoke {opening closing : Token} {c : List Token} {callee : Expr Unit}
      (hcallee : Expression .call c callee) (hopening : opening.kind = .leftParen)
      (hclosing : closing.kind = .rightParen) :
      Expression .call (c ++ [opening, closing]) (.call callee closing [])
  /-- `call ( arguments )` -/
  | invokeWith {opening closing : Token} {c a : List Token} {callee : Expr Unit}
      {args : List (Expr Unit)} (hcallee : Expression .call c callee)
      (hopening : opening.kind = .leftParen) (hargs : Arguments a args)
      (hcount : args.length ≤ maxEntries) (hclosing : closing.kind = .rightParen) :
      Expression .call (c ++ opening :: (a ++ [closing])) (.call callee closing args)
  /-- `call . IDENT` -/
  | property {dot name : Token} {c : List Token} {object : Expr Unit}
      (hobject : Expression .call c object) (hdot : dot.kind = .period)
      (hname : name.kind = .identifier) :
      Expression .call (c ++ [dot, name]) (.get object name)
  /-- no call -/
  | callNone {w : List Token} {e : Expr Unit} (h : Expression .primary w e) :
      Expression .call w e
  | constant {t : Token} {value : Literal} (h : Constant t value) :
      Expression .primary [t] (.literal t value)
  | receiver {t : Token} (h : t.kind = .thisWord) : Expression .primary [t] (.receiver t ())
  | name {t : Token} (h : t.kind = .identifier) : Expression .primary [t] (.var t ())
  /-- `( expression )` -/
  | grouping {opening closing : Token} {w : List Token} {e : Expr Unit}
      (hopening : opening.kind = .leftParen) (h : Expression .assignment w e)
      (hclosing : closing.kind = .rightParen) :
      Expression .primary (opening :: (w ++ [closing])) (.grouping opening e)

/-- Expressions with commas between them. -/
inductive Arguments : List Token → List (Expr Unit) → Prop where
  | one {w : List Token} {e : Expr Unit} (h : Expression .assignment w e) : Arguments w [e]
  | more {comma : Token} {w v : List Token} {e : Expr Unit} {es : List (Expr Unit)}
      (h : Expression .assignment w e) (hcomma : comma.kind = .comma) (hes : Arguments v es) :
      Arguments (w ++ comma :: v) (e :: es)

end

/-- An expression that may be missing. -/
inductive Optional : List Token → Option (Expr Unit) → Prop where
  | none : Optional [] none
  | some {w : List Token} {e : Expr Unit} (h : Expression .assignment w e) : Optional w (some e)

/-! ## Statements and declarations -/

/-- `var IDENT ;` and `var IDENT = expression ;` -/
inductive Variable : List Token → Stmt Unit → Prop where
  | plain {keyword name semicolon : Token} (hkeyword : keyword.kind = .varWord)
      (hname : name.kind = .identifier) (hsemicolon : semicolon.kind = .semicolon) :
      Variable [keyword, name, semicolon] (.varDecl name none)
  | initial {keyword name equals semicolon : Token} {w : List Token} {e : Expr Unit}
      (hkeyword : keyword.kind = .varWord) (hname : name.kind = .identifier)
      (hequals : equals.kind = .assign) (h : Expression .assignment w e)
      (hsemicolon : semicolon.kind = .semicolon) :
      Variable (keyword :: name :: equals :: (w ++ [semicolon])) (.varDecl name (some e))

/-- `expression ;` -/
inductive Effect : List Token → Stmt Unit → Prop where
  | intro {semicolon : Token} {w : List Token} {e : Expr Unit} (h : Expression .assignment w e)
      (hsemicolon : semicolon.kind = .semicolon) : Effect (w ++ [semicolon]) (.expr e)

/-- The first part of a `for` loop: a variable, an expression, or only the
semicolon. -/
inductive ForInitial : List Token → Option (Stmt Unit) → Prop where
  | none {semicolon : Token} (h : semicolon.kind = .semicolon) : ForInitial [semicolon] none
  | declared {w : List Token} {s : Stmt Unit} (h : Variable w s) : ForInitial w (some s)
  | effect {w : List Token} {s : Stmt Unit} (h : Effect w s) : ForInitial w (some s)

/-- The three clauses of a `for` loop with their parentheses. -/
inductive ForClauses :
    List Token → Option (Stmt Unit) → Option (Expr Unit) → Option (Expr Unit) → Prop where
  | intro {opening semicolon closing : Token} {i c s : List Token} {initial : Option (Stmt Unit)}
      {cond step : Option (Expr Unit)} (hopening : opening.kind = .leftParen)
      (hinitial : ForInitial i initial) (hcond : Optional c cond)
      (hsemicolon : semicolon.kind = .semicolon) (hstep : Optional s step)
      (hclosing : closing.kind = .rightParen) :
      ForClauses (opening :: (i ++ (c ++ semicolon :: (s ++ [closing])))) initial cond step

/-- Names with commas between them. -/
inductive Names : List Token → List Token → Prop where
  | one {name : Token} (h : name.kind = .identifier) : Names [name] [name]
  | more {name comma : Token} {w names : List Token} (h : name.kind = .identifier)
      (hcomma : comma.kind = .comma) (hnames : Names w names) :
      Names (name :: comma :: w) (name :: names)

/-- Parameters, of which there may be none. -/
inductive Parameters : List Token → List Token → Prop where
  | none : Parameters [] []
  | some {w params : List Token} (h : Names w params) (hcount : params.length ≤ maxEntries) :
      Parameters w params

/-- The superclass of a class, which may be missing. -/
inductive Superclass : List Token → Option (Token × Unit) → Prop where
  | none : Superclass [] none
  | some {less name : Token} (hless : less.kind = .less) (hname : name.kind = .identifier) :
      Superclass [less, name] (some (name, ()))

mutual

/-- **The productions of statements.** -/
inductive Statement : List Token → Stmt Unit → Prop where
  | effect {w : List Token} {s : Stmt Unit} (h : Effect w s) : Statement w s
  /-- `print expression ;` -/
  | print {keyword semicolon : Token} {w : List Token} {e : Expr Unit}
      (hkeyword : keyword.kind = .printWord) (h : Expression .assignment w e)
      (hsemicolon : semicolon.kind = .semicolon) :
      Statement (keyword :: (w ++ [semicolon])) (.print keyword e)
  /-- `return expression? ;` -/
  | ret {keyword semicolon : Token} {w : List Token} {e : Option (Expr Unit)}
      (hkeyword : keyword.kind = .returnWord) (h : Optional w e)
      (hsemicolon : semicolon.kind = .semicolon) :
      Statement (keyword :: (w ++ [semicolon])) (.ret keyword e)
  | block {opening : Token} {w : List Token} {body : List (Stmt Unit)}
      (hopening : opening.kind = .leftBrace) (h : Body w body) :
      Statement (opening :: w) (.block opening body)
  /-- `if ( expression ) statement` -/
  | branch {keyword opening closing : Token} {c y : List Token} {cond : Expr Unit}
      {yes : Stmt Unit} (hkeyword : keyword.kind = .ifWord)
      (hopening : opening.kind = .leftParen) (hcond : Expression .assignment c cond)
      (hclosing : closing.kind = .rightParen) (hyes : Statement y yes) :
      Statement (keyword :: opening :: (c ++ closing :: y)) (.branch keyword cond yes none)
  /-- `if ( expression ) statement else statement` -/
  | branchElse {keyword opening closing otherwise : Token} {c y n : List Token}
      {cond : Expr Unit} {yes no : Stmt Unit} (hkeyword : keyword.kind = .ifWord)
      (hopening : opening.kind = .leftParen) (hcond : Expression .assignment c cond)
      (hclosing : closing.kind = .rightParen) (hyes : Statement y yes)
      (hotherwise : otherwise.kind = .elseWord) (hno : Statement n no) :
      Statement (keyword :: opening :: (c ++ closing :: (y ++ otherwise :: n)))
        (.branch keyword cond yes (some no))
  /-- `while ( expression ) statement` -/
  | loop {keyword opening closing : Token} {c b : List Token} {cond : Expr Unit}
      {body : Stmt Unit} (hkeyword : keyword.kind = .whileWord)
      (hopening : opening.kind = .leftParen) (hcond : Expression .assignment c cond)
      (hclosing : closing.kind = .rightParen) (hbody : Statement b body) :
      Statement (keyword :: opening :: (c ++ closing :: b)) (.loop keyword cond (some body))
  /-- `for clauses statement` -/
  | forLoop {keyword : Token} {c b : List Token} {initial : Option (Stmt Unit)}
      {cond step : Option (Expr Unit)} {body : Stmt Unit} (hkeyword : keyword.kind = .forWord)
      (hclauses : ForClauses c initial cond step) (hbody : Statement b body) :
      Statement (keyword :: (c ++ b)) (.forLoop keyword initial cond step (some body))
  /-- `for clauses ;` -/
  | forEmpty {keyword semicolon : Token} {c : List Token} {initial : Option (Stmt Unit)}
      {cond step : Option (Expr Unit)} (hkeyword : keyword.kind = .forWord)
      (hclauses : ForClauses c initial cond step) (hsemicolon : semicolon.kind = .semicolon) :
      Statement (keyword :: (c ++ [semicolon])) (.forLoop keyword initial cond step none)

/-- **The productions of declarations.** -/
inductive Declaration : List Token → Stmt Unit → Prop where
  | statement {w : List Token} {s : Stmt Unit} (h : Statement w s) : Declaration w s
  | varDecl {w : List Token} {s : Stmt Unit} (h : Variable w s) : Declaration w s
  /-- `function method` -/
  | function {keyword : Token} {w : List Token} {decl : Routine (Stmt Unit)}
      (hkeyword : keyword.kind = .functionWord) (h : Method w decl) :
      Declaration (keyword :: w) (.function decl)
  /-- `class IDENT superclass? { method* }` -/
  | classDecl {keyword name opening closing : Token} {s m : List Token}
      {superclass : Option (Token × Unit)} {methods : List (Routine (Stmt Unit))}
      (hkeyword : keyword.kind = .classWord) (hname : name.kind = .identifier)
      (hsuperclass : Superclass s superclass) (hopening : opening.kind = .leftBrace)
      (hmethods : Methods m methods) (hclosing : closing.kind = .rightBrace) :
      Declaration (keyword :: name :: (s ++ opening :: (m ++ [closing])))
        (.classDecl name superclass methods)

/-- Declarations in a row. -/
inductive Declarations : List Token → List (Stmt Unit) → Prop where
  | nil : Declarations [] []
  | cons {w v : List Token} {s : Stmt Unit} {ss : List (Stmt Unit)} (h : Declaration w s)
      (hrest : Declarations v ss) : Declarations (w ++ v) (s :: ss)

/-- `declaration* }`: a block after its opening brace. -/
inductive Body : List Token → List (Stmt Unit) → Prop where
  | intro {closing : Token} {w : List Token} {ss : List (Stmt Unit)} (h : Declarations w ss)
      (hclosing : closing.kind = .rightBrace) : Body (w ++ [closing]) ss

/-- `IDENT ( parameters ) block` -/
inductive Method : List Token → Routine (Stmt Unit) → Prop where
  | intro {name opening closing brace : Token} {p b params : List Token}
      {body : List (Stmt Unit)} (hname : name.kind = .identifier)
      (hopening : opening.kind = .leftParen) (hparams : Parameters p params)
      (hclosing : closing.kind = .rightParen) (hbrace : brace.kind = .leftBrace)
      (hbody : Body b body) :
      Method (name :: opening :: (p ++ closing :: brace :: b)) ⟨name, params, body⟩

/-- Methods in a row. -/
inductive Methods : List Token → List (Routine (Stmt Unit)) → Prop where
  | nil : Methods [] []
  | cons {w v : List Token} {decl : Routine (Stmt Unit)} {more : List (Routine (Stmt Unit))}
      (h : Method w decl) (hrest : Methods v more) : Methods (w ++ v) (decl :: more)

end

/-- `declaration*`: what a whole program is. -/
abbrev Program (w : List Token) (p : List (Stmt Unit)) : Prop := Declarations w p

end Grammar

/-! ## Where an `else` belongs -/

namespace Stmt

variable {α : Type}

mutual

/-- Whether a statement ends in an `if` that an `else` could still be added
to. -/
def trailingIf : Stmt α → Bool
  | branch _ _ _ no => trailingIfOr true no
  | loop _ _ body => trailingIfOr false body
  | forLoop _ _ _ _ body => trailingIfOr false body
  | _ => false

/-- The same for a statement that may be missing, with the answer for when
it is. -/
def trailingIfOr (missing : Bool) : Option (Stmt α) → Bool
  | none => missing
  | some s => trailingIf s

end

mutual

/-- **Every `else` belongs to the nearest `if` that is open.** -/
def NearestElse : Stmt α → Prop
  | block _ body => NearestElseAll body
  | branch _ _ yes no =>
    NearestElse yes ∧ NearestElseOption no ∧ (no.isSome = true → trailingIf yes = false)
  | loop _ _ body => NearestElseOption body
  | forLoop _ initial _ _ body => NearestElseOption initial ∧ NearestElseOption body
  | function decl => NearestElseRoutine decl
  | classDecl _ _ methods => NearestElseMethods methods
  | _ => True

/-- The same for statements in a row. -/
def NearestElseAll : List (Stmt α) → Prop
  | [] => True
  | s :: rest => NearestElse s ∧ NearestElseAll rest

/-- The same for a statement that may be missing. -/
def NearestElseOption : Option (Stmt α) → Prop
  | none => True
  | some s => NearestElse s

/-- The same for the body of a function. -/
def NearestElseRoutine : Routine (Stmt α) → Prop
  | ⟨_, _, body⟩ => NearestElseAll body

/-- The same for the methods of a class. -/
def NearestElseMethods : List (Routine (Stmt α)) → Prop
  | [] => True
  | m :: rest => NearestElseRoutine m ∧ NearestElseMethods rest

end

theorem nearestElseRoutine_iff {decl : Routine (Stmt α)} :
    NearestElseRoutine decl ↔ NearestElseAll decl.body := by
  cases decl
  rw [NearestElseRoutine]

end Stmt

end TanLang
