import TanLang.Proofs.Parsing.Acceptance
/-!
# Parsing — a tree written back as tokens

Flattening writes a tree back as a list of tokens. A token that a node keeps
stands where the node was read; the others, which no node keeps, are
punctuation and keywords of one spelling, and are put in anew. **A tree that
was derived from tokens flattens to these tokens**: none is lost, doubled or
out of order, and each has its kind and its spelling again.
-/

namespace TanLang

/-! ## Spellings -/

namespace Token

/-- The one spelling that tokens of a kind have, unless they can differ. -/
def Kind.spelling? (k : Kind) : Option Text :=
  match Kind.keywords.find? fun word => word.2 == k with
  | some word => some (Text.ofString word.1)
  | none =>
    if k ∈ [.illegal, .eof, .identifier, .number, .string] then none
    else some (Text.ofString k.name)

/-- A token of a kind that has one spelling, put in anew. -/
def mark (k : Kind) : Token := ⟨k, k.spelling?.getD [], .nil, 0⟩

@[simp]
theorem kind_mark (k : Kind) : (mark k).kind = k := rfl

/-- A token is spelled as its kind is, if that has one spelling. -/
def Regular (t : Token) : Prop := ∀ spelling, t.kind.spelling? = some spelling → t.lexeme = spelling

/-- The kind of a token, and its spelling unless the kind tells it. -/
def shape (t : Token) : Kind × Text := (t.kind, t.kind.spelling?.getD t.lexeme)

/-- A view of tokens cannot tell a token from one of its kind that is put in
anew, where its kind has one spelling. -/
def Overlooks {β : Type} (f : Token → β) (t : Token) : Prop :=
  t.kind.spelling?.isSome = true → f (mark t.kind) = f t

theorem overlooks_shape (t : Token) : Overlooks shape t := by
  intro h
  obtain ⟨spelling, hspelling⟩ := Option.isSome_iff_exists.1 h
  unfold shape mark
  simp only [hspelling, Option.getD_some]

theorem Regular.overlooks {t : Token} (h : t.Regular) :
    Overlooks (fun t => (t.kind, t.lexeme)) t := by
  intro hsome
  obtain ⟨spelling, hspelling⟩ := Option.isSome_iff_exists.1 hsome
  simp only [mark, hspelling, Option.getD_some, h spelling hspelling]

end Token

open Token (mark Overlooks)

/-! ## Flattening -/

variable {α : Type}

namespace Expr

mutual

/-- **An expression written back as tokens.** -/
def flatten : Expr α → List Token
  | literal token _ => [token]
  | grouping paren inner => paren :: (flatten inner ++ [mark .rightParen])
  | unary op operand => op :: flatten operand
  | binary left op right => flatten left ++ op :: flatten right
  | ternary cond question yes no =>
    flatten cond ++ question :: (flatten yes ++ mark .colon :: flatten no)
  | logical left op right => flatten left ++ op :: flatten right
  | var name _ => [name]
  | assign name _ value => name :: mark .assign :: flatten value
  | call callee paren args =>
    flatten callee ++ mark .leftParen :: (flattenList args ++ [paren])
  | get object name => flatten object ++ [mark .period, name]
  | set object name value =>
    flatten object ++ mark .period :: name :: mark .assign :: flatten value
  | receiver keyword _ => [keyword]

/-- Expressions with commas between them. -/
def flattenList : List (Expr α) → List Token
  | [] => []
  | e :: rest => flatten e ++ flattenMore rest

/-- More expressions, with a comma before each. -/
def flattenMore : List (Expr α) → List Token
  | [] => []
  | e :: rest => mark .comma :: (flatten e ++ flattenMore rest)

end

theorem flattenMore_eq {es : List (Expr α)} (h : es ≠ []) :
    flattenMore es = mark .comma :: flattenList es := by
  cases es with
  | nil => exact absurd rfl h
  | cons e rest => rfl

/-- An expression that may be missing. -/
def flattenOption : Option (Expr α) → List Token
  | none => []
  | some e => flatten e

end Expr

namespace Stmt

/-- The initial value of a variable, which may be missing. -/
def flattenInitial : Option (Expr α) → List Token
  | none => []
  | some e => mark .assign :: e.flatten

/-- The superclass of a class, which may be missing. -/
def flattenSuperclass : Option (Token × α) → List Token
  | none => []
  | some (name, _) => [mark .less, name]

mutual

/-- **A statement written back as tokens.** A `for` loop has to be written out
before. -/
def flatten : Stmt α → List Token
  | block brace body => brace :: (flattenAll body ++ [mark .rightBrace])
  | expr e => e.flatten ++ [mark .semicolon]
  | print keyword value => keyword :: (value.flatten ++ [mark .semicolon])
  | varDecl name initial =>
    mark .varWord :: name :: (flattenInitial initial ++ [mark .semicolon])
  | branch keyword cond yes no =>
    keyword :: mark .leftParen ::
      (cond.flatten ++ mark .rightParen :: (flatten yes ++ flattenElse no))
  | loop keyword cond body =>
    keyword :: mark .leftParen :: (cond.flatten ++ mark .rightParen :: flattenBody body)
  | forLoop _ _ _ _ _ => []
  | function decl => mark .functionWord :: flattenRoutine decl
  | ret keyword value => keyword :: (Expr.flattenOption value ++ [mark .semicolon])
  | classDecl name superclass methods =>
    mark .classWord :: name :: (flattenSuperclass superclass ++
      mark .leftBrace :: (flattenMethods methods ++ [mark .rightBrace]))

/-- Statements in a row. -/
def flattenAll : List (Stmt α) → List Token
  | [] => []
  | s :: rest => flatten s ++ flattenAll rest

/-- The second choice of an `if`, which may be missing. -/
def flattenElse : Option (Stmt α) → List Token
  | none => []
  | some s => mark .elseWord :: flatten s

/-- The body of a loop, which may be missing. -/
def flattenBody : Option (Stmt α) → List Token
  | none => []
  | some s => flatten s

/-- A function from its name on. -/
def flattenRoutine : Routine (Stmt α) → List Token
  | ⟨name, params, body⟩ =>
    name :: mark .leftParen :: (params.intersperse (mark .comma) ++
      mark .rightParen :: mark .leftBrace :: (flattenAll body ++ [mark .rightBrace]))

/-- Methods in a row. -/
def flattenMethods : List (Routine (Stmt α)) → List Token
  | [] => []
  | m :: rest => flattenRoutine m ++ flattenMethods rest

end

theorem flattenRoutine_eq (decl : Routine (Stmt α)) :
    flattenRoutine decl = decl.name :: mark .leftParen ::
      (decl.params.intersperse (mark .comma) ++ mark .rightParen :: mark .leftBrace ::
        (flattenAll decl.body ++ [mark .rightBrace])) := by
  cases decl
  rw [flattenRoutine]

end Stmt

/-! ## Derived trees flatten to their tokens -/

namespace Grammar

section

variable {β : Type} {f : Token → β}

/-- A token put in anew for one of its kind. -/
theorem map_mark {t : Token} {k : Token.Kind} (ht : Overlooks f t) (hkind : t.kind = k)
    (hfixed : k.spelling?.isSome = true) : f (mark k) = f t := by
  subst hkind
  exact ht hfixed

/-- A view of tokens overlooks what is put in anew for some tokens. -/
def OverlooksAll (f : Token → β) (w : List Token) : Prop := ∀ t ∈ w, Overlooks f t

@[simp]
theorem overlooksAll_append {w v : List Token} :
    OverlooksAll f (w ++ v) ↔ OverlooksAll f w ∧ OverlooksAll f v := List.forall_mem_append

@[simp]
theorem overlooksAll_cons {t : Token} {w : List Token} :
    OverlooksAll f (t :: w) ↔ Overlooks f t ∧ OverlooksAll f w := List.forall_mem_cons

theorem flatten_node (t : Parser.Tier) (left right : Expr Unit) (op : Token) :
    (t.node left op right).flatten = left.flatten ++ op :: right.flatten := by
  cases t <;> rfl

theorem Arguments.ne_nil {w : List Token} {es : List (Expr Unit)} (h : Arguments w es) :
    es ≠ [] := by
  cases h <;> exact List.cons_ne_nil _ _

mutual

/-- **A derived expression flattens to its tokens.** -/
theorem Expression.map_flatten {level : Level} {w : List Token} {e : Expr Unit} :
    Expression level w e → OverlooksAll f w → e.flatten.map f = w.map f
  | .assign _ hequals hvalue, hw => by
    simp only [overlooksAll_cons] at hw
    simp only [Expr.flatten, List.map_cons, hvalue.map_flatten hw.2.2,
      map_mark hw.2.1 hequals rfl]
  | .assignField hobject hdot _ hequals hvalue, hw => by
    simp only [overlooksAll_append, overlooksAll_cons] at hw
    simp only [Expr.flatten, List.map_append, List.map_cons, hobject.map_flatten hw.1,
      hvalue.map_flatten hw.2.2.2.2, map_mark hw.2.1 hdot rfl, map_mark hw.2.2.2.1 hequals rfl]
  | .assignNone h, hw => h.map_flatten hw
  | .choice hcond _ hyes hcolon hno, hw => by
    simp only [overlooksAll_append, overlooksAll_cons] at hw
    simp only [Expr.flatten, List.map_append, List.map_cons, hcond.map_flatten hw.1,
      hyes.map_flatten hw.2.2.1, hno.map_flatten hw.2.2.2.2, map_mark hw.2.2.2.1 hcolon rfl]
  | .choiceNone h, hw => h.map_flatten hw
  | .chain hleft _ hright, hw => by
    simp only [overlooksAll_append, overlooksAll_cons] at hw
    simp only [flatten_node, List.map_append, List.map_cons, hleft.map_flatten hw.1,
      hright.map_flatten hw.2.2]
  | .chainNone h, hw => h.map_flatten hw
  | .sign _ h, hw => by
    simp only [overlooksAll_cons] at hw
    simp only [Expr.flatten, List.map_cons, h.map_flatten hw.2]
  | .signNone h, hw => h.map_flatten hw
  | .invoke hcallee hopening _, hw => by
    simp only [overlooksAll_append, overlooksAll_cons] at hw
    simp only [Expr.flatten, Expr.flattenList, List.map_append, List.map_cons, List.nil_append,
      hcallee.map_flatten hw.1, map_mark hw.2.1 hopening rfl]
  | .invokeWith hcallee hopening hargs _ _, hw => by
    simp only [overlooksAll_append, overlooksAll_cons] at hw
    simp only [Expr.flatten, List.map_append, List.map_cons, hcallee.map_flatten hw.1,
      hargs.map_flatten hw.2.2.1, map_mark hw.2.1 hopening rfl]
  | .property hobject hdot _, hw => by
    simp only [overlooksAll_append, overlooksAll_cons] at hw
    simp only [Expr.flatten, List.map_append, List.map_cons, hobject.map_flatten hw.1,
      map_mark hw.2.1 hdot rfl]
  | .callNone h, hw => h.map_flatten hw
  | .constant _, _ => rfl
  | .receiver _, _ => rfl
  | .name _, _ => rfl
  | .grouping _ h hclosing, hw => by
    simp only [overlooksAll_append, overlooksAll_cons] at hw
    simp only [Expr.flatten, List.map_append, List.map_cons, h.map_flatten hw.2.1,
      map_mark hw.2.2.1 hclosing rfl]

/-- The same for expressions with commas between them. -/
theorem Arguments.map_flatten {w : List Token} {es : List (Expr Unit)} :
    Arguments w es → OverlooksAll f w → (Expr.flattenList es).map f = w.map f
  | .one h, hw => by
    simp only [Expr.flattenList, Expr.flattenMore, List.append_nil, h.map_flatten hw]
  | .more h hcomma hes, hw => by
    simp only [overlooksAll_append, overlooksAll_cons] at hw
    simp only [Expr.flattenList, Expr.flattenMore_eq hes.ne_nil, List.map_append, List.map_cons,
      h.map_flatten hw.1, map_mark hw.2.1 hcomma rfl, hes.map_flatten hw.2.2]

end

theorem Optional.map_flatten {w : List Token} {e : Option (Expr Unit)} (h : Optional w e)
    (hw : OverlooksAll f w) : (Expr.flattenOption e).map f = w.map f := by
  cases h with
  | none => rfl
  | some h => exact h.map_flatten hw

theorem Variable.map_flatten {w : List Token} {s : Stmt Unit} (h : Variable w s)
    (hw : OverlooksAll f w) : s.flatten.map f = w.map f := by
  cases h with
  | plain hkeyword _ hsemicolon =>
    simp only [overlooksAll_cons] at hw
    simp only [Stmt.flatten, Stmt.flattenInitial, List.nil_append, List.map_cons, List.map_nil,
      map_mark hw.1 hkeyword rfl, map_mark hw.2.2.1 hsemicolon rfl]
  | initial hkeyword _ hequals h hsemicolon =>
    simp only [overlooksAll_append, overlooksAll_cons] at hw
    simp only [Stmt.flatten, Stmt.flattenInitial, List.cons_append, List.map_append, List.map_cons,
      List.map_nil, h.map_flatten hw.2.2.2.1, map_mark hw.1 hkeyword rfl,
      map_mark hw.2.2.1 hequals rfl, map_mark hw.2.2.2.2.1 hsemicolon rfl]

theorem Effect.map_flatten {w : List Token} {s : Stmt Unit} (h : Effect w s)
    (hw : OverlooksAll f w) : s.flatten.map f = w.map f := by
  cases h with
  | intro h hsemicolon =>
    simp only [overlooksAll_append, overlooksAll_cons] at hw
    simp only [Stmt.flatten, List.map_append, List.map_cons, List.map_nil, h.map_flatten hw.1,
      map_mark hw.2.1 hsemicolon rfl]

theorem Names.ne_nil {w names : List Token} (h : Names w names) : names ≠ [] := by
  cases h <;> exact List.cons_ne_nil _ _

theorem Names.map_flatten {w names : List Token} (h : Names w names) (hw : OverlooksAll f w) :
    (names.intersperse (mark .comma)).map f = w.map f := by
  induction h with
  | one _ => rfl
  | @more name comma w names _ hcomma hnames ih =>
    simp only [overlooksAll_cons] at hw
    have hrest := ih hw.2.2
    cases names with
    | nil => exact absurd rfl hnames.ne_nil
    | cons next names =>
      rw [List.intersperse_cons_cons, List.map_cons, List.map_cons, List.map_cons, List.map_cons,
        hrest, map_mark hw.2.1 hcomma rfl]

theorem Parameters.map_flatten {w params : List Token} (h : Parameters w params)
    (hw : OverlooksAll f w) : (params.intersperse (mark .comma)).map f = w.map f := by
  cases h with
  | none => rfl
  | some h _ => exact h.map_flatten hw

theorem Superclass.map_flatten {w : List Token} {superclass : Option (Token × Unit)}
    (h : Superclass w superclass) (hw : OverlooksAll f w) :
    (Stmt.flattenSuperclass superclass).map f = w.map f := by
  cases h with
  | none => rfl
  | some hless _ =>
    simp only [overlooksAll_cons] at hw
    simp only [Stmt.flattenSuperclass, List.map_cons, map_mark hw.1 hless rfl]

end

/-- No `for` is among some tokens. -/
def ForFree (w : List Token) : Prop := ∀ t ∈ w, t.kind ≠ .forWord

@[simp]
theorem forFree_append {w v : List Token} : ForFree (w ++ v) ↔ ForFree w ∧ ForFree v :=
  List.forall_mem_append

@[simp]
theorem forFree_cons {t : Token} {w : List Token} :
    ForFree (t :: w) ↔ t.kind ≠ .forWord ∧ ForFree w := List.forall_mem_cons

section

variable {β : Type} {f : Token → β}

mutual

/-- **A derived statement flattens to its tokens**, if there is no `for`
among them. -/
theorem Statement.map_flatten {w : List Token} {s : Stmt Unit} :
    Statement w s → ForFree w → OverlooksAll f w → s.flatten.map f = w.map f
  | .effect h, _, hw => h.map_flatten hw
  | .print _ h hsemicolon, _, hw => by
    simp only [overlooksAll_append, overlooksAll_cons] at hw
    simp only [Stmt.flatten, List.map_append, List.map_cons, List.map_nil, h.map_flatten hw.2.1,
      map_mark hw.2.2.1 hsemicolon rfl]
  | .ret _ h hsemicolon, _, hw => by
    simp only [overlooksAll_append, overlooksAll_cons] at hw
    simp only [Stmt.flatten, List.map_append, List.map_cons, List.map_nil, h.map_flatten hw.2.1,
      map_mark hw.2.2.1 hsemicolon rfl]
  | .block _ h, hfor, hw => by
    simp only [overlooksAll_cons, forFree_cons] at hw hfor
    simp only [Stmt.flatten, List.map_cons, h.map_flatten hfor.2 hw.2]
  | .branch _ hopening hcond hclosing hyes, hfor, hw => by
    simp only [overlooksAll_append, overlooksAll_cons, forFree_append, forFree_cons] at hw hfor
    simp only [Stmt.flatten, Stmt.flattenElse, List.append_nil, List.map_append, List.map_cons,
      hcond.map_flatten hw.2.2.1, hyes.map_flatten hfor.2.2.2.2 hw.2.2.2.2,
      map_mark hw.2.1 hopening rfl, map_mark hw.2.2.2.1 hclosing rfl]
  | .branchElse _ hopening hcond hclosing hyes hotherwise hno, hfor, hw => by
    simp only [overlooksAll_append, overlooksAll_cons, forFree_append, forFree_cons] at hw hfor
    simp only [Stmt.flatten, Stmt.flattenElse, List.map_append, List.map_cons,
      hcond.map_flatten hw.2.2.1, hyes.map_flatten hfor.2.2.2.2.1 hw.2.2.2.2.1,
      hno.map_flatten hfor.2.2.2.2.2.2 hw.2.2.2.2.2.2, map_mark hw.2.1 hopening rfl,
      map_mark hw.2.2.2.1 hclosing rfl, map_mark hw.2.2.2.2.2.1 hotherwise rfl]
  | .loop _ hopening hcond hclosing hbody, hfor, hw => by
    simp only [overlooksAll_append, overlooksAll_cons, forFree_append, forFree_cons] at hw hfor
    simp only [Stmt.flatten, Stmt.flattenBody, List.map_append, List.map_cons,
      hcond.map_flatten hw.2.2.1, hbody.map_flatten hfor.2.2.2.2 hw.2.2.2.2,
      map_mark hw.2.1 hopening rfl, map_mark hw.2.2.2.1 hclosing rfl]
  | .forLoop hkeyword _ _, hfor, _ => absurd hkeyword (forFree_cons.1 hfor).1
  | .forEmpty hkeyword _ _, hfor, _ => absurd hkeyword (forFree_cons.1 hfor).1

/-- The same for a declaration. -/
theorem Declaration.map_flatten {w : List Token} {s : Stmt Unit} :
    Declaration w s → ForFree w → OverlooksAll f w → s.flatten.map f = w.map f
  | .statement h, hfor, hw => h.map_flatten hfor hw
  | .varDecl h, _, hw => h.map_flatten hw
  | .function hkeyword h, hfor, hw => by
    simp only [overlooksAll_cons, forFree_cons] at hw hfor
    simp only [Stmt.flatten, List.map_cons, h.map_flatten hfor.2 hw.2, map_mark hw.1 hkeyword rfl]
  | .classDecl hkeyword _ hsuperclass hopening hmethods hclosing, hfor, hw => by
    simp only [overlooksAll_append, overlooksAll_cons, forFree_append, forFree_cons] at hw hfor
    simp only [Stmt.flatten, List.map_append, List.map_cons, List.map_nil,
      hsuperclass.map_flatten hw.2.2.1, hmethods.map_flatten hfor.2.2.2.2.1 hw.2.2.2.2.1,
      map_mark hw.1 hkeyword rfl, map_mark hw.2.2.2.1 hopening rfl,
      map_mark hw.2.2.2.2.2.1 hclosing rfl]

/-- The same for declarations in a row. -/
theorem Declarations.map_flatten {w : List Token} {ss : List (Stmt Unit)} :
    Declarations w ss → ForFree w → OverlooksAll f w → (Stmt.flattenAll ss).map f = w.map f
  | .nil, _, _ => rfl
  | .cons h hrest, hfor, hw => by
    simp only [overlooksAll_append, forFree_append] at hw hfor
    simp only [Stmt.flattenAll, List.map_append, h.map_flatten hfor.1 hw.1,
      hrest.map_flatten hfor.2 hw.2]

/-- The same for a block after its opening brace. -/
theorem Body.map_flatten {w : List Token} {ss : List (Stmt Unit)} :
    Body w ss → ForFree w → OverlooksAll f w →
      (Stmt.flattenAll ss ++ [mark .rightBrace]).map f = w.map f
  | .intro h hclosing, hfor, hw => by
    simp only [overlooksAll_append, overlooksAll_cons, forFree_append] at hw hfor
    simp only [List.map_append, List.map_cons, List.map_nil, h.map_flatten hfor.1 hw.1,
      map_mark hw.2.1 hclosing rfl]

/-- The same for a function from its name on. -/
theorem Method.map_flatten {w : List Token} {decl : Routine (Stmt Unit)} :
    Method w decl → ForFree w → OverlooksAll f w → (Stmt.flattenRoutine decl).map f = w.map f
  | .intro _ hopening hparams hclosing hbrace hbody, hfor, hw => by
    simp only [overlooksAll_append, overlooksAll_cons, forFree_append, forFree_cons] at hw hfor
    rw [Stmt.flattenRoutine_eq, List.map_cons, List.map_cons, List.map_append, List.map_cons,
      List.map_cons, hbody.map_flatten hfor.2.2.2.2.2 hw.2.2.2.2.2, hparams.map_flatten hw.2.2.1,
      map_mark hw.2.1 hopening rfl, map_mark hw.2.2.2.1 hclosing rfl,
      map_mark hw.2.2.2.2.1 hbrace rfl]
    simp only [List.map_append, List.map_cons]

/-- The same for methods in a row. -/
theorem Methods.map_flatten {w : List Token} {ms : List (Routine (Stmt Unit))} :
    Methods w ms → ForFree w → OverlooksAll f w → (Stmt.flattenMethods ms).map f = w.map f
  | .nil, _, _ => rfl
  | .cons h hrest, hfor, hw => by
    simp only [overlooksAll_append, forFree_append] at hw hfor
    simp only [Stmt.flattenMethods, List.map_append, h.map_flatten hfor.1 hw.1,
      hrest.map_flatten hfor.2 hw.2]

end

end

/-! ## Nothing to write out -/

theorem Effect.desugar_eq {w : List Token} {s : Stmt Unit} (h : Effect w s) : s.desugar = s := by
  cases h
  rfl

theorem Variable.desugar_eq {w : List Token} {s : Stmt Unit} (h : Variable w s) :
    s.desugar = s := by
  cases h <;> rfl

mutual

/-- **Where there is no `for`, nothing has to be written out.** -/
theorem Statement.desugar_eq {w : List Token} {s : Stmt Unit} :
    Statement w s → ForFree w → s.desugar = s
  | .effect h, _ => h.desugar_eq
  | .print _ _ _, _ => rfl
  | .ret _ _ _, _ => rfl
  | .block _ h, hfor => by
    rw [Stmt.desugar, h.desugar_eq (forFree_cons.1 hfor).2]
  | .branch _ _ _ _ hyes, hfor => by
    simp only [forFree_append, forFree_cons] at hfor
    rw [Stmt.desugar, hyes.desugar_eq hfor.2.2.2.2]
    rfl
  | .branchElse _ _ _ _ hyes _ hno, hfor => by
    simp only [forFree_append, forFree_cons] at hfor
    rw [Stmt.desugar, hyes.desugar_eq hfor.2.2.2.2.1, Stmt.desugarOption,
      hno.desugar_eq hfor.2.2.2.2.2.2]
  | .loop _ _ _ _ hbody, hfor => by
    simp only [forFree_append, forFree_cons] at hfor
    rw [Stmt.desugar, Stmt.desugarOption, hbody.desugar_eq hfor.2.2.2.2]
  | .forLoop hkeyword _ _, hfor => absurd hkeyword (forFree_cons.1 hfor).1
  | .forEmpty hkeyword _ _, hfor => absurd hkeyword (forFree_cons.1 hfor).1

theorem Declaration.desugar_eq {w : List Token} {s : Stmt Unit} :
    Declaration w s → ForFree w → s.desugar = s
  | .statement h, hfor => h.desugar_eq hfor
  | .varDecl h, _ => h.desugar_eq
  | .function _ h, hfor => by
    rw [Stmt.desugar, h.desugar_eq (forFree_cons.1 hfor).2]
  | .classDecl _ _ _ _ hmethods _, hfor => by
    simp only [forFree_append, forFree_cons] at hfor
    rw [Stmt.desugar, hmethods.desugar_eq hfor.2.2.2.2.1]

theorem Declarations.desugar_eq {w : List Token} {ss : List (Stmt Unit)} :
    Declarations w ss → ForFree w → Stmt.desugarAll ss = ss
  | .nil, _ => rfl
  | .cons h hrest, hfor => by
    rw [Stmt.desugarAll, h.desugar_eq (forFree_append.1 hfor).1,
      hrest.desugar_eq (forFree_append.1 hfor).2]

theorem Body.desugar_eq {w : List Token} {ss : List (Stmt Unit)} :
    Body w ss → ForFree w → Stmt.desugarAll ss = ss
  | .intro h _, hfor => h.desugar_eq (forFree_append.1 hfor).1

theorem Method.desugar_eq {w : List Token} {decl : Routine (Stmt Unit)} :
    Method w decl → ForFree w → Stmt.desugarRoutine decl = decl
  | .intro _ _ _ _ _ hbody, hfor => by
    simp only [forFree_append, forFree_cons] at hfor
    rw [Stmt.desugarRoutine, hbody.desugar_eq hfor.2.2.2.2.2]

theorem Methods.desugar_eq {w : List Token} {ms : List (Routine (Stmt Unit))} :
    Methods w ms → ForFree w → Stmt.desugarMethods ms = ms
  | .nil, _ => rfl
  | .cons h hrest, hfor => by
    rw [Stmt.desugarMethods, h.desugar_eq (forFree_append.1 hfor).1,
      hrest.desugar_eq (forFree_append.1 hfor).2]

end

end Grammar

/-! ## What is read flattens to the tokens -/

namespace Program

/-- **A program that is read without a report flattens to its tokens**, in
any view of them that overlooks what is put in anew. -/
theorem map_flatten_ofTokens {β : Type} {f : Token → β} {tokens : List Token}
    (h : reports tokens = []) (hfor : Grammar.ForFree (ahead tokens))
    (hf : Grammar.OverlooksAll f (ahead tokens)) :
    (Stmt.flattenAll (ofTokens tokens)).map f = (ahead tokens).map f := by
  obtain ⟨hderived, -⟩ := derived_of_read (List.map_eq_nil_iff.1 h)
  rw [ofTokens, hderived.desugar_eq hfor]
  exact hderived.map_flatten hfor hf

end Program

end TanLang
