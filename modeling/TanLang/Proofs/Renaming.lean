import Mathlib.Data.List.Forall2
import TanLang.Program.Outline
import TanLang.Proofs.Scoping.Order
/-!
# Renaming — a local name replaced by another

A renaming replaces one name by another in some of the local scopes of a
program: where such a scope declares the name as a variable or a parameter,
the declaration is respelled, and with it **every use that resolution has
bound to the declaration, and no other**. Which use is bound to which scope
is read off the distances, so `Stmt.rename` works on resolved trees.

Two trees that only differ in how names are spelled are related by
`Stmt.Varies`. What may differ, and where, is a parameter: after a renaming
it is one name in certain scopes, for the parser it is any name anywhere.
-/

namespace TanLang

/-! ## Tables with other keys -/

namespace Table

variable {α : Type} {f : Text → Text}

/-- The table with its values under other names. -/
def rekey (f : Text → Text) (t : Table α) : Table α := ⟨t.entries.map fun e => (f e.1, e.2)⟩

theorem rekey_id (t : Table α) : t.rekey id = t := by
  simp [rekey]

theorem find?_rekey (hf : ∀ x y, f x = f y → x = y) (t : Table α) (x : Text) :
    (t.rekey f).find? (f x) = t.find? x := by
  obtain ⟨entries⟩ := t
  simp only [rekey, find?]
  induction entries with
  | nil => rfl
  | cons e rest ih =>
    by_cases he : e.1 = x
    · simp [findIn, he]
    · have hne : f e.1 ≠ f x := fun h => he (hf _ _ h)
      simp [findIn, he, hne, ih]

theorem rekey_insert (hf : ∀ x y, f x = f y → x = y) (t : Table α) (x : Text) (v : α) :
    (t.insert x v).rekey f = (t.rekey f).insert (f x) v := by
  obtain ⟨entries⟩ := t
  simp only [rekey, insert, mk.injEq]
  induction entries with
  | nil => rfl
  | cons e rest ih =>
    by_cases he : e.1 = x
    · simp [putIn, he]
    · have hne : f e.1 ≠ f x := fun h => he (hf _ _ h)
      simp [putIn, he, hne, ih]

end Table

/-! ## Renamings -/

/-- A name, and the one that takes its place. -/
structure Renaming where
  /-- The name that is replaced. -/
  old : Text
  /-- The name that replaces it. -/
  new : Text

namespace Renaming

variable (r : Renaming)

/-- What becomes of a name. -/
def apply (x : Text) : Text := if x = r.old then r.new else x

/-- What becomes of a token, if the renaming is for the scope its name
belongs to. -/
def token (here : Bool) (t : Token) : Token :=
  if here then { t with lexeme := r.apply t.lexeme } else t

/-- Whether the renaming is for the scope at an address, given for which of
the scopes around it is; it never is for the globals. -/
def isFor (around : List Bool) : Address → Bool
  | none => false
  | some d => around.getD d false

/-- Both names trade places. Where the new one does not occur this is the
renaming, and it can be undone. -/
def swap (here : Bool) (x : Text) : Text :=
  if here then if x = r.old then r.new else if x = r.new then r.old else x else x

variable {r} {here : Bool} {x : Text}

@[simp]
theorem swap_false : r.swap false x = x := rfl

theorem swap_of_ne (h : here = true → x ≠ r.old ∧ x ≠ r.new) : r.swap here x = x := by
  cases here with
  | false => rfl
  | true => simp [swap, (h rfl).1, (h rfl).2]

@[simp]
theorem swap_swap : r.swap here (r.swap here x) = x := by
  cases here with
  | false => rfl
  | true =>
    by_cases hold : x = r.old
    · by_cases hsame : r.new = r.old <;> simp [swap, hold, hsame]
    · by_cases hnew : x = r.new
      · simp [swap, hnew]
      · simp [swap, hold, hnew]

theorem swap_injective (here : Bool) : ∀ x y, r.swap here x = r.swap here y → x = y := by
  intro x y h
  have hback := congrArg (r.swap here) h
  rwa [swap_swap, swap_swap] at hback

/-- A token that a renaming may respell: the new name does not occur in the
scopes the renaming is for. -/
structure Respells (r : Renaming) (here : Bool) (t t' : Token) : Prop where
  fresh : here = true → t.lexeme ≠ r.new
  eq : t' = r.token here t

theorem Respells.lexeme {t t' : Token} (h : r.Respells here t t') :
    t'.lexeme = r.swap here t.lexeme := by
  rw [h.eq]
  cases here with
  | false => rfl
  | true => simp [token, apply, swap, h.fresh rfl]

theorem Respells.refl (t : Token) : r.Respells false t t := ⟨nofun, rfl⟩

/-- **A token that is respelled, or left alone.** -/
def Respelled (r : Renaming) (t t' : Token) : Prop :=
  t' = t ∨ t.lexeme = r.old ∧ t' = { t with lexeme := r.new }

theorem respelled_token (here : Bool) (t : Token) : r.Respelled t (r.token here t) := by
  unfold token apply
  by_cases hhere : here = true
  · by_cases hold : t.lexeme = r.old
    · exact .inr ⟨hold, by rw [if_pos hhere, if_pos hold]⟩
    · exact .inl (by rw [if_pos hhere, if_neg hold])
  · exact .inl (if_neg hhere)

theorem Respells.respelled {t t' : Token} (h : r.Respells here t t') : r.Respelled t t' := by
  rw [h.eq]
  exact respelled_token here t

end Renaming

/-! ## Trees that differ in names -/

/-- **What two trees may differ in.** The scopes around a place are known by
whether they are marked. -/
structure Variation (α β : Type) where
  /-- How a name that is used may be spelled and marked in the two trees. -/
  use : List Bool → Token → α → Token → β → Prop
  /-- How a `this` may be marked in the two trees. -/
  receiver : List Bool → Token → α → β → Prop
  /-- How a variable or a parameter may be spelled in the two trees, by
  whether the scope that declares it is marked. -/
  declared : Bool → Token → Token → Prop
  /-- What is asked of the name of a function or a class, which is spelled
  the same in both. -/
  named : Bool → Token → Prop

variable {α β : Type}

namespace Expr

mutual

/-- Two expressions that differ in names only. -/
inductive Varies (V : Variation α β) (around : List Bool) : Expr α → Expr β → Prop where
  | literal (token : Token) (value : Literal) :
      Varies V around (.literal token value) (.literal token value)
  | grouping {inner : Expr α} {inner' : Expr β} (paren : Token) (h : Varies V around inner inner') :
      Varies V around (.grouping paren inner) (.grouping paren inner')
  | unary {operand : Expr α} {operand' : Expr β} (op : Token)
      (h : Varies V around operand operand') :
      Varies V around (.unary op operand) (.unary op operand')
  | binary {left right : Expr α} {left' right' : Expr β} (op : Token)
      (hleft : Varies V around left left') (hright : Varies V around right right') :
      Varies V around (.binary left op right) (.binary left' op right')
  | ternary {cond yes no : Expr α} {cond' yes' no' : Expr β} (mark : Token)
      (hcond : Varies V around cond cond') (hyes : Varies V around yes yes')
      (hno : Varies V around no no') :
      Varies V around (.ternary cond mark yes no) (.ternary cond' mark yes' no')
  | logical {left right : Expr α} {left' right' : Expr β} (op : Token)
      (hleft : Varies V around left left') (hright : Varies V around right right') :
      Varies V around (.logical left op right) (.logical left' op right')
  | var {name name' : Token} {a : α} {a' : β} (h : V.use around name a name' a') :
      Varies V around (.var name a) (.var name' a')
  | assign {name name' : Token} {a : α} {a' : β} {value : Expr α} {value' : Expr β}
      (h : V.use around name a name' a') (hvalue : Varies V around value value') :
      Varies V around (.assign name a value) (.assign name' a' value')
  | call {callee : Expr α} {callee' : Expr β} {args : List (Expr α)} {args' : List (Expr β)}
      (paren : Token) (hcallee : Varies V around callee callee')
      (hargs : VariesAll V around args args') :
      Varies V around (.call callee paren args) (.call callee' paren args')
  | get {object : Expr α} {object' : Expr β} (name : Token) (h : Varies V around object object') :
      Varies V around (.get object name) (.get object' name)
  | set {object value : Expr α} {object' value' : Expr β} (name : Token)
      (hobject : Varies V around object object') (hvalue : Varies V around value value') :
      Varies V around (.set object name value) (.set object' name value')
  | receiver {a : α} {a' : β} {keyword : Token} (h : V.receiver around keyword a a') :
      Varies V around (.receiver keyword a) (.receiver keyword a')

/-- The same for expressions in a row. -/
inductive VariesAll (V : Variation α β) (around : List Bool) :
    List (Expr α) → List (Expr β) → Prop where
  | nil : VariesAll V around [] []
  | cons {e : Expr α} {e' : Expr β} {rest : List (Expr α)} {rest' : List (Expr β)}
      (h : Varies V around e e') (hrest : VariesAll V around rest rest') :
      VariesAll V around (e :: rest) (e' :: rest')

end

/-- The same for an expression that may be missing. -/
inductive VariesOption (V : Variation α β) (around : List Bool) :
    Option (Expr α) → Option (Expr β) → Prop where
  | none : VariesOption V around none none
  | some {e : Expr α} {e' : Expr β} (h : Varies V around e e') :
      VariesOption V around (some e) (some e')

end Expr

namespace Stmt

/-- The same for a superclass that may be missing. -/
inductive SuperclassVaries (V : Variation α β) (around : List Bool) :
    Option (Token × α) → Option (Token × β) → Prop where
  | none : SuperclassVaries V around none none
  | some {name name' : Token} {a : α} {a' : β} (h : V.use around name a name' a') :
      SuperclassVaries V around (some (name, a)) (some (name', a'))

mutual

/-- **Two statements that differ in names only.** A scope inside may be
marked or not; there are no `for` loops left. -/
inductive Varies (V : Variation α β) : List Bool → Stmt α → Stmt β → Prop where
  | block {around : List Bool} {body : List (Stmt α)} {body' : List (Stmt β)} (here : Bool)
      (brace : Token) (h : VariesAll V (here :: around) body body') :
      Varies V around (.block brace body) (.block brace body')
  | expr {around : List Bool} {e : Expr α} {e' : Expr β} (h : e.Varies V around e') :
      Varies V around (.expr e) (.expr e')
  | print {around : List Bool} {value : Expr α} {value' : Expr β} (keyword : Token)
      (h : value.Varies V around value') :
      Varies V around (.print keyword value) (.print keyword value')
  | varDecl {around : List Bool} {name name' : Token} {initial : Option (Expr α)}
      {initial' : Option (Expr β)} (hname : V.declared (around.headD false) name name')
      (h : Expr.VariesOption V around initial initial') :
      Varies V around (.varDecl name initial) (.varDecl name' initial')
  | branch {around : List Bool} {cond : Expr α} {cond' : Expr β} {yes : Stmt α} {yes' : Stmt β}
      {no : Option (Stmt α)} {no' : Option (Stmt β)} (keyword : Token)
      (hcond : cond.Varies V around cond') (hyes : Varies V around yes yes')
      (hno : VariesOption V around no no') :
      Varies V around (.branch keyword cond yes no) (.branch keyword cond' yes' no')
  | loop {around : List Bool} {cond : Expr α} {cond' : Expr β} {body : Option (Stmt α)}
      {body' : Option (Stmt β)} (keyword : Token) (hcond : cond.Varies V around cond')
      (hbody : VariesOption V around body body') :
      Varies V around (.loop keyword cond body) (.loop keyword cond' body')
  | function {around : List Bool} {decl : Routine (Stmt α)} {decl' : Routine (Stmt β)}
      (hname : V.named (around.headD false) decl.name) (h : RoutineVaries V around decl decl') :
      Varies V around (.function decl) (.function decl')
  | ret {around : List Bool} {value : Option (Expr α)} {value' : Option (Expr β)}
      (keyword : Token) (h : Expr.VariesOption V around value value') :
      Varies V around (.ret keyword value) (.ret keyword value')
  | classDecl {around : List Bool} {name : Token} {superclass : Option (Token × α)}
      {superclass' : Option (Token × β)} {methods : List (Routine (Stmt α))}
      {methods' : List (Routine (Stmt β))} (hname : V.named (around.headD false) name)
      (hsuperclass : SuperclassVaries V around superclass superclass')
      (hmethods : MethodsVary V (false :: around) methods methods') :
      Varies V around (.classDecl name superclass methods) (.classDecl name superclass' methods')

/-- The same for statements in a row. -/
inductive VariesAll (V : Variation α β) : List Bool → List (Stmt α) → List (Stmt β) → Prop where
  | nil {around : List Bool} : VariesAll V around [] []
  | cons {around : List Bool} {s : Stmt α} {s' : Stmt β} {rest : List (Stmt α)}
      {rest' : List (Stmt β)} (h : Varies V around s s') (hrest : VariesAll V around rest rest') :
      VariesAll V around (s :: rest) (s' :: rest')

/-- The same for a statement that may be missing. -/
inductive VariesOption (V : Variation α β) :
    List Bool → Option (Stmt α) → Option (Stmt β) → Prop where
  | none {around : List Bool} : VariesOption V around none none
  | some {around : List Bool} {s : Stmt α} {s' : Stmt β} (h : Varies V around s s') :
      VariesOption V around (some s) (some s')

/-- The same for a function, whose parameters and body share a scope. -/
inductive RoutineVaries (V : Variation α β) :
    List Bool → Routine (Stmt α) → Routine (Stmt β) → Prop where
  | intro {around : List Bool} {params params' : List Token} {body : List (Stmt α)}
      {body' : List (Stmt β)} (here : Bool) (name : Token)
      (hparams : List.Forall₂ (V.declared here) params params')
      (hbody : VariesAll V (here :: around) body body') :
      RoutineVaries V around ⟨name, params, body⟩ ⟨name, params', body'⟩

/-- The same for the methods of a class. -/
inductive MethodsVary (V : Variation α β) :
    List Bool → List (Routine (Stmt α)) → List (Routine (Stmt β)) → Prop where
  | nil {around : List Bool} : MethodsVary V around [] []
  | cons {around : List Bool} {m : Routine (Stmt α)} {m' : Routine (Stmt β)}
      {rest : List (Routine (Stmt α))} {rest' : List (Routine (Stmt β))}
      (h : RoutineVaries V around m m') (hrest : MethodsVary V around rest rest') :
      MethodsVary V around (m :: rest) (m' :: rest')

end

theorem RoutineVaries.name_eq {V : Variation α β} {around : List Bool} {decl : Routine (Stmt α)}
    {decl' : Routine (Stmt β)} (h : RoutineVaries V around decl decl') :
    decl'.name = decl.name := by
  cases h
  rfl

theorem RoutineVaries.length_params {V : Variation α β} {around : List Bool}
    {decl : Routine (Stmt α)} {decl' : Routine (Stmt β)} (h : RoutineVaries V around decl decl') :
    decl'.params.length = decl.params.length := by
  cases h with
  | intro _ _ hparams => exact hparams.length_eq.symm

end Stmt

/-! ## What a renaming changes -/

/-- **What a renaming may change**: in the scopes it is for, how variables
and parameters and the uses bound to them are spelled. No function or class
in such a scope has either name. -/
def Renaming.variation (r : Renaming) : Variation Address Address where
  use around name a name' a' := a' = a ∧ r.Respells (isFor around a) name name'
  receiver around keyword a a' :=
    a' = a ∧ (isFor around a = true → keyword.lexeme ≠ r.old ∧ keyword.lexeme ≠ r.new)
  declared := r.Respells
  named here name := here = true → name.lexeme ≠ r.old ∧ name.lexeme ≠ r.new

/-- What a renaming may change as the parser sees it: how names are spelled,
wherever they stand. -/
def Renaming.respelling (r : Renaming) : Variation Unit Unit where
  use _ name _ name' _ := r.Respelled name name'
  receiver _ _ _ _ := True
  declared _ := r.Respelled
  named _ _ := True

namespace Expr

variable (r : Renaming) (around : List Bool)

mutual

/-- The expression after a renaming, given for which of the scopes around
the renaming is. -/
def rename : Expr Address → Expr Address
  | literal token value => .literal token value
  | grouping paren inner => .grouping paren (rename inner)
  | unary op operand => .unary op (rename operand)
  | binary left op right => .binary (rename left) op (rename right)
  | ternary cond mark yes no => .ternary (rename cond) mark (rename yes) (rename no)
  | logical left op right => .logical (rename left) op (rename right)
  | var name a => .var (r.token (Renaming.isFor around a) name) a
  | assign name a value => .assign (r.token (Renaming.isFor around a) name) a (rename value)
  | call callee paren args => .call (rename callee) paren (renameAll args)
  | get object name => .get (rename object) name
  | set object name value => .set (rename object) name (rename value)
  | receiver keyword a => .receiver keyword a

/-- The same for expressions in a row. -/
def renameAll : List (Expr Address) → List (Expr Address)
  | [] => []
  | e :: rest => rename e :: renameAll rest

end

end Expr

namespace Stmt

/-- The name of a variable that a statement declares. -/
def varName? : Stmt α → Option Token
  | varDecl name _ => some name
  | _ => none

/-- **Whether a scope declares a name as a variable or a parameter.** -/
def declaresVariable (x : Text) (params : List Token) (body : List (Stmt α)) : Bool :=
  (params ++ body.filterMap varName?).any fun name => name.lexeme == x

mutual

/-- The number of blocks and functions in a statement, each of which makes a
scope. -/
def scopes : Stmt α → Nat
  | block _ body => scopesAll body + 1
  | branch _ _ yes no => scopes yes + scopesOption no
  | loop _ _ body => scopesOption body
  | forLoop _ initial _ _ body => scopesOption initial + scopesOption body
  | function decl => scopesRoutine decl
  | classDecl _ _ methods => scopesMethods methods
  | expr _ => 0
  | print _ _ => 0
  | varDecl _ _ => 0
  | ret _ _ => 0

/-- The same for statements in a row. -/
def scopesAll : List (Stmt α) → Nat
  | [] => 0
  | s :: rest => scopes s + scopesAll rest

/-- The same for a statement that may be missing. -/
def scopesOption : Option (Stmt α) → Nat
  | none => 0
  | some s => scopes s

/-- The same for a function. -/
def scopesRoutine : Routine (Stmt α) → Nat
  | ⟨_, _, body⟩ => scopesAll body + 1

/-- The same for the methods of a class. -/
def scopesMethods : List (Routine (Stmt α)) → Nat
  | [] => 0
  | m :: rest => scopesRoutine m + scopesMethods rest

end

section

variable (r : Renaming) (chosen : Nat → Bool)

mutual

/-- **The statement after a renaming in the chosen scopes.** Blocks and
functions are numbered from `n` on, in the order they are opened in. A scope
is renamed in if it is chosen and declares the old name as a variable or a
parameter. -/
def rename (around : List Bool) (n : Nat) : Stmt Address → Stmt Address
  | block brace body =>
    .block brace
      (renameAll ((chosen n && declaresVariable r.old [] body) :: around) (n + 1) body)
  | expr e => .expr (e.rename r around)
  | print keyword value => .print keyword (value.rename r around)
  | varDecl name initial =>
    .varDecl (r.token (around.headD false) name) (initial.map (Expr.rename r around))
  | branch keyword cond yes no =>
    .branch keyword (cond.rename r around) (rename around n yes)
      (renameOption around (n + scopes yes) no)
  | loop keyword cond body => .loop keyword (cond.rename r around) (renameOption around n body)
  | forLoop keyword initial cond step body => .forLoop keyword initial cond step body
  | function decl => .function (renameRoutine around n decl)
  | ret keyword value => .ret keyword (value.map (Expr.rename r around))
  | classDecl name superclass methods =>
    .classDecl name (superclass.map fun s => (r.token (Renaming.isFor around s.2) s.1, s.2))
      (renameMethods (false :: around) n methods)

/-- The same for statements in a row. -/
def renameAll (around : List Bool) (n : Nat) : List (Stmt Address) → List (Stmt Address)
  | [] => []
  | s :: rest => rename around n s :: renameAll around (n + scopes s) rest

/-- The same for a statement that may be missing. -/
def renameOption (around : List Bool) (n : Nat) : Option (Stmt Address) → Option (Stmt Address)
  | none => none
  | some s => some (rename around n s)

/-- The same for a function. -/
def renameRoutine (around : List Bool) (n : Nat) : Routine (Stmt Address) → Routine (Stmt Address)
  | ⟨name, params, body⟩ =>
    let here := chosen n && declaresVariable r.old params body
    ⟨name, params.map (r.token here), renameAll (here :: around) (n + 1) body⟩

/-- The same for the methods of a class, which are one scope further in. -/
def renameMethods (around : List Bool) (n : Nat) :
    List (Routine (Stmt Address)) → List (Routine (Stmt Address))
  | [] => []
  | m :: rest => renameRoutine around n m :: renameMethods around (n + scopesRoutine m) rest

end

end

end Stmt

/-- **A resolved program after a renaming in the chosen ones of its local
scopes**, which are numbered in the order they are opened in. -/
def Program.rename (r : Renaming) (chosen : Nat → Bool) (p : Program Address) : Program Address :=
  Stmt.renameAll r chosen [] 0 p

/-! ## Code that a renaming is not for -/

namespace Renaming

/-- No scope around is one that the renaming is for. -/
def Elsewhere (around : List Bool) : Prop := ∀ here ∈ around, here = false

variable {r : Renaming} {around : List Bool}

theorem Elsewhere.isFor (h : Elsewhere around) (a : Address) : Renaming.isFor around a = false := by
  cases a with
  | none => rfl
  | some d =>
    show around.getD d false = false
    rw [List.getD_eq_getElem?_getD]
    cases hd : around[d]? with
    | none => rfl
    | some here => exact h here (List.mem_of_getElem? hd)

theorem Elsewhere.headD (h : Elsewhere around) : around.headD false = false := by
  cases around with
  | nil => rfl
  | cons here _ => exact h here List.mem_cons_self

theorem Elsewhere.cons (h : Elsewhere around) : Elsewhere (false :: around) :=
  List.forall_mem_cons.2 ⟨rfl, h⟩

theorem Elsewhere.use (h : Elsewhere around) (name : Token) (a : Address) :
    r.variation.use around name a name a := by
  refine ⟨rfl, ?_⟩
  rw [h.isFor]
  exact .refl name

theorem Elsewhere.declared (h : Elsewhere around) (name : Token) :
    r.variation.declared (around.headD false) name name := by
  rw [h.headD]
  exact .refl name

theorem Elsewhere.named (h : Elsewhere around) (name : Token) :
    r.variation.named (around.headD false) name := by
  rw [h.headD]
  nofun

end Renaming

namespace Expr

variable {r : Renaming} {around : List Bool}

mutual

/-- **An expression in no scope that a renaming is for varies with itself.** -/
theorem Varies.refl (h : Renaming.Elsewhere around) : ∀ e : Expr Address,
    e.Varies r.variation around e
  | literal token value => .literal token value
  | grouping paren inner => .grouping paren (Varies.refl h inner)
  | unary op operand => .unary op (Varies.refl h operand)
  | binary left op right => .binary op (Varies.refl h left) (Varies.refl h right)
  | ternary cond mark yes no =>
    .ternary mark (Varies.refl h cond) (Varies.refl h yes) (Varies.refl h no)
  | logical left op right => .logical op (Varies.refl h left) (Varies.refl h right)
  | var name a => .var (h.use name a)
  | assign name a value => .assign (h.use name a) (Varies.refl h value)
  | call callee paren args => .call paren (Varies.refl h callee) (VariesAll.refl h args)
  | get object name => .get name (Varies.refl h object)
  | set object name value => .set name (Varies.refl h object) (Varies.refl h value)
  | receiver keyword a => .receiver ⟨rfl, fun hfor => by rw [h.isFor] at hfor; cases hfor⟩

theorem VariesAll.refl (h : Renaming.Elsewhere around) : ∀ es : List (Expr Address),
    VariesAll r.variation around es es
  | [] => .nil
  | e :: rest => .cons (Varies.refl h e) (VariesAll.refl h rest)

end

theorem VariesOption.refl (h : Renaming.Elsewhere around) (e : Option (Expr Address)) :
    VariesOption r.variation around e e := by
  cases e with
  | none => exact .none
  | some e => exact .some (.refl h e)

end Expr

namespace Stmt

open Scoping

variable {r : Renaming} {strict : Prop}

mutual

/-- **Code in no scope that a renaming is for varies with itself**; code
that fits anywhere has no `for` loops left. -/
theorem Varies.refl : ∀ (s : Stmt Address) {Γ : Context} {around : List Bool},
    Renaming.Elsewhere around → StmtFits strict Γ s → s.Varies r.variation around s
  | block brace body, _, _, h, ⟨_, hbody⟩ => .block false brace (VariesAll.refl body h.cons hbody)
  | expr e, _, _, h, _ => .expr (.refl h e)
  | print keyword value, _, _, h, _ => .print keyword (.refl h value)
  | varDecl name initial, _, _, h, _ => .varDecl (h.declared name) (.refl h initial)
  | branch keyword cond yes no, _, _, h, ⟨_, ⟨_, hyes⟩, hno⟩ =>
    .branch keyword (.refl h cond) (Varies.refl yes h hyes) (VariesOption.refl no h hno)
  | loop keyword cond body, _, _, h, ⟨_, hbody⟩ =>
    .loop keyword (.refl h cond) (VariesOption.refl body h hbody)
  | forLoop _ _ _ _ _, _, _, _, hfits => nomatch hfits
  | function decl, _, _, h, ⟨_, hdecl⟩ => .function (h.named _) (RoutineVaries.refl decl h hdecl)
  | ret keyword value, _, _, h, _ => .ret keyword (.refl h value)
  | classDecl name superclass methods, _, _, h, ⟨_, _, hmethods⟩ => by
    refine .classDecl (h.named name) ?_ (MethodsVary.refl methods h.cons hmethods)
    cases superclass with
    | none => exact .none
    | some named => exact .some (h.use named.1 named.2)

theorem VariesAll.refl : ∀ (ss : List (Stmt Address)) {Γ : Context} {around : List Bool},
    Renaming.Elsewhere around → BodyFits strict Γ ss → VariesAll r.variation around ss ss
  | [], _, _, _, _ => .nil
  | s :: rest, _, _, h, ⟨hs, hrest⟩ => .cons (Varies.refl s h hs) (VariesAll.refl rest h hrest)

theorem VariesOption.refl : ∀ (s : Option (Stmt Address)) {Γ : Context} {around : List Bool},
    Renaming.Elsewhere around → StmtOptionFits strict Γ s → VariesOption r.variation around s s
  | none, _, _, _, _ => .none
  | some s, _, _, h, ⟨_, hs⟩ => .some (Varies.refl s h hs)

theorem RoutineVaries.refl : ∀ (decl : Routine (Stmt Address)) {Γ : Context}
    {around : List Bool}, Renaming.Elsewhere around → RoutineFits strict Γ decl →
      RoutineVaries r.variation around decl decl
  | ⟨name, _, body⟩, _, _, h, ⟨_, _, hbody⟩ =>
    .intro false name (List.forall₂_same.2 fun p _ => .refl p) (VariesAll.refl body h.cons hbody)

theorem MethodsVary.refl : ∀ (ms : List (Routine (Stmt Address))) {Γ : Context}
    {around : List Bool}, Renaming.Elsewhere around → MethodsFit strict Γ ms →
      MethodsVary r.variation around ms ms
  | [], _, _, _, _ => .nil
  | m :: rest, _, _, h, ⟨hm, hrest⟩ =>
    .cons (RoutineVaries.refl m h hm) (MethodsVary.refl rest h hrest)

end

end Stmt

/-! ## The distances -/

/-- **The same uses of names, with the same distances**; how they are
spelled may differ. -/
def Renaming.SameUses (r : Renaming) : List (Token × Address) → List (Token × Address) → Prop :=
  List.Forall₂ fun u u' => u'.2 = u.2 ∧ r.Respelled u.1 u'.1

/-- The uses of names among nodes are the same. -/
def Renaming.NodesVary (r : Renaming) (ns ns' : List (Node Address)) : Prop :=
  r.SameUses (ns.filterMap Node.use?) (ns'.filterMap Node.use?)

namespace Renaming.NodesVary

variable {r : Renaming} {n n' : Node Address} {ns ns' : List (Node Address)} {around : List Bool}

/-- Nodes that are no uses of names. -/
theorem skip (h : r.NodesVary ns ns') (hn : n.use? = none) (hn' : n'.use? = none) :
    r.NodesVary (n :: ns) (n' :: ns') := by
  unfold NodesVary
  rwa [List.filterMap_cons_none hn, List.filterMap_cons_none hn']

theorem use (h : r.NodesVary ns ns') {name name' : Token} {a a' : Address}
    (hn : n.use? = some (name, a)) (hn' : n'.use? = some (name', a'))
    (huse : r.variation.use around name a name' a') : r.NodesVary (n :: ns) (n' :: ns') := by
  unfold NodesVary
  rw [List.filterMap_cons_some hn, List.filterMap_cons_some hn']
  exact .cons ⟨huse.1, huse.2.respelled⟩ h

theorem receiver (h : r.NodesVary ns ns') {keyword : Token} {a a' : Address}
    (hkeyword : r.variation.receiver around keyword a a') :
    r.NodesVary (.expr (.receiver keyword a) :: ns) (.expr (.receiver keyword a') :: ns') :=
  .cons ⟨hkeyword.1, .inl rfl⟩ h

end Renaming.NodesVary

namespace Expr

variable {r : Renaming} {around : List Bool}

mutual

theorem Varies.nodes : ∀ {e e' : Expr Address} {ns ns' : List (Node Address)},
    r.NodesVary ns ns' → e.Varies r.variation around e' → r.NodesVary (e.list ns) (e'.list ns')
  | literal .., _, _, _, h, hvaries => by
    cases hvaries
    exact h.skip rfl rfl
  | grouping _ inner, _, _, _, h, hvaries => by
    cases hvaries with
    | grouping _ hinner => exact (hinner.nodes h).skip rfl rfl
  | unary _ operand, _, _, _, h, hvaries => by
    cases hvaries with
    | unary _ hoperand => exact (hoperand.nodes h).skip rfl rfl
  | binary left _ right, _, _, _, h, hvaries => by
    cases hvaries with
    | binary _ hleft hright => exact (hleft.nodes (hright.nodes h)).skip rfl rfl
  | ternary cond _ yes no, _, _, _, h, hvaries => by
    cases hvaries with
    | ternary _ hcond hyes hno => exact (hcond.nodes (hyes.nodes (hno.nodes h))).skip rfl rfl
  | logical left _ right, _, _, _, h, hvaries => by
    cases hvaries with
    | logical _ hleft hright => exact (hleft.nodes (hright.nodes h)).skip rfl rfl
  | var .., _, _, _, h, hvaries => by
    cases hvaries with
    | var huse => exact h.use rfl rfl huse
  | assign _ _ value, _, _, _, h, hvaries => by
    cases hvaries with
    | assign huse hvalue => exact (hvalue.nodes h).use rfl rfl huse
  | call callee _ args, _, _, _, h, hvaries => by
    cases hvaries with
    | call _ hcallee hargs => exact (hcallee.nodes (hargs.nodes h)).skip rfl rfl
  | get object _, _, _, _, h, hvaries => by
    cases hvaries with
    | get _ hobject => exact (hobject.nodes h).skip rfl rfl
  | set object _ value, _, _, _, h, hvaries => by
    cases hvaries with
    | set _ hobject hvalue => exact (hobject.nodes (hvalue.nodes h)).skip rfl rfl
  | receiver .., _, _, _, h, hvaries => by
    cases hvaries with
    | receiver hkeyword => exact h.receiver hkeyword

theorem VariesAll.nodes : ∀ {es es' : List (Expr Address)} {ns ns' : List (Node Address)},
    r.NodesVary ns ns' → VariesAll r.variation around es es' →
    r.NodesVary (listAll es ns) (listAll es' ns')
  | [], _, _, _, h, hvaries => by
    cases hvaries
    exact h
  | e :: rest, _, _, _, h, hvaries => by
    cases hvaries with
    | cons he hrest => exact he.nodes (hrest.nodes h)

end

theorem VariesOption.nodes {e e' : Option (Expr Address)} {ns ns' : List (Node Address)}
    (h : r.NodesVary ns ns') (hvaries : VariesOption r.variation around e e') :
    r.NodesVary (listOption e ns) (listOption e' ns') := by
  cases hvaries with
  | none => exact h
  | some he => exact he.nodes h

end Expr

namespace Stmt

variable {r : Renaming}

mutual

theorem Varies.nodes : ∀ {s s' : Stmt Address} {around : List Bool} {ns ns' : List (Node Address)},
    r.NodesVary ns ns' → s.Varies r.variation around s' → r.NodesVary (s.list ns) (s'.list ns')
  | block _ body, _, _, _, _, h, hvaries => by
    cases hvaries with
    | block _ _ hbody => exact (hbody.nodes h).skip rfl rfl
  | expr _, _, _, _, _, h, hvaries => by
    cases hvaries with
    | expr he => exact (he.nodes h).skip rfl rfl
  | print .., _, _, _, _, h, hvaries => by
    cases hvaries with
    | print _ hvalue => exact (hvalue.nodes h).skip rfl rfl
  | varDecl .., _, _, _, _, h, hvaries => by
    cases hvaries with
    | varDecl _ hinitial => exact (hinitial.nodes h).skip rfl rfl
  | branch _ _ yes no, _, _, _, _, h, hvaries => by
    cases hvaries with
    | branch _ hcond hyes hno => exact (hcond.nodes (hyes.nodes (hno.nodes h))).skip rfl rfl
  | loop _ _ body, _, _, _, _, h, hvaries => by
    cases hvaries with
    | loop _ hcond hbody => exact (hcond.nodes (hbody.nodes h)).skip rfl rfl
  | forLoop .., _, _, _, _, _, hvaries => nomatch hvaries
  | function decl, _, _, _, _, h, hvaries => by
    cases hvaries with
    | function _ hdecl => exact (hdecl.nodes h).skip rfl rfl
  | ret .., _, _, _, _, h, hvaries => by
    cases hvaries with
    | ret _ hvalue => exact (hvalue.nodes h).skip rfl rfl
  | classDecl _ _ methods, _, _, _, _, h, hvaries => by
    cases hvaries with
    | classDecl _ hsuperclass hmethods =>
      cases hsuperclass with
      | none => exact (hmethods.nodes h).skip rfl rfl
      | some huse =>
        have hused : r.NodesVary (.expr (.var _ _) :: _) (.expr (.var _ _) :: _) :=
          (hmethods.nodes h).use rfl rfl huse
        exact hused.skip rfl rfl
termination_by structural s => s

theorem VariesAll.nodes : ∀ {ss ss' : List (Stmt Address)} {around : List Bool}
    {ns ns' : List (Node Address)}, r.NodesVary ns ns' → VariesAll r.variation around ss ss' →
    r.NodesVary (listAll ss ns) (listAll ss' ns')
  | [], _, _, _, _, h, hvaries => by
    cases hvaries
    exact h
  | s :: rest, _, _, _, _, h, hvaries => by
    cases hvaries with
    | cons hs hrest => exact hs.nodes (hrest.nodes h)
termination_by structural ss => ss

theorem VariesOption.nodes : ∀ {s s' : Option (Stmt Address)} {around : List Bool}
    {ns ns' : List (Node Address)}, r.NodesVary ns ns' → VariesOption r.variation around s s' →
    r.NodesVary (listOption s ns) (listOption s' ns')
  | none, _, _, _, _, h, hvaries => by
    cases hvaries
    exact h
  | some s, _, _, _, _, h, hvaries => by
    cases hvaries with
    | some hs => exact hs.nodes h
termination_by structural s => s

theorem RoutineVaries.nodes : ∀ {decl decl' : Routine (Stmt Address)} {around : List Bool}
    {ns ns' : List (Node Address)}, r.NodesVary ns ns' →
    RoutineVaries r.variation around decl decl' →
    r.NodesVary (listRoutine decl ns) (listRoutine decl' ns')
  | ⟨_, _, body⟩, _, _, _, _, h, hvaries => by
    cases hvaries with
    | intro _ _ _ hbody => exact hbody.nodes h
termination_by structural decl => decl

theorem MethodsVary.nodes : ∀ {ms ms' : List (Routine (Stmt Address))} {around : List Bool}
    {ns ns' : List (Node Address)}, r.NodesVary ns ns' →
    MethodsVary r.variation around ms ms' → r.NodesVary (listMethods ms ns) (listMethods ms' ns')
  | [], _, _, _, _, h, hvaries => by
    cases hvaries
    exact h
  | m :: rest, _, _, _, _, h, hvaries => by
    cases hvaries with
    | cons hm hrest => exact (hm.nodes (hrest.nodes h)).skip rfl rfl
termination_by structural ms => ms

end

end Stmt

/-- **Programs that differ by a renaming use the same names**, at the same
distances. -/
theorem Program.sameUses {r : Renaming} {p p' : Program Address}
    (h : Stmt.VariesAll r.variation [] p p') : r.SameUses p.uses p'.uses :=
  h.nodes .nil

end TanLang
