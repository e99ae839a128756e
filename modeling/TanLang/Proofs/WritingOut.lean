import TanLang.Proofs.Renaming
/-!
# Writing out — `for` loops as `while` loops

A `for` loop that is written out has its body and its step in a block of
their own if there are both, so the code in it is one scope further in than
the code of the loop itself. Nothing is declared in that scope, and **every
distance that leads through it is larger by one**.

`Stmt.WrittenOut` relates resolved code to the same code with its `for`
loops written out. Which of the scopes around the written-out code are such
extra ones is what the two have to agree on.
-/

namespace TanLang

/-- The scopes around a piece of written-out code, innermost first and
without the globals: whether each one is an extra one. -/
abbrev Layers := List Bool

/-- **A distance without the extra scopes, and the same one with them.** -/
inductive Layers.Apart : Layers → Nat → Nat → Prop where
  | here {layers : Layers} : Apart (false :: layers) 0 0
  | next {layers : Layers} {d d' : Nat} (h : Apart layers d d') :
      Apart (false :: layers) (d + 1) (d' + 1)
  | skip {layers : Layers} {d d' : Nat} (h : Apart layers d d') : Apart (true :: layers) d (d' + 1)

/-- The innermost scope is no extra one, so that something can be declared
in it. -/
def Layers.Own (layers : Layers) : Prop := layers.headD false = false

/-- **What extra scopes change in an expression**: the distances. -/
def Layers.variation : Variation Address Address where
  use layers name a name' a' := name' = name ∧ Option.Rel (Apart layers) a a'
  receiver layers _ a a' := Option.Rel (Apart layers) a a'
  declared _ name name' := name' = name
  named _ _ := True

namespace Expr

/-- An expression, and the same one among extra scopes. -/
abbrev WrittenOut (layers : Layers) (e e' : Expr Address) : Prop :=
  e.Varies Layers.variation layers e'

/-- The same for expressions in a row. -/
abbrev WrittenOutAll (layers : Layers) (es es' : List (Expr Address)) : Prop :=
  VariesAll Layers.variation layers es es'

/-- The same for an expression that may be missing. -/
abbrev WrittenOutOption (layers : Layers) (e e' : Option (Expr Address)) : Prop :=
  VariesOption Layers.variation layers e e'

/-- The condition of a `for` loop, and that of the `while` loop, which is
never missing. -/
inductive WrittenOutCond (layers : Layers) (keyword : Token) :
    Option (Expr Address) → Expr Address → Prop where
  | always : WrittenOutCond layers keyword none (.literal keyword (.bool true))
  | given {e e' : Expr Address} (h : e.WrittenOut layers e') :
      WrittenOutCond layers keyword (some e) e'

end Expr

namespace Stmt

/-- What a `for` loop may start with. -/
def opens {α : Type} : Stmt α → Bool
  | varDecl _ _ => true
  | expr _ => true
  | _ => false

mutual

/-- **Resolved code, and the same code with its `for` loops written out.**
Nothing is declared in an extra scope. -/
inductive WrittenOut : Layers → Stmt Address → Stmt Address → Prop where
  | block {layers : Layers} {body body' : List (Stmt Address)} (brace : Token)
      (h : WrittenOutAll (false :: layers) body body') :
      WrittenOut layers (.block brace body) (.block brace body')
  | expr {layers : Layers} {e e' : Expr Address} (h : e.WrittenOut layers e') :
      WrittenOut layers (.expr e) (.expr e')
  | print {layers : Layers} {value value' : Expr Address} (keyword : Token)
      (h : value.WrittenOut layers value') :
      WrittenOut layers (.print keyword value) (.print keyword value')
  | varDecl {layers : Layers} {initial initial' : Option (Expr Address)} (name : Token)
      (hown : layers.Own) (h : Expr.WrittenOutOption layers initial initial') :
      WrittenOut layers (.varDecl name initial) (.varDecl name initial')
  | branch {layers : Layers} {cond cond' : Expr Address} {yes yes' : Stmt Address}
      {no no' : Option (Stmt Address)} (keyword : Token) (hcond : cond.WrittenOut layers cond')
      (hyes : WrittenOut layers yes yes') (hno : WrittenOutOption layers no no') :
      WrittenOut layers (.branch keyword cond yes no) (.branch keyword cond' yes' no')
  | loop {layers : Layers} {cond cond' : Expr Address} {body body' : Option (Stmt Address)}
      (keyword : Token) (hcond : cond.WrittenOut layers cond')
      (hbody : WrittenOutOption layers body body') :
      WrittenOut layers (.loop keyword cond body) (.loop keyword cond' body')
  | forLoop {layers : Layers} {cond step : Option (Expr Address)} {cond' : Expr Address}
      {body rounds : Option (Stmt Address)} {keyword : Token}
      (hcond : Expr.WrittenOutCond layers keyword cond cond')
      (hrounds : WrittenOutRounds layers keyword step body rounds) :
      WrittenOut layers (.forLoop keyword none cond step body) (.loop keyword cond' rounds)
  | forScope {layers : Layers} {initial initial' : Stmt Address}
      {cond step : Option (Expr Address)} {cond' : Expr Address}
      {body rounds : Option (Stmt Address)} {keyword : Token} (hopens : initial.opens = true)
      (hinitial : WrittenOut (false :: layers) initial initial')
      (hcond : Expr.WrittenOutCond (false :: layers) keyword cond cond')
      (hrounds : WrittenOutRounds (false :: layers) keyword step body rounds) :
      WrittenOut layers (.forLoop keyword (some initial) cond step body)
        (.block keyword [initial', .loop keyword cond' rounds])
  | function {layers : Layers} {decl decl' : Routine (Stmt Address)} (hown : layers.Own)
      (h : WrittenOutRoutine layers decl decl') :
      WrittenOut layers (.function decl) (.function decl')
  | ret {layers : Layers} {value value' : Option (Expr Address)} (keyword : Token)
      (h : Expr.WrittenOutOption layers value value') :
      WrittenOut layers (.ret keyword value) (.ret keyword value')
  | classDecl {layers : Layers} {superclass superclass' : Option (Token × Address)}
      {methods methods' : List (Routine (Stmt Address))} (name : Token) (hown : layers.Own)
      (hsuperclass : SuperclassVaries Layers.variation layers superclass superclass')
      (hmethods : WrittenOutMethods (false :: layers) methods methods') :
      WrittenOut layers (.classDecl name superclass methods) (.classDecl name superclass' methods')

/-- **What a `for` loop repeats, and what the `while` loop does**: the body
and the step are in an extra scope if there are both. -/
inductive WrittenOutRounds : Layers → Token → Option (Expr Address) → Option (Stmt Address) →
    Option (Stmt Address) → Prop where
  | bodyOnly {layers : Layers} {keyword : Token} {body body' : Option (Stmt Address)}
      (h : WrittenOutOption layers body body') : WrittenOutRounds layers keyword none body body'
  | stepOnly {layers : Layers} {keyword : Token} {step step' : Expr Address}
      (h : step.WrittenOut layers step') :
      WrittenOutRounds layers keyword (some step) none (some (.expr step'))
  | both {layers : Layers} {keyword : Token} {step step' : Expr Address}
      {body body' : Stmt Address} (hbody : WrittenOut (true :: layers) body body')
      (hstep : step.WrittenOut (true :: layers) step') :
      WrittenOutRounds layers keyword (some step) (some body)
        (some (.block keyword [body', .expr step']))

/-- The same for statements in a row. -/
inductive WrittenOutAll : Layers → List (Stmt Address) → List (Stmt Address) → Prop where
  | nil {layers : Layers} : WrittenOutAll layers [] []
  | cons {layers : Layers} {s s' : Stmt Address} {rest rest' : List (Stmt Address)}
      (h : WrittenOut layers s s') (hrest : WrittenOutAll layers rest rest') :
      WrittenOutAll layers (s :: rest) (s' :: rest')

/-- The same for a statement that may be missing. -/
inductive WrittenOutOption : Layers → Option (Stmt Address) → Option (Stmt Address) → Prop where
  | none {layers : Layers} : WrittenOutOption layers none none
  | some {layers : Layers} {s s' : Stmt Address} (h : WrittenOut layers s s') :
      WrittenOutOption layers (some s) (some s')

/-- The same for a function. -/
inductive WrittenOutRoutine : Layers → Routine (Stmt Address) → Routine (Stmt Address) → Prop where
  | intro {layers : Layers} {body body' : List (Stmt Address)} (name : Token)
      (params : List Token) (h : WrittenOutAll (false :: layers) body body') :
      WrittenOutRoutine layers ⟨name, params, body⟩ ⟨name, params, body'⟩

/-- The same for the methods of a class. -/
inductive WrittenOutMethods :
    Layers → List (Routine (Stmt Address)) → List (Routine (Stmt Address)) → Prop where
  | nil {layers : Layers} : WrittenOutMethods layers [] []
  | cons {layers : Layers} {m m' : Routine (Stmt Address)}
      {rest rest' : List (Routine (Stmt Address))} (h : WrittenOutRoutine layers m m')
      (hrest : WrittenOutMethods layers rest rest') :
      WrittenOutMethods layers (m :: rest) (m' :: rest')

end

theorem WrittenOutRoutine.name {layers : Layers} {decl decl' : Routine (Stmt Address)}
    (h : WrittenOutRoutine layers decl decl') : decl'.name = decl.name := by
  cases h
  rfl

theorem WrittenOutRoutine.params {layers : Layers} {decl decl' : Routine (Stmt Address)}
    (h : WrittenOutRoutine layers decl decl') : decl'.params = decl.params := by
  cases h
  rfl

theorem WrittenOutRoutine.body {layers : Layers} {decl decl' : Routine (Stmt Address)}
    (h : WrittenOutRoutine layers decl decl') :
    WrittenOutAll (false :: layers) decl.body decl'.body := by
  cases h with
  | intro _ _ hbody => exact hbody

end Stmt

end TanLang
