import TanLang.Heap.Object
/-!
# Scoping — code that fits the scopes around it

A context is what is known of the local scopes around a piece of code,
innermost first: the names declared so far, as resolution marks them, and
the names that the text of the scope may declare at all.

`StmtFits` and its companions say that resolved code fits a context. A
read with a distance finds a name that can be read there, and a write finds
a scope. Under `strict` they also ask that each use is at home: its distance
is the one to the innermost scope that declares the name so far, **and no
scope around it is still to declare the name**.
-/

namespace TanLang

/-- The name that a statement declares in the scope it stands in. -/
def Stmt.declared {α : Type} : Stmt α → Option Token
  | .varDecl name _ => some name
  | .function decl => some decl.name
  | .classDecl name _ _ => some name
  | _ => none

namespace Scoping

/-- What is known of a local scope. -/
structure Entry where
  /-- The names declared so far, and whether they can be read. -/
  marks : Frame
  /-- The names that may be declared. -/
  allowed : Text → Prop

/-- **A name is settled in a scope** that can never declare it, or that has
declared it so that it can be read. -/
def Entry.Settled (E : Entry) (x : Text) : Prop :=
  E.allowed x ∨ (E.marks.find? x).isSome = true → E.marks.find? x = some true

/-- What is known of the local scopes around a piece of code. -/
abbrev Context := List Entry

namespace Context

/-- The scopes as resolution keeps them. -/
def frames (Γ : Context) : List Frame := Γ.map Entry.marks

/-- A mark put on a name in the innermost scope, if there is one. -/
def mark (x : Text) (readable : Bool) : Context → Context
  | [] => []
  | E :: outer => { E with marks := E.marks.insert x readable } :: outer

/-- The context after a statement. -/
def after {α : Type} (s : Stmt α) (Γ : Context) : Context :=
  match s.declared with
  | none => Γ
  | some name => mark name.lexeme true Γ

theorem after_of_none {α : Type} {s : Stmt α} {Γ : Context} (h : s.declared = none) :
    Γ.after s = Γ := by
  rw [after, h]

/-- Whether the innermost scope may declare a name. -/
def Allows (Γ : Context) (x : Text) : Prop := ∀ E ∈ Γ.head?, E.allowed x

/-- A name is settled in all scopes. -/
def Settled (Γ : Context) (x : Text) : Prop := ∀ E ∈ Γ, E.Settled x

/-- Where there is no local scope, any name may be declared. -/
theorem allows_nil (x : Text) : Allows [] x := fun _ h => absurd h (Option.not_mem_none _)

@[simp]
theorem frames_cons (E : Entry) (Γ : Context) : frames (E :: Γ) = E.marks :: frames Γ := rfl

theorem frames_mark (x : Text) (readable : Bool) (Γ : Context) :
    (mark x readable Γ).frames = Scoping.mark x readable Γ.frames := by
  cases Γ <;> rfl

theorem tail_mark (x : Text) (readable : Bool) (Γ : Context) :
    (mark x readable Γ).tail = Γ.tail := by
  cases Γ <;> rfl

end Context

/-- The scope around the methods of a class. -/
def thisEntry : Entry := ⟨thisFrame, (· = thisName)⟩

/-- The names of parameters, all to be read. -/
def paramFrame (params : List Token) : Frame :=
  params.foldl (fun frame p => frame.insert p.lexeme true) .empty

/-- The names of parameters can be read, and there are no others. -/
theorem find?_paramFrame {params : List Token} {x : Text} {b : Bool}
    (h : (paramFrame params).find? x = some b) : b = true ∧ ∃ p ∈ params, p.lexeme = x := by
  have hfold : ∀ (params : List Token) (frame : Frame),
      (params.foldl (fun frame p => frame.insert p.lexeme true) frame).find? x = some b →
      (b = true ∧ ∃ p ∈ params, p.lexeme = x) ∨ frame.find? x = some b := by
    intro params
    induction params with
    | nil => exact fun _ h => .inr h
    | cons p rest ih =>
      intro frame h
      rcases ih _ h with ⟨hb, q, hq, hx⟩ | h
      · exact .inl ⟨hb, q, List.mem_cons_of_mem p hq, hx⟩
      · by_cases hx : x = p.lexeme
        · subst hx
          rw [Table.find?_insert_self] at h
          exact .inl ⟨(Option.some.inj h).symm, p, List.mem_cons_self, rfl⟩
        · rw [Table.find?_insert_of_ne _ _ hx] at h
          exact .inr h
  rcases hfold params .empty h with h | h
  · exact h
  · cases h

/-! ## Names in the making -/

namespace Context

/-- **A name is in the making** in a context: the innermost scope has declared
it, and it cannot be read yet. -/
def Makes (Γ : Context) (x : Text) : Prop := ∃ E ∈ Γ.head?, E.marks.find? x = some false

/-- Nothing is in the making in the globals, which are not followed. -/
theorem not_makes_nil (x : Text) : ¬ Makes [] x := by
  rintro ⟨E, hE, -⟩
  cases hE

/-- Nothing is in the making in a scope that is new. -/
theorem not_makes_empty {allowed : Text → Prop} {Γ : Context} (x : Text) :
    ¬ Makes (⟨.empty, allowed⟩ :: Γ) x := by
  rintro ⟨E, hE, hmark⟩
  cases hE
  cases hmark

/-- Nothing is in the making in the scope of a call. -/
theorem not_makes_params {params : List Token} {allowed : Text → Prop} {Γ : Context} (x : Text) :
    ¬ Makes (⟨paramFrame params, allowed⟩ :: Γ) x := by
  rintro ⟨E, hE, hmark⟩
  cases hE
  cases (find?_paramFrame hmark).1

/-- A mark puts no name in the making but its own, and that only if it is one
for it. -/
theorem Makes.of_mark {Γ : Context} {x y : Text} {readable : Bool}
    (h : (Γ.mark y readable).Makes x) : Γ.Makes x ∨ x = y ∧ readable = false := by
  cases Γ with
  | nil => exact absurd h (not_makes_nil x)
  | cons E outer =>
    obtain ⟨E', hE', hmark⟩ := h
    cases hE'
    by_cases hxy : x = y
    · subst hxy
      rw [Table.find?_insert_self] at hmark
      exact .inr ⟨rfl, Option.some.inj hmark⟩
    · rw [Table.find?_insert_of_ne _ _ hxy] at hmark
      exact .inl ⟨E, rfl, hmark⟩

/-- After a statement no other names are in the making than before it. -/
theorem Makes.of_after {α : Type} {s : Stmt α} {Γ : Context} {x : Text}
    (h : (Γ.after s).Makes x) : Γ.Makes x := by
  unfold after at h
  split at h
  · exact h
  · exact h.of_mark.resolve_right nofun

end Context

/-! ## Uses of names -/

/-- A use of a name is at home. -/
structure AtHome (Γ : Context) (x : Text) (address : Address) : Prop where
  nearest : address = distance x Γ.frames
  settled : Γ.Settled x

section

variable (strict : Prop)

/-- **A read fits**: what it has a distance to can be read there. -/
structure Reads (Γ : Context) (x : Text) (address : Address) : Prop where
  readable : ∀ d, address = some d → ∃ E, Γ[d]? = some E ∧ E.marks.find? x = some true
  home : strict → AtHome Γ x address

/-- **A write fits**: what it has a distance to is a scope that may declare
the name. The scope has declared it, or it is the innermost one and the name
is in the making. -/
structure Writes (Γ : Context) (x : Text) (address : Address) : Prop where
  declarable : ∀ d, address = some d → ∃ E, Γ[d]? = some E ∧ E.allowed x
  marked : ∀ d, address = some d → ∃ E, Γ[d]? = some E ∧
    (E.marks.find? x = some true ∨ d = 0 ∧ E.marks.find? x = some false)
  home : strict → AtHome Γ x address

/-! ## Code -/

mutual

/-- An expression fits a context. -/
def ExprFits (Γ : Context) : Expr Address → Prop
  | .literal _ _ => True
  | .grouping _ inner => ExprFits Γ inner
  | .unary _ operand => ExprFits Γ operand
  | .binary left _ right => ExprFits Γ left ∧ ExprFits Γ right
  | .ternary cond _ yes no => ExprFits Γ cond ∧ ExprFits Γ yes ∧ ExprFits Γ no
  | .logical left _ right => ExprFits Γ left ∧ ExprFits Γ right
  | .var name address => Reads strict Γ name.lexeme address
  | .assign name address value => Writes strict Γ name.lexeme address ∧ ExprFits Γ value
  | .call callee _ args => ExprFits Γ callee ∧ ExprsFit Γ args
  | .get object _ => ExprFits Γ object
  | .set object _ value => ExprFits Γ object ∧ ExprFits Γ value
  | .receiver keyword address => Reads strict Γ keyword.lexeme address

/-- The same for expressions in a row. -/
def ExprsFit (Γ : Context) : List (Expr Address) → Prop
  | [] => True
  | e :: rest => ExprFits Γ e ∧ ExprsFit Γ rest

end

/-- The same for an expression that may be missing. -/
def ExprOptionFits (Γ : Context) : Option (Expr Address) → Prop
  | none => True
  | some e => ExprFits strict Γ e

/-- The same for a superclass that may be missing. -/
def SuperclassFits (Γ : Context) : Option (Token × Address) → Prop
  | none => True
  | some (name, address) => Reads strict Γ name.lexeme address

mutual

/-- **A statement fits a context.** What is repeated or chosen declares
nothing, and there are no `for` loops left. -/
def StmtFits (Γ : Context) : Stmt Address → Prop
  | .block _ body => ∃ allowed, BodyFits (⟨.empty, allowed⟩ :: Γ) body
  | .expr e => ExprFits strict Γ e
  | .print _ value => ExprFits strict Γ value
  | .varDecl name initial =>
    Γ.Allows name.lexeme ∧ ExprOptionFits strict (Γ.mark name.lexeme false) initial
  | .branch _ cond yes no =>
    ExprFits strict Γ cond ∧ (yes.declared = none ∧ StmtFits Γ yes) ∧ StmtOptionFits Γ no
  | .loop _ cond body => ExprFits strict Γ cond ∧ StmtOptionFits Γ body
  | .forLoop _ _ _ _ _ => False
  | .function decl =>
    Γ.Allows decl.name.lexeme ∧ RoutineFits (Γ.mark decl.name.lexeme true) decl
  | .ret _ value => ExprOptionFits strict Γ value
  | .classDecl name superclass methods =>
    Γ.Allows name.lexeme ∧ SuperclassFits strict Γ superclass ∧
      MethodsFit (thisEntry :: Γ.mark name.lexeme true) methods

/-- Statements in a row fit a context, each in what the ones before have
made of it. -/
def BodyFits (Γ : Context) : List (Stmt Address) → Prop
  | [] => True
  | s :: rest => StmtFits Γ s ∧ BodyFits (Γ.after s) rest

/-- A statement that may be missing and declares nothing fits a context. -/
def StmtOptionFits (Γ : Context) : Option (Stmt Address) → Prop
  | none => True
  | some s => s.declared = none ∧ StmtFits Γ s

/-- A function fits a context: its body does, with a scope around it that
starts with the parameters. -/
def RoutineFits (Γ : Context) : Routine (Stmt Address) → Prop
  | ⟨_, params, body⟩ =>
    ∃ allowed, (∀ p ∈ params, allowed p.lexeme) ∧ BodyFits (⟨paramFrame params, allowed⟩ :: Γ) body

/-- The methods of a class fit a context. -/
def MethodsFit (Γ : Context) : List (Routine (Stmt Address)) → Prop
  | [] => True
  | m :: rest => RoutineFits Γ m ∧ MethodsFit Γ rest

end

theorem routineFits_iff {Γ : Context} {decl : Routine (Stmt Address)} :
    RoutineFits strict Γ decl ↔ ∃ allowed, (∀ p ∈ decl.params, allowed p.lexeme) ∧
      BodyFits strict (⟨paramFrame decl.params, allowed⟩ :: Γ) decl.body := by
  cases decl
  rw [RoutineFits]

theorem routineFits_of_mem {Γ : Context} {m : Routine (Stmt Address)}
    {ms : List (Routine (Stmt Address))} (h : MethodsFit strict Γ ms) (hm : m ∈ ms) :
    RoutineFits strict Γ m := by
  induction ms with
  | nil => cases hm
  | cons first rest ih =>
    rcases List.mem_cons.1 hm with rfl | hm
    · exact h.1
    · exact ih h.2 hm

end

end Scoping

end TanLang
