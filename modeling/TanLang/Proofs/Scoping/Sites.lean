import TanLang.Program.Outline
import TanLang.Scoping
/-!
# Scoping — the sites of a program

What lexical scoping says of a program, without a walk that keeps a stack.
A local scope is known by where in the tree the construct stands that opens
it. A site is a place that declares a name, uses one, or that the scoping
rules are about otherwise; it has its setting, the local scopes around it.
The sites of a program are listed in the order of resolution.

From the sites before it and its own setting, each site has **its lexical
distance** (`Distance`) and **its violations** (`Site.violations`).
-/

namespace TanLang

namespace Scoping

variable {α β : Type}

/-! ## Settings -/

/-- A place in the tree of a program: which part to go to, from the outermost
choice, which is the last, inwards. -/
abbrev Position := List Nat

/-- What opens a local scope. -/
inductive Opening where
  /-- A block. -/
  | block
  /-- A function or method, for its parameters and its body together. -/
  | routine
  /-- A class, around its methods. -/
  | methods
  deriving DecidableEq, Inhabited

/-- A local scope of a program. -/
structure LocalScope where
  /-- What opens it. -/
  opening : Opening
  /-- Where that stands. -/
  position : Position
  deriving DecidableEq, Inhabited

/-- What is around a place in a program. -/
structure Setting where
  /-- The local scopes, innermost first. -/
  scopes : List LocalScope := []
  /-- The variable whose first value the place is in, if it is in one. -/
  making : Option Text := none
  deriving DecidableEq, Inhabited

namespace Setting

/-- The setting in a scope that is opened in another one. -/
def inside (here : Setting) (opening : Opening) (p : Position) : Setting :=
  { scopes := ⟨opening, p⟩ :: here.scopes }

/-- Whether there is a function or method around. -/
def inFunction (here : Setting) : Bool := here.scopes.any fun scope => scope.opening = .routine

/-- Whether there is a class around. -/
def inClass (here : Setting) : Bool := here.scopes.any fun scope => scope.opening = .methods

end Setting

/-! ## Sites -/

/-- What a site is for. -/
inductive Occurrence (α : Type) where
  /-- The declaration of a variable, parameter, function or class. -/
  | declaration (name : Token)
  /-- The start of the scope around the methods of a class, which declares `this`. -/
  | receiverScope
  /-- A variable that is read, as a superclass is. -/
  | read (name : Token) (address : α)
  /-- A variable that is assigned to, once the value is there. -/
  | write (name : Token) (address : α)
  /-- A `this`. -/
  | receiver (keyword : Token) (address : α)
  /-- A `return`. -/
  | ret (keyword : Token)
  /-- A class of a name with a superclass. -/
  | subclass (name superclass : Token)
  deriving DecidableEq

namespace Occurrence

/-- The name that is declared. -/
def declared? : Occurrence α → Option Text
  | declaration name => some name.lexeme
  | receiverScope => some (Text.ofString "this")
  | _ => none

/-- The name that is used, and its mark. -/
def use? : Occurrence α → Option (Token × α)
  | read name address => some (name, address)
  | write name address => some (name, address)
  | receiver keyword address => some (keyword, address)
  | _ => none

/-- The same without the mark. -/
def bare : Occurrence α → Occurrence Unit
  | declaration name => .declaration name
  | receiverScope => .receiverScope
  | read name _ => .read name ()
  | write name _ => .write name ()
  | receiver keyword _ => .receiver keyword ()
  | ret keyword => .ret keyword
  | subclass name superclass => .subclass name superclass

end Occurrence

/-- A place in a program that scoping is about. -/
structure Site (α : Type) where
  /-- What is around it. -/
  setting : Setting
  /-- What it is for. -/
  occurrence : Occurrence α
  deriving DecidableEq

namespace Site

/-- Whether the site declares a name in a scope. -/
def declares (site : Site α) (scope : LocalScope) (x : Text) : Bool :=
  site.setting.scopes.head? = some scope && site.occurrence.declared? = some x

/-- The same without its mark. -/
def bare (site : Site α) : Site Unit := ⟨site.setting, site.occurrence.bare⟩

end Site

/-- Sites in one setting. -/
def Setting.sites (here : Setting) (os : List (Occurrence α)) : List (Site α) :=
  os.map (Site.mk here)

end Scoping

open Scoping

variable {α : Type}

namespace Expr

mutual

/-- What an expression does, in the order of resolution: a value comes
before what it is assigned to. -/
def occurrences : Expr α → List (Occurrence α)
  | literal _ _ => []
  | grouping _ inner => occurrences inner
  | unary _ operand => occurrences operand
  | binary left _ right => occurrences left ++ occurrences right
  | ternary cond _ yes no => occurrences cond ++ (occurrences yes ++ occurrences no)
  | logical left _ right => occurrences left ++ occurrences right
  | var name address => [.read name address]
  | assign name address value => occurrences value ++ [.write name address]
  | call callee _ args => occurrences callee ++ occurrencesAll args
  | get object _ => occurrences object
  | set object _ value => occurrences value ++ occurrences object
  | receiver keyword address => [.receiver keyword address]

/-- The same for expressions in a row. -/
def occurrencesAll : List (Expr α) → List (Occurrence α)
  | [] => []
  | e :: rest => occurrences e ++ occurrencesAll rest

end

/-- The same for an expression that may be missing. -/
def occurrencesOption : Option (Expr α) → List (Occurrence α)
  | none => []
  | some e => e.occurrences

end Expr

namespace Stmt

/-- What a class does with its superclass. -/
def superclassOccurrences (name : Token) : Option (Token × α) → List (Occurrence α)
  | none => []
  | some (superclass, address) => [.subclass name superclass, .read superclass address]

mutual

/-- **The sites of a statement** at a position, in the order of resolution.
A variable is declared before its first value, and a function or class
before its body. -/
def sites (here : Setting) (p : Position) : Stmt α → List (Site α)
  | block _ body => sitesAll (here.inside .block p) p 0 body
  | expr e => here.sites e.occurrences
  | print _ value => here.sites value.occurrences
  | varDecl name initial =>
    ⟨here, .declaration name⟩ ::
      Setting.sites { here with making := some name.lexeme } (Expr.occurrencesOption initial)
  | branch _ cond yes no =>
    here.sites cond.occurrences ++ (sites here (0 :: p) yes ++ sitesOption here (1 :: p) no)
  | loop _ cond body => here.sites cond.occurrences ++ sitesOption here (0 :: p) body
  | forLoop _ initial cond step body =>
    -- the scope of a `for` loop is there for its declaration
    let inner := if initial.isSome then here.inside .block p else here
    sitesOption inner (0 :: p) initial ++
      (inner.sites (Expr.occurrencesOption cond) ++
        (sitesOption inner (1 :: p) body ++ inner.sites (Expr.occurrencesOption step)))
  | function decl => ⟨here, .declaration decl.name⟩ :: sitesRoutine here p decl
  | ret keyword value => ⟨here, .ret keyword⟩ :: here.sites (Expr.occurrencesOption value)
  | classDecl name superclass methods =>
    ⟨here, .declaration name⟩ ::
      (here.sites (superclassOccurrences name superclass) ++
        ⟨here.inside .methods p, .receiverScope⟩ ::
          sitesMethods (here.inside .methods p) p 0 methods)

/-- The sites of statements in a row, from the one with a number on. -/
def sitesAll (here : Setting) (p : Position) (i : Nat) : List (Stmt α) → List (Site α)
  | [] => []
  | s :: rest => sites here (i :: p) s ++ sitesAll here p (i + 1) rest

/-- The sites of a statement that may be missing. -/
def sitesOption (here : Setting) (p : Position) : Option (Stmt α) → List (Site α)
  | none => []
  | some s => sites here p s

/-- The sites in a function: its parameters and its body are in one scope. -/
def sitesRoutine (here : Setting) (p : Position) : Routine (Stmt α) → List (Site α)
  | ⟨_, params, body⟩ =>
    Setting.sites (here.inside .routine p) (params.map .declaration) ++
      sitesAll (here.inside .routine p) p 0 body

/-- The sites in methods in a row, from the one with a number on. -/
def sitesMethods (here : Setting) (p : Position) (i : Nat) :
    List (Routine (Stmt α)) → List (Site α)
  | [] => []
  | m :: rest => sitesRoutine here (i :: p) m ++ sitesMethods here p (i + 1) rest

end

end Stmt

/-- The sites of a program. -/
def Program.sites (p : Program α) : List (Site α) := Stmt.sitesAll {} [] 0 p

namespace Scoping

/-! ## The scoping rules -/

/-- Whether one of the sites declares a name in a scope. -/
def declaredIn (earlier : List (Site α)) (scope : LocalScope) (x : Text) : Bool :=
  earlier.any fun site => site.declares scope x

/-- **The lexical distance of a name**: the scope so many scopes out is the
innermost one in which an earlier site declares it. -/
structure Distance (earlier : List (Site α)) (here : Setting) (x : Text) (d : Nat) : Prop where
  declared : ∃ scope, here.scopes[d]? = some scope ∧ declaredIn earlier scope x = true
  innermost : ∀ i < d, ∀ scope, here.scopes[i]? = some scope → declaredIn earlier scope x = false

/-- No scope around declares the name so far. -/
def Global (earlier : List (Site α)) (here : Setting) (x : Text) : Prop :=
  ∀ scope ∈ here.scopes, declaredIn earlier scope x = false

/-- **What a site violates**, after the sites before it. -/
def Site.violations (earlier : List (Site α)) (site : Site α) : List Issue :=
  match site.occurrence with
  | .declaration name =>
    if site.setting.scopes.head?.any fun scope => declaredIn earlier scope name.lexeme then
      [⟨name, .alreadyDeclared⟩]
    else []
  | .read name _ =>
    if site.setting.scopes ≠ [] ∧ site.setting.making = some name.lexeme then
      [⟨name, .ownInitial⟩]
    else []
  | .ret keyword => if site.setting.inFunction then [] else [⟨keyword, .returnOutside⟩]
  | .receiver keyword _ => if site.setting.inClass then [] else [⟨keyword, .thisOutside⟩]
  | .subclass name superclass =>
    if superclass.lexeme = name.lexeme then [⟨superclass, .selfSuperclass⟩] else []
  | .receiverScope => []
  | .write _ _ => []

/-- The violations of sites, each judged after the sites before it. -/
def violationsAfter (earlier : List (Site α)) : List (Site α) → List Issue
  | [] => []
  | site :: later => site.violations earlier ++ violationsAfter (earlier ++ [site]) later

/-- **The scope violations of a program.** -/
def violations (p : Program α) : List Issue := violationsAfter [] p.sites

/-! ## Programs without their addresses -/

end Scoping

namespace Expr

mutual

/-- The expression without its marks. -/
def bare : Expr α → Expr Unit
  | literal token value => .literal token value
  | grouping paren inner => .grouping paren (bare inner)
  | unary op operand => .unary op (bare operand)
  | binary left op right => .binary (bare left) op (bare right)
  | ternary cond mark yes no => .ternary (bare cond) mark (bare yes) (bare no)
  | logical left op right => .logical (bare left) op (bare right)
  | var name _ => .var name ()
  | assign name _ value => .assign name () (bare value)
  | call callee paren args => .call (bare callee) paren (bareAll args)
  | get object name => .get (bare object) name
  | set object name value => .set (bare object) name (bare value)
  | receiver keyword _ => .receiver keyword ()

/-- The same for expressions in a row. -/
def bareAll : List (Expr α) → List (Expr Unit)
  | [] => []
  | e :: rest => bare e :: bareAll rest

end

mutual

/-- Marks do not matter to where things stand. -/
theorem occurrences_bare : ∀ e : Expr α, e.bare.occurrences = e.occurrences.map Occurrence.bare
  | literal _ _ => rfl
  | grouping _ inner => occurrences_bare inner
  | unary _ operand => occurrences_bare operand
  | binary left _ right => by
    simp only [bare, occurrences, List.map_append, occurrences_bare left, occurrences_bare right]
  | ternary cond _ yes no => by
    simp only [bare, occurrences, List.map_append, occurrences_bare cond, occurrences_bare yes,
      occurrences_bare no]
  | logical left _ right => by
    simp only [bare, occurrences, List.map_append, occurrences_bare left, occurrences_bare right]
  | var _ _ => rfl
  | assign _ _ value => by
    simp only [bare, occurrences, List.map_append, occurrences_bare value]
    rfl
  | call callee _ args => by
    simp only [bare, occurrences, List.map_append, occurrences_bare callee,
      occurrencesAll_bare args]
  | get object _ => occurrences_bare object
  | set object _ value => by
    simp only [bare, occurrences, List.map_append, occurrences_bare value, occurrences_bare object]
  | receiver _ _ => rfl

theorem occurrencesAll_bare : ∀ es : List (Expr α),
    occurrencesAll (bareAll es) = (occurrencesAll es).map Occurrence.bare
  | [] => rfl
  | e :: rest => by
    simp only [bareAll, occurrencesAll, List.map_append, occurrences_bare e,
      occurrencesAll_bare rest]

end

theorem occurrencesOption_bare (e : Option (Expr α)) :
    occurrencesOption (e.map bare) = (occurrencesOption e).map Occurrence.bare := by
  cases e with
  | none => rfl
  | some e => exact occurrences_bare e

end Expr

namespace Stmt

mutual

/-- The statement without its marks. -/
def bare : Stmt α → Stmt Unit
  | block brace body => .block brace (bareAll body)
  | expr e => .expr e.bare
  | print keyword value => .print keyword value.bare
  | varDecl name initial => .varDecl name (initial.map Expr.bare)
  | branch keyword cond yes no => .branch keyword cond.bare (bare yes) (bareOption no)
  | loop keyword cond body => .loop keyword cond.bare (bareOption body)
  | forLoop keyword initial cond step body =>
    .forLoop keyword (bareOption initial) (cond.map Expr.bare) (step.map Expr.bare)
      (bareOption body)
  | function decl => .function (bareRoutine decl)
  | ret keyword value => .ret keyword (value.map Expr.bare)
  | classDecl name superclass methods =>
    .classDecl name (superclass.map fun s => (s.1, ())) (bareMethods methods)

/-- The same for statements in a row. -/
def bareAll : List (Stmt α) → List (Stmt Unit)
  | [] => []
  | s :: rest => bare s :: bareAll rest

/-- The same for a statement that may be missing. -/
def bareOption : Option (Stmt α) → Option (Stmt Unit)
  | none => none
  | some s => some (bare s)

/-- The same for a function. -/
def bareRoutine : Routine (Stmt α) → Routine (Stmt Unit)
  | ⟨name, params, body⟩ => ⟨name, params, bareAll body⟩

/-- The same for the methods of a class. -/
def bareMethods : List (Routine (Stmt α)) → List (Routine (Stmt Unit))
  | [] => []
  | m :: rest => bareRoutine m :: bareMethods rest

end

end Stmt

theorem Scoping.Setting.sites_map_bare (here : Setting) (os : List (Occurrence α)) :
    here.sites (os.map Occurrence.bare) = (here.sites os).map Site.bare := by
  simp only [Setting.sites, List.map_map]
  rfl

namespace Stmt

theorem superclassOccurrences_bare (name : Token) (superclass : Option (Token × α)) :
    superclassOccurrences name (superclass.map fun s => (s.1, ())) =
      (superclassOccurrences name superclass).map Occurrence.bare := by
  cases superclass <;> rfl

theorem isSome_bareOption (s : Option (Stmt α)) : (bareOption s).isSome = s.isSome := by
  cases s <;> rfl

theorem name_bareRoutine (decl : Routine (Stmt α)) : (bareRoutine decl).name = decl.name := by
  cases decl
  rfl

mutual

/-- **The sites of a statement without its marks are its sites without them.** -/
theorem sites_bare : ∀ (s : Stmt α) (here : Setting) (p : Position),
    s.bare.sites here p = (s.sites here p).map Site.bare
  | block _ body, here, p => sitesAll_bare body _ p 0
  | expr e, here, p => by
    simp only [bare, sites, Expr.occurrences_bare, Setting.sites_map_bare]
  | print _ value, here, p => by
    simp only [bare, sites, Expr.occurrences_bare, Setting.sites_map_bare]
  | varDecl name initial, here, p => by
    simp only [bare, sites, Expr.occurrencesOption_bare, Setting.sites_map_bare, List.map_cons]
    rfl
  | branch _ cond yes no, here, p => by
    simp only [bare, sites, Expr.occurrences_bare, Setting.sites_map_bare, List.map_append,
      sites_bare yes, sitesOption_bare no]
  | loop _ cond body, here, p => by
    simp only [bare, sites, Expr.occurrences_bare, Setting.sites_map_bare, List.map_append,
      sitesOption_bare body]
  | forLoop _ initial cond step body, here, p => by
    simp only [bare, sites, Expr.occurrencesOption_bare, Setting.sites_map_bare, List.map_append,
      sitesOption_bare initial, sitesOption_bare body, isSome_bareOption]
  | function decl, here, p => by
    simp only [bare, sites, sitesRoutine_bare decl, name_bareRoutine, List.map_cons]
    rfl
  | ret _ value, here, p => by
    simp only [bare, sites, Expr.occurrencesOption_bare, Setting.sites_map_bare, List.map_cons]
    rfl
  | classDecl name superclass methods, here, p => by
    simp only [bare, sites, superclassOccurrences_bare, Setting.sites_map_bare,
      sitesMethods_bare methods, List.map_cons, List.map_append]
    rfl

theorem sitesAll_bare : ∀ (ss : List (Stmt α)) (here : Setting) (p : Position) (i : Nat),
    sitesAll here p i (bareAll ss) = (sitesAll here p i ss).map Site.bare
  | [], _, _, _ => rfl
  | s :: rest, here, p, i => by
    simp only [bareAll, sitesAll, List.map_append, sites_bare s, sitesAll_bare rest]

theorem sitesOption_bare : ∀ (s : Option (Stmt α)) (here : Setting) (p : Position),
    sitesOption here p (bareOption s) = (sitesOption here p s).map Site.bare
  | none, _, _ => rfl
  | some s, here, p => sites_bare s here p

theorem sitesRoutine_bare : ∀ (decl : Routine (Stmt α)) (here : Setting) (p : Position),
    sitesRoutine here p (bareRoutine decl) = (sitesRoutine here p decl).map Site.bare
  | ⟨_, params, body⟩, here, p => by
    have hparams : params.map (Occurrence.declaration : Token → Occurrence Unit) =
        (params.map (Occurrence.declaration : Token → Occurrence α)).map Occurrence.bare := by
      rw [List.map_map]
      rfl
    simp only [bareRoutine, sitesRoutine, hparams, Setting.sites_map_bare, List.map_append,
      sitesAll_bare body]

theorem sitesMethods_bare : ∀ (ms : List (Routine (Stmt α))) (here : Setting) (p : Position)
    (i : Nat), sitesMethods here p i (bareMethods ms) = (sitesMethods here p i ms).map Site.bare
  | [], _, _, _ => rfl
  | m :: rest, here, p, i => by
    simp only [bareMethods, sitesMethods, List.map_append, sitesRoutine_bare m,
      sitesMethods_bare rest]

end

end Stmt

namespace Scoping

theorem declaredIn_bare (earlier : List (Site α)) (scope : LocalScope) (x : Text) :
    declaredIn (earlier.map Site.bare) scope x = declaredIn earlier scope x := by
  rw [declaredIn, declaredIn, List.any_map]
  congr 1
  funext site
  obtain ⟨setting, occurrence⟩ := site
  cases occurrence <;> rfl

theorem Site.violations_bare (earlier : List (Site α)) (site : Site α) :
    site.bare.violations (earlier.map Site.bare) = site.violations earlier := by
  obtain ⟨setting, occurrence⟩ := site
  cases occurrence with
  | declaration name => simp only [Site.violations, Site.bare, Occurrence.bare, declaredIn_bare]
  | receiverScope => rfl
  | read _ _ => rfl
  | write _ _ => rfl
  | receiver _ _ => rfl
  | ret _ => rfl
  | subclass _ _ => rfl

theorem violationsAfter_bare (earlier sites : List (Site α)) :
    violationsAfter (earlier.map Site.bare) (sites.map Site.bare) =
      violationsAfter earlier sites := by
  induction sites generalizing earlier with
  | nil => rfl
  | cons site later ih =>
    have hih := ih (earlier ++ [site])
    rw [List.map_append, List.map_singleton] at hih
    simp only [List.map_cons, violationsAfter, Site.violations_bare, hih]

end Scoping

/-! ## The uses of names -/

namespace Expr

mutual

/-- The uses of names in an expression are among its nodes, in another order. -/
theorem uses_list : ∀ (e : Expr α) (rest : List (Node α)),
    ((e.list rest).filterMap Node.use?).Perm
      (e.occurrences.filterMap Occurrence.use? ++ rest.filterMap Node.use?)
  | literal _ _, _ => .refl _
  | grouping _ inner, rest => uses_list inner rest
  | unary _ operand, rest => uses_list operand rest
  | binary left _ right, rest => by
    rw [occurrences, List.filterMap_append, List.append_assoc]
    exact (uses_list left _).trans ((uses_list right rest).append_left _)
  | ternary cond _ yes no, rest => by
    simp only [occurrences, List.filterMap_append, List.append_assoc]
    refine (uses_list cond _).trans (List.Perm.append_left _ ?_)
    exact (uses_list yes _).trans ((uses_list no rest).append_left _)
  | logical left _ right, rest => by
    rw [occurrences, List.filterMap_append, List.append_assoc]
    exact (uses_list left _).trans ((uses_list right rest).append_left _)
  | var _ _, _ => .refl _
  | assign name address value, rest => by
    rw [occurrences, List.filterMap_append, List.append_assoc]
    exact ((uses_list value rest).cons (name, address)).trans List.perm_middle.symm
  | call callee _ args, rest => by
    rw [occurrences, List.filterMap_append, List.append_assoc]
    exact (uses_list callee _).trans ((uses_listAll args rest).append_left _)
  | get object _, rest => uses_list object rest
  | set object _ value, rest => by
    rw [occurrences, List.filterMap_append, List.append_assoc]
    refine ((uses_list object _).trans ((uses_list value rest).append_left _)).trans ?_
    exact List.perm_append_comm_assoc _ _ _
  | receiver _ _, _ => .refl _

theorem uses_listAll : ∀ (es : List (Expr α)) (rest : List (Node α)),
    ((listAll es rest).filterMap Node.use?).Perm
      ((occurrencesAll es).filterMap Occurrence.use? ++ rest.filterMap Node.use?)
  | [], _ => .refl _
  | e :: more, rest => by
    rw [occurrencesAll, List.filterMap_append, List.append_assoc]
    exact (uses_list e _).trans ((uses_listAll more rest).append_left _)

end

theorem uses_listOption (e : Option (Expr α)) (rest : List (Node α)) :
    ((listOption e rest).filterMap Node.use?).Perm
      ((occurrencesOption e).filterMap Occurrence.use? ++ rest.filterMap Node.use?) := by
  cases e with
  | none => exact .refl _
  | some e => exact uses_list e rest

end Expr

namespace Scoping

/-- The use of a name that a site is. -/
def Site.use? (site : Site α) : Option (Token × α) := site.occurrence.use?

theorem Setting.uses_sites (here : Setting) (os : List (Occurrence α)) :
    (here.sites os).filterMap Site.use? = os.filterMap Occurrence.use? := by
  rw [Setting.sites, List.filterMap_map]
  rfl

theorem Setting.uses_declarations (here : Setting) (names : List Token) :
    (here.sites (names.map (.declaration : Token → Occurrence α))).filterMap Site.use? = [] := by
  rw [Setting.uses_sites, List.filterMap_map]
  exact List.filterMap_eq_nil_iff.2 fun _ _ => rfl

end Scoping

namespace Stmt

mutual

/-- The uses of names in a statement are among its nodes, in another order. -/
theorem uses_list : ∀ (s : Stmt α) (here : Setting) (p : Position) (rest : List (Node α)),
    ((s.list rest).filterMap Node.use?).Perm
      ((s.sites here p).filterMap Site.use? ++ rest.filterMap Node.use?)
  | block _ body, here, p, rest => uses_listAll body _ p 0 rest
  | expr e, here, p, rest => by
    rw [sites, Setting.uses_sites]
    exact Expr.uses_list e rest
  | print _ value, here, p, rest => by
    rw [sites, Setting.uses_sites]
    exact Expr.uses_list value rest
  | varDecl name initial, here, p, rest => by
    rw [sites, List.filterMap_cons_none (by rfl), Setting.uses_sites]
    exact Expr.uses_listOption initial rest
  | branch _ cond yes no, here, p, rest => by
    simp only [sites, List.filterMap_append, Setting.uses_sites, List.append_assoc]
    refine (Expr.uses_list cond _).trans (List.Perm.append_left _ ?_)
    exact (uses_list yes here _ _).trans ((uses_listOption no here _ rest).append_left _)
  | loop _ cond body, here, p, rest => by
    simp only [sites, List.filterMap_append, Setting.uses_sites, List.append_assoc]
    exact (Expr.uses_list cond _).trans ((uses_listOption body here _ rest).append_left _)
  | forLoop _ initial cond step body, here, p, rest => by
    simp only [sites, List.filterMap_append, Setting.uses_sites, List.append_assoc]
    refine (uses_listOption initial _ _ _).trans (List.Perm.append_left _ ?_)
    refine (Expr.uses_listOption cond _).trans (List.Perm.append_left _ ?_)
    -- the step is listed before the body and resolved after it
    refine (Expr.uses_listOption step _).trans ?_
    exact ((uses_listOption body _ _ rest).append_left _).trans (List.perm_append_comm_assoc _ _ _)
  | function decl, here, p, rest => by
    rw [sites, List.filterMap_cons_none (by rfl)]
    exact uses_listRoutine decl here p rest
  | ret _ value, here, p, rest => by
    rw [sites, List.filterMap_cons_none (by rfl), Setting.uses_sites]
    exact Expr.uses_listOption value rest
  | classDecl name none methods, here, p, rest => by
    exact uses_listMethods methods _ p 0 rest
  | classDecl name (some superclass) methods, here, p, rest => by
    exact (uses_listMethods methods _ p 0 rest).cons (superclass.1, superclass.2)

theorem uses_listAll : ∀ (ss : List (Stmt α)) (here : Setting) (p : Position) (i : Nat)
    (rest : List (Node α)), ((listAll ss rest).filterMap Node.use?).Perm
      ((sitesAll here p i ss).filterMap Site.use? ++ rest.filterMap Node.use?)
  | [], _, _, _, _ => .refl _
  | s :: more, here, p, i, rest => by
    rw [sitesAll, List.filterMap_append, List.append_assoc]
    exact (uses_list s here _ _).trans ((uses_listAll more here p _ rest).append_left _)

theorem uses_listOption : ∀ (s : Option (Stmt α)) (here : Setting) (p : Position)
    (rest : List (Node α)), ((listOption s rest).filterMap Node.use?).Perm
      ((sitesOption here p s).filterMap Site.use? ++ rest.filterMap Node.use?)
  | none, _, _, _ => .refl _
  | some s, here, p, rest => uses_list s here p rest

theorem uses_listRoutine : ∀ (decl : Routine (Stmt α)) (here : Setting) (p : Position)
    (rest : List (Node α)), ((listRoutine decl rest).filterMap Node.use?).Perm
      ((sitesRoutine here p decl).filterMap Site.use? ++ rest.filterMap Node.use?)
  | ⟨_, params, body⟩, here, p, rest => by
    rw [sitesRoutine, List.filterMap_append, Setting.uses_declarations, List.nil_append]
    exact uses_listAll body _ p 0 rest

theorem uses_listMethods : ∀ (ms : List (Routine (Stmt α))) (here : Setting) (p : Position)
    (i : Nat) (rest : List (Node α)), ((listMethods ms rest).filterMap Node.use?).Perm
      ((sitesMethods here p i ms).filterMap Site.use? ++ rest.filterMap Node.use?)
  | [], _, _, _, _ => .refl _
  | m :: more, here, p, i, rest => by
    rw [sitesMethods, List.filterMap_append, List.append_assoc]
    exact (uses_listRoutine m here _ _).trans ((uses_listMethods more here p _ rest).append_left _)

end

end Stmt

/-- **Every use of a name in a program is one of its sites.** -/
theorem Program.uses_perm (p : Program α) : (p.sites.filterMap Site.use?).Perm p.uses := by
  have h := Stmt.uses_listAll p {} [] 0 []
  rw [List.filterMap_nil, List.append_nil] at h
  exact h.symm

end TanLang
