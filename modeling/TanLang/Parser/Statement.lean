import TanLang.Stmt
import TanLang.Parser.Expression
/-!
# Parsers — statements

Declarations, statements and blocks. **A declaration that fails is dropped
and parsing goes on**: the tokens up to the next likely start of a
declaration are skipped, so one mistake does not hide the next one.
-/

namespace TanLang

namespace Parser

/-- Whether a declaration or statement plausibly starts with the kind. -/
def startsStatement : Token.Kind → Bool
  | .classWord | .functionWord | .varWord | .forWord | .ifWord | .whileWord | .printWord
  | .returnWord => true
  | _ => false

/-- Skipping to the next likely start, after a token already skipped. -/
def skipAfter (last : Token) : List Token → List Token
  | [] => []
  | t :: rest =>
    if last.kind = .semicolon ∨ startsStatement t.kind then t :: rest else skipAfter t rest

/-- **Where parsing goes on after a failure** at the tokens given: the
offending token is skipped, and then all up to one that follows a semicolon
or that starts a statement. -/
def recover : List Token → List Token
  | [] => []
  | t :: rest => skipAfter t rest

/-- The parser that answers with nothing, and goes on after the failure, if
the given one fails. -/
def recovering {α : Type} (p : Parser α) : Parser (Option α) := fun tokens =>
  match p tokens with
  | .ok a rest issues => .ok (some a) rest issues
  | .failed rest issues => .ok none (recover rest) issues
  | .exhausted => .exhausted

/-- The parameters of a function after `count` of them. -/
def parameters : Nat → Nat → Parser (List Token)
  | 0, _ => stop
  | n + 1, count => do
    if maxArguments ≤ count then complain (← next) .tooManyParameters
    let param ← expect .identifier .parameterName
    match ← accept .comma with
    | none => return [param]
    | some _ =>
      let more ← parameters n (count + 1)
      return param :: more

/-- A variable declaration after its keyword. -/
def varDeclaration (n : Nat) : Parser (Stmt Unit) := do
  let name ← expect .identifier .variableName
  let initial ←
    match ← accept .assign with
    | some _ => some <$> assignment n
    | none => pure none
  let _ ← expect .semicolon .variableEnd
  return .varDecl name initial

/-- An expression and its semicolon. -/
def expressionStatement (n : Nat) : Parser (Stmt Unit) := do
  let e ← assignment n
  let _ ← expect .semicolon .expressionEnd
  return .expr e

/-- An expression, unless the next token is of a kind. -/
def expressionUnless (kind : Token.Kind) (n : Nat) : Parser (Option (Expr Unit)) := do
  if (← nextKind) = some kind then return none else some <$> assignment n

/-- A `print` after its keyword. -/
def printStatement (n : Nat) (keyword : Token) : Parser (Stmt Unit) := do
  let value ← assignment n
  let _ ← expect .semicolon .printEnd
  return .print keyword value

/-- A `return` after its keyword. -/
def returnStatement (n : Nat) (keyword : Token) : Parser (Stmt Unit) := do
  let value ← expressionUnless .semicolon n
  let _ ← expect .semicolon .returnEnd
  return .ret keyword value

/-- Whether the kind opens a statement that is not an expression. -/
def opensStatement : Token.Kind → Bool
  | .forWord | .ifWord | .printWord | .returnWord | .whileWord | .leftBrace => true
  | _ => false

/-- The first part of a `for` loop, up to its semicolon. -/
def forInitial (n : Nat) : Parser (Option (Stmt Unit)) := do
  match ← accept .semicolon with
  | some _ => return none
  | none =>
    match ← accept .varWord with
    | some _ => some <$> varDeclaration n
    | none => some <$> expressionStatement n

mutual

/-- A declaration, or nothing where it fails. -/
def declaration : Nat → Parser (Option (Stmt Unit))
  | 0 => stop
  | n + 1 => recovering (declared n)

/-- A declaration or statement. -/
def declared : Nat → Parser (Stmt Unit)
  | 0 => stop
  | n + 1 => do
    match ← accept .classWord with
    | some _ => classDeclaration n
    | none =>
      match ← accept .functionWord with
      | some _ => .function <$> routine n .function
      | none =>
        match ← accept .varWord with
        | some _ => varDeclaration n
        | none => statement n

/-- A class after its keyword. -/
def classDeclaration : Nat → Parser (Stmt Unit)
  | 0 => stop
  | n + 1 => do
    let name ← expect .identifier .className
    let superclass ←
      match ← accept .less with
      | some _ => some <$> expect .identifier .superclassName
      | none => pure none
    let _ ← expect .leftBrace .classBody
    let methods ← methods n
    let _ ← expect .rightBrace .classEnd
    return .classDecl name (superclass.map fun t => (t, ())) methods

/-- The methods of a class, up to its closing brace or the end. -/
def methods : Nat → Parser (List (Routine (Stmt Unit)))
  | 0 => stop
  | n + 1 => do
    let kind ← nextKind
    if kind = none ∨ kind = some .rightBrace then return []
    else
      let method ← routine n .method
      let more ← methods n
      return method :: more

/-- A function from its name on. -/
def routine : Nat → RoutineKind → Parser (Routine (Stmt Unit))
  | 0, _ => stop
  | n + 1, kind => do
    let name ← expect .identifier (.routineName kind)
    let _ ← expect .leftParen (.routineParams kind)
    let params ← if (← nextKind) = some .rightParen then pure [] else parameters n 0
    let _ ← expect .rightParen .parametersEnd
    let _ ← expect .leftBrace (.routineBody kind)
    let body ← blockBody n
    return ⟨name, params, body⟩

/-- The declarations of a block and its closing brace. -/
def blockBody : Nat → Parser (List (Stmt Unit))
  | 0 => stop
  | n + 1 => do
    let body ← declarations n (some .rightBrace)
    let _ ← expect .rightBrace .blockEnd
    return body

/-- Declarations up to the end, or up to a token of a closing kind. -/
def declarations : Nat → Option Token.Kind → Parser (List (Stmt Unit))
  | 0, _ => stop
  | n + 1, closing => do
    let kind ← nextKind
    if kind = none ∨ kind = closing then return []
    else
      let first ← declaration n
      let more ← declarations n closing
      return first.toList ++ more

/-- A statement. -/
def statement : Nat → Parser (Stmt Unit)
  | 0 => stop
  | n + 1 => do
    match ← acceptWhere opensStatement with
    | none => expressionStatement n
    | some opening =>
      match opening.kind with
      | .forWord => forStatement n opening
      | .ifWord => ifStatement n opening
      | .printWord => printStatement n opening
      | .returnWord => returnStatement n opening
      | .whileWord => whileStatement n opening
      | _ => .block opening <$> blockBody n

/-- A `for` loop after its keyword. -/
def forStatement : Nat → Token → Parser (Stmt Unit)
  | 0, _ => stop
  | n + 1, keyword => do
    let _ ← expect .leftParen .forStart
    let initial ← forInitial n
    let cond ← expressionUnless .semicolon n
    let _ ← expect .semicolon .forCondition
    let step ← expressionUnless .rightParen n
    let _ ← expect .rightParen .forEnd
    match ← accept .semicolon with
    | some _ => return .forLoop keyword initial cond step none
    | none =>
      let body ← statement n
      return .forLoop keyword initial cond step (some body)

/-- An `if` after its keyword; an `else` belongs to the nearest `if` that is
open. -/
def ifStatement : Nat → Token → Parser (Stmt Unit)
  | 0, _ => stop
  | n + 1, keyword => do
    let _ ← expect .leftParen .ifStart
    let cond ← assignment n
    let _ ← expect .rightParen .ifEnd
    let yes ← statement n
    match ← accept .elseWord with
    | some _ =>
      let no ← statement n
      return .branch keyword cond yes (some no)
    | none => return .branch keyword cond yes none

/-- A `while` loop after its keyword. -/
def whileStatement : Nat → Token → Parser (Stmt Unit)
  | 0, _ => stop
  | n + 1, keyword => do
    let _ ← expect .leftParen .whileStart
    let cond ← assignment n
    let _ ← expect .rightParen .whileEnd
    let body ← statement n
    return .loop keyword cond (some body)

end

end Parser

end TanLang
