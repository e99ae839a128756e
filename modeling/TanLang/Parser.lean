import TanLang.Token
/-!
# Parsers — reading a list of tokens

A parser takes the tokens ahead and answers with a value and the tokens
left, or gives up at the tokens it could not go on from. Both ways it may
have written complaints: **giving up always comes with one**, and some
complaints do not stop the parser. The end of the source is the empty list
of tokens, so a complaint there names no token.

Parsers that call each other carry a bound on how deep they may do so; a
parser whose bound runs out is `exhausted`, which is neither an answer nor
a refusal.
-/

namespace TanLang

/-- Whether a function is declared on its own or in a class. -/
inductive RoutineKind where
  /-- A function of its own. -/
  | function
  /-- A method of a class. -/
  | method
  deriving DecidableEq, Inhabited

/-- The word for it. -/
def RoutineKind.word : RoutineKind → String
  | function => "function"
  | method => "method"

namespace Parser

/-- What the parser objects to. -/
inductive Complaint where
  | expression
  | unaryPlus
  | invalidTarget
  | ternaryColon
  | propertyName
  | closingParen
  | argumentsEnd
  | tooManyArguments
  | className
  | superclassName
  | classBody
  | classEnd
  | routineName (kind : RoutineKind)
  | routineParams (kind : RoutineKind)
  | parameterName
  | parametersEnd
  | tooManyParameters
  | routineBody (kind : RoutineKind)
  | variableName
  | variableEnd
  | forStart
  | forCondition
  | forEnd
  | ifStart
  | ifEnd
  | whileStart
  | whileEnd
  | printEnd
  | returnEnd
  | blockEnd
  | expressionEnd
  deriving DecidableEq, Inhabited

/-- The most parameters a function may have and the most arguments a call
may pass. -/
def maxArguments : Nat := 255

/-- The wording of a complaint. -/
def Complaint.message : Complaint → String
  | expression => "Expect expression."
  | unaryPlus => "Unary '+' expressions are not supported."
  | invalidTarget => "Invalid assignment target."
  | ternaryColon => "Expect ':' after then branch of ternary expression."
  | propertyName => "Expect property name after '.'."
  | closingParen => "Expect ')' after expression."
  | argumentsEnd => "Expect ')' after arguments."
  | tooManyArguments => "Can't have more than 255 arguments."
  | className => "Expect class name."
  | superclassName => "Expect superclass name."
  | classBody => "Expect '\x7b' before class body."
  | classEnd => "Expect '\x7d' after class body."
  | routineName kind => "Expect " ++ kind.word ++ " name."
  | routineParams kind => "Expect '(' after " ++ kind.word ++ " name."
  | parameterName => "Expect parameter name."
  | parametersEnd => "Expect ')' after parameters."
  | tooManyParameters => "Can't have more than 255 parameters."
  | routineBody kind => "Expect '\x7b' before " ++ kind.word ++ " body."
  | variableName => "Expect variable name."
  | variableEnd => "Expect ';' after variable declaration."
  | forStart => "Expect '(' after 'for'."
  | forCondition => "Expect ';' after loop condition."
  | forEnd => "Expect ')' after for clauses."
  | ifStart => "Expect '(' after 'if'."
  | ifEnd => "Expect ')' after if condition."
  | whileStart => "Expect '(' after 'while'."
  | whileEnd => "Expect ')' after condition."
  | printEnd => "Expect ';' after value."
  | returnEnd => "Expect ';' after return value."
  | blockEnd => "Expect '\x7d' after block."
  | expressionEnd => "Expect ';' after expression."

/-- A complaint and the token it is about; none at the end of the source. -/
structure Issue where
  /-- The token complained about. -/
  token : Option Token
  /-- What is wrong. -/
  complaint : Complaint
  deriving DecidableEq, Inhabited

/-- The report of an issue, for a source whose end is on the line given. -/
def Issue.report (endLine : Int) (i : Issue) : Report :=
  match i.token with
  | some t => t.report (Text.ofString i.complaint.message)
  | none => ⟨endLine, none, Text.ofString i.complaint.message⟩

/-- What a parser answers. -/
inductive Outcome (α : Type) where
  /-- A value, the tokens left, and the issues on the way. -/
  | ok (value : α) (rest : List Token) (issues : List Issue)
  /-- No value; the tokens it gave up at, and the issues up to there. -/
  | failed (rest : List Token) (issues : List Issue)
  /-- The bound on nested calls ran out. -/
  | exhausted

/-- The outcome with earlier issues put in front. -/
@[inline]
def Outcome.after {α : Type} (earlier : List Issue) : Outcome α → Outcome α
  | ok value rest issues => .ok value rest (earlier ++ issues)
  | failed rest issues => .failed rest (earlier ++ issues)
  | exhausted => .exhausted

end Parser

/-- A parser of an `α`. -/
def Parser (α : Type) : Type := List Token → Parser.Outcome α

namespace Parser

variable {α β : Type}

/-- The parser that reads nothing. -/
@[always_inline, inline]
def result (a : α) : Parser α := fun tokens => .ok a tokens []

/-- One parser, and then another on what it left. -/
@[always_inline, inline]
def andThen (p : Parser α) (f : α → Parser β) : Parser β := fun tokens =>
  match p tokens with
  | .ok a rest issues => (f a rest).after issues
  | .failed rest issues => .failed rest issues
  | .exhausted => .exhausted

@[always_inline]
instance : Monad Parser where
  pure := result
  bind := andThen

/-- The parser whose bound has run out. -/
def stop : Parser α := fun _ => .exhausted

/-- **Giving up at the next token.** -/
def giveUp (c : Complaint) : Parser α := fun tokens => .failed tokens [⟨tokens.head?, c⟩]

/-- A complaint about a token that does not stop the parser. -/
def complain (t : Option Token) (c : Complaint) : Parser Unit := fun tokens =>
  .ok () tokens [⟨t, c⟩]

/-- The next token, which is left where it is. -/
def next : Parser (Option Token) := fun tokens => .ok tokens.head? tokens []

/-- The kind of the next token, which is left where it is. -/
def nextKind : Parser (Option Token.Kind) := fun tokens =>
  .ok (tokens.head?.map Token.kind) tokens []

/-- The next token, if its kind is wanted; otherwise it is left. -/
def acceptWhere (wanted : Token.Kind → Bool) : Parser (Option Token) := fun tokens =>
  match tokens with
  | [] => .ok none [] []
  | t :: rest => if wanted t.kind then .ok (some t) rest [] else .ok none tokens []

/-- The next token, if it is of a kind; otherwise it is left. -/
def accept (kind : Token.Kind) : Parser (Option Token) := acceptWhere (· == kind)

/-- The next token, which has to be of a kind. -/
def expect (kind : Token.Kind) (c : Complaint) : Parser Token := fun tokens =>
  match tokens with
  | [] => .failed [] [⟨none, c⟩]
  | t :: rest => if t.kind = kind then .ok t rest [] else .failed tokens [⟨some t, c⟩]

end Parser

end TanLang
