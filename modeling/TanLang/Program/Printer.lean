import TanLang.Program
/-!
# Programs — printing the tree

Expressions are written in prefix form with parentheses, operators by their
lexemes; statements nearly as in a source, on one line. What is written
goes in front of a text that is there already, so that no part of it is
copied for the sake of what it is a part of.
-/

namespace TanLang

variable {α : Type}

open Text (put)

namespace Expr

mutual

/-- An expression in prefix form, in front of a text. -/
def write : Expr α → Text → Text
  | literal _ value, rest => value.text ++ rest
  | grouping _ inner, rest => put "(group " (write inner (put ")" rest))
  | unary op operand, rest =>
    put "(" (op.lexeme ++ put " " (write operand (put ")" rest)))
  | binary left op right, rest =>
    put "(" (op.lexeme ++ put " " (write left (put " " (write right (put ")" rest)))))
  | ternary cond _ yes no, rest =>
    put "(?: " (write cond (put " " (write yes (put " " (write no (put ")" rest))))))
  | logical left op right, rest =>
    put "(" (op.lexeme ++ put " " (write left (put " " (write right (put ")" rest)))))
  | var name _, rest => name.lexeme ++ rest
  | assign name _ value, rest =>
    put "(= " (name.lexeme ++ put " " (write value (put ")" rest)))
  | call callee _ args, rest => put "(call " (write callee (writeArgs args (put ")" rest)))
  | get object name, rest =>
    put "(. " (write object (put " " (name.lexeme ++ put ")" rest)))
  | set object name value, rest =>
    put "(.= " (write object (put " " (name.lexeme ++ put " " (write value (put ")" rest)))))
  | receiver _ _, rest => put "this" rest

/-- Arguments, each after a blank, in front of a text. -/
def writeArgs : List (Expr α) → Text → Text
  | [], rest => rest
  | e :: more, rest => put " " (write e (writeArgs more rest))

end

/-- **An expression in prefix form.** -/
def text (e : Expr α) : Text := e.write []

/-- An expression that may be missing, in front of a text. -/
def writeOption : Option (Expr α) → Text → Text
  | none, rest => rest
  | some e, rest => e.write rest

end Expr

namespace Stmt

/-- The names of parameters. -/
def paramsText (params : List Token) : Text :=
  Text.join (Text.ofString ", ") (params.map Token.lexeme)

mutual

/-- A statement on one line, in front of a text. -/
def write : Stmt α → Text → Text
  | block _ body, rest => put "\x7b " (writeBody body (put "\x7d" rest))
  | expr e, rest => e.write (put ";" rest)
  | print _ value, rest => put "print " (value.write (put ";" rest))
  | varDecl name none, rest => put "var " (name.lexeme ++ put ";" rest)
  | varDecl name (some initial), rest =>
    put "var " (name.lexeme ++ put " = " (initial.write (put ";" rest)))
  | branch _ cond yes none, rest => put "if " (cond.write (put " " (write yes rest)))
  | branch _ cond yes (some no), rest =>
    put "if " (cond.write (put " " (write yes (put " else " (write no rest)))))
  | loop _ cond body, rest => put "while " (cond.write (put " " (writeOption body rest)))
  | forLoop _ initial cond step body, rest =>
    put "for (" (writeOption initial (put " " (Expr.writeOption cond (put "; "
      (Expr.writeOption step (put ") " (writeOption body rest)))))))
  | function decl, rest => put "function " (writeRoutine decl rest)
  | ret _ none, rest => put "return;" rest
  | ret _ (some value), rest => put "return " (value.write (put ";" rest))
  | classDecl name none methods, rest =>
    put "class " (name.lexeme ++ put " \x7b " (writeMethods methods (put "\x7d" rest)))
  | classDecl name (some superclass) methods, rest =>
    put "class " (name.lexeme ++ put " < " (superclass.1.lexeme
      ++ put " \x7b " (writeMethods methods (put "\x7d" rest))))

/-- Statements, each with a blank after it, in front of a text. -/
def writeBody : List (Stmt α) → Text → Text
  | [], rest => rest
  | s :: more, rest => write s (put " " (writeBody more rest))

/-- A statement, or a semicolon where it is missing, in front of a text. -/
def writeOption : Option (Stmt α) → Text → Text
  | none, rest => put ";" rest
  | some s, rest => write s rest

/-- A function from its name on, in front of a text. -/
def writeRoutine : Routine (Stmt α) → Text → Text
  | ⟨name, params, body⟩, rest =>
    name.lexeme ++ put "(" (paramsText params
      ++ put ") \x7b " (writeBody body (put "\x7d" rest)))

/-- Methods, each with a blank after it, in front of a text. -/
def writeMethods : List (Routine (Stmt α)) → Text → Text
  | [], rest => rest
  | m :: more, rest => writeRoutine m (put " " (writeMethods more rest))

end

/-- **A statement on one line.** -/
def text (s : Stmt α) : Text := s.write []

end Stmt

end TanLang
