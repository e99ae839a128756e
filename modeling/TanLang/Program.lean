import TanLang.Parser.Statement
import TanLang.Source.Piece
/-!
# Programs — from tokens to statements

A program is read from a list of tokens up to the first end mark; a list
without one ends where its last token stands. **Reading never fails**: it
answers with every declaration that could be read and with the issues of
the others.
-/

namespace TanLang

/-- A program whose uses of names are marked with an `α`. -/
abbrev Program (α : Type) := List (Stmt α)

namespace Program

/-- What reading a program gives. -/
structure Reading where
  /-- The declarations that could be read, in order. -/
  program : Program Unit
  /-- What is wrong with the others, in order. -/
  issues : List Parser.Issue

/-- The tokens before the first end mark. -/
def ahead (tokens : List Token) : List Token := tokens.takeWhile fun t => t.kind ≠ .eof

/-- The line on which the tokens end. -/
def endLine (tokens : List Token) : Int :=
  match tokens.find? fun t => t.kind = .eof with
  | some t => t.line
  | none => (tokens.getLast?.map Token.line).getD 1

/-- How many tokens there are, with the end mark that is supplied where the
list does not end in one. -/
def tokenCount (tokens : List Token) : Nat :=
  if (tokens.getLast?.map Token.kind) = some .eof then tokens.length else tokens.length + 1

/-- A bound on how deep the parsers of so many tokens call each other: there
are fewer of them between two tokens read. -/
def depthBound (tokens : Nat) : Nat := 32 * (tokens + 1)

/-- **Reading a program**, its `for` loops as they are written. -/
def read (tokens : List Token) : Reading :=
  match Parser.declarations (depthBound (ahead tokens).length) none (ahead tokens) with
  | .ok program _ issues => ⟨program, issues⟩
  | .failed _ issues => ⟨[], issues⟩
  | .exhausted => ⟨[], []⟩

/-- The program that tokens spell, its `for` loops written out. -/
def ofTokens (tokens : List Token) : Program Unit := Stmt.desugarAll (read tokens).program

/-- The reports on a list of tokens. -/
def reports (tokens : List Token) : List Report :=
  (read tokens).issues.map (Parser.Issue.report (endLine tokens))

end Program

end TanLang
