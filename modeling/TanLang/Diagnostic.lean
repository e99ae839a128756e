import TanLang.Text.Excerpt
/-!
# Diagnostics — what is reported, and what the reports add up to

A report is a line, the lexeme it points at if there is one, and a
message. Printed it is one line, followed by an excerpt of the source when
one is being shown. The tally remembers whether any report came from a
phase before execution and whether any came from execution, and counts
them; it is what decides a run's status.
-/

namespace TanLang

/-- One diagnostic. -/
structure Report where
  /-- The line it is about; zero if it is about none. -/
  line : Int
  /-- The lexeme it points at, unless that is the end of the source. -/
  lexeme : Option Text
  /-- What is wrong. -/
  message : Text
  deriving DecidableEq, Inhabited

namespace Report

/-- The clause that names the lexeme. -/
def clause (r : Report) : Text :=
  match r.lexeme with
  | some lexeme => Text.ofString " at '" ++ lexeme ++ Text.ofString "'"
  | none => []

/-- The report as one line of text. -/
def headline (r : Report) : Text :=
  Text.ofString "[line " ++ Text.ofInt r.line ++ Text.ofString "] Error" ++ r.clause
    ++ Text.ofString ": " ++ r.message ++ [Text.newline]

/-- **A report as printed**: its line, and below it the excerpt of the
source shown, if any source is. -/
def render (source : Text) (r : Report) : Text :=
  r.headline ++ (if source.isEmpty then [] else Text.excerpt source r.line)

end Report

/-- When a report was made. -/
inductive Phase where
  /-- Before execution: scanning, parsing or resolving. -/
  | compile
  /-- During execution. -/
  | runtime
  deriving DecidableEq, Inhabited

/-- What the reports so far add up to. -/
structure Tally where
  /-- Whether a report came from before execution. -/
  hadError : Bool := false
  /-- Whether a report came from execution. -/
  hadRuntimeError : Bool := false
  /-- How many reports there were. -/
  count : Nat := 0
  deriving DecidableEq, Inhabited

namespace Tally

/-- One more report. -/
def add (t : Tally) : Phase → Tally
  | .compile => { t with hadError := true, count := t.count + 1 }
  | .runtime => { t with hadRuntimeError := true, count := t.count + 1 }

/-- Several more reports of one phase. -/
def addAll (t : Tally) (phase : Phase) (reports : List Report) : Tally :=
  reports.foldl (fun t _ => t.add phase) t

end Tally

end TanLang
