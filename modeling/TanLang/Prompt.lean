import TanLang.Session
/-!
# The prompt — a session line by line

Each line of the input is a unit of its own, and the record of errors is
cleared after each. A prompt is printed before every line and once more at
the end of the input, where a line end follows it. A line of more than
65535 bytes ends the input early.
-/

namespace TanLang

namespace Prompt

/-- The prompt. -/
def prompt : Text := Text.ofString "tan> "

/-- The most bytes a line may have. -/
def maxLineLength : Nat := 65535

/-- The lines of an input as they stand: what follows the last line end is
a line only if it is not empty. -/
def rawLines (input : Text) : List Text :=
  let parts := Text.splitOn Text.newline input
  if parts.getLast? = some [] then parts.dropLast else parts

/-- **The lines that are run**: those before the first that is too long,
each without one carriage return at its end. -/
def linesOf (input : Text) : List Text :=
  ((rawLines input).takeWhile fun line => line.length ≤ maxLineLength).map (Text.dropLast? 13)

/-- One line run. -/
def step (s : Session) (line : Text) : Session × UnitRun :=
  let (s, u) := s.run line
  (s.reset, u)

/-- Lines run one after the other. -/
def runLines (s : Session) : List Text → List UnitRun
  | [] => []
  | line :: rest =>
    let (s, u) := step s line
    u :: runLines s rest

/-- What a dialogue prints: a prompt before each unit's output, and a last
one. -/
def transcript (units : List UnitRun) : Text :=
  (units.flatMap fun u => prompt ++ u.output) ++ prompt ++ [Text.newline]

end Prompt

end TanLang
