import TanLang.Text
/-!
# Text — source excerpts

The lines around a place in a source: the line itself, marked, after up to
two lines before it, each with its number. Lines count from one, and a
single line feed at the very end of the source starts no further line. A
line outside the source has no excerpt.
-/

namespace TanLang

namespace Text

/-- The lines of a source. -/
def lines (src : Text) : List Text := splitOn newline (dropLast? newline src)

/-- One line of an excerpt: a mark or blanks, the line's number in at least
three columns, and the line. -/
def excerptLine (marked : Bool) (number : Nat) (line : Text) : Text :=
  ofString (if marked then "  >  " else "     ") ++ padLeft 3 (ofNat number)
    ++ ofString " | " ++ line ++ [newline]

/-- **The excerpt around a line**: that line, marked, after the two lines
before it, or as many as there are. -/
def excerpt (src : Text) (line : Int) : Text :=
  if line < 1 ∨ (lines src).length < line then []
  else
    (((lines src).zipIdx 1).filter fun l => line - 2 ≤ l.2 && (l.2 : Int) ≤ line).flatMap
      fun l => excerptLine (l.2 == line.toNat) l.2 l.1

end Text

end TanLang
