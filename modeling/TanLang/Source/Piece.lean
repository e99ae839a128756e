import TanLang.Token
import TanLang.Text.Glyph
import TanLang.Decimal.Reading
/-!
# Source — the pieces it is cut into

A source is read once from front to back and cut into pieces: blanks,
comments, tokens, characters that start no token, and at most one string or
comment that is never closed. **Nothing is dropped silently**: each piece
keeps its bytes, in order they are the source again, and every piece that
is wrong says so. The tokens and the scanner's reports are read off the
pieces.
-/

namespace TanLang

namespace Source

/-- What the scanner objects to. -/
inductive Complaint where
  /-- A character that starts no token. -/
  | unexpected (raw : Text)
  /-- A string without its closing quote. -/
  | openString
  /-- A block comment without its closing mark. -/
  | openComment
  /-- A number beyond the largest float. -/
  | outOfRange (lexeme : Text)
  deriving DecidableEq, Inhabited

/-- The wording of a complaint. -/
def Complaint.message : Complaint → Text
  | unexpected raw => Text.ofString "Unexpected character '" ++ raw ++ Text.ofString "'."
  | openString => Text.ofString "Unterminated string."
  | openComment => Text.ofString "Unterminated block comment."
  | outOfRange lexeme => Text.ofString "Invalid number literal '" ++ lexeme ++ Text.ofString "'."

/-- A piece of source. -/
inductive Piece where
  /-- A blank or a line end. -/
  | blank (glyph : Glyph)
  /-- A comment, with its marks; a line comment stops before the line end. -/
  | comment (glyphs : List Glyph)
  /-- A token. -/
  | token (t : Token)
  /-- A character that starts no token, on its line. -/
  | stray (glyph : Glyph) (line : Int)
  /-- A string that is never closed, with the line it starts on. -/
  | openString (glyphs : List Glyph) (line : Int)
  /-- A block comment that is never closed, with the line it starts on. -/
  | openComment (glyphs : List Glyph) (line : Int)
  deriving DecidableEq, Inhabited

namespace Piece

/-- The bytes of the piece. -/
def text : Piece → Text
  | blank g => g.raw
  | comment gs => Text.ofGlyphs gs
  | token t => t.lexeme
  | stray g _ => g.raw
  | openString gs _ => Text.ofGlyphs gs
  | openComment gs _ => Text.ofGlyphs gs

/-- The token, if the piece is one. -/
def token? : Piece → Option Token
  | token t => some t
  | _ => none

/-- **What is wrong with the piece**, and the line that is reported for it.
A number out of range is a token all the same. -/
def complaint? : Piece → Option (Int × Complaint)
  | stray g line => some (line, .unexpected g.raw)
  | openString _ line => some (line, .openString)
  | openComment _ line => some (line, .openComment)
  | token t =>
    match t.literal with
    | .number x => if x.isInf then some (t.line, .outOfRange t.lexeme) else none
    | _ => none
  | _ => none

end Piece

/-! ## Cutting one piece -/

/-- A piece cut from the front of a source. -/
structure Cut where
  /-- The piece. -/
  piece : Piece
  /-- The line on which the source goes on. -/
  line : Int
  /-- How many glyphs the piece has after its first one. -/
  taken : Nat

/-- The kind of a token of one character, unless that character also starts
a token of two. -/
def punctuation : Char → Option Token.Kind
  | '+' => some .plus
  | '-' => some .minus
  | '*' => some .star
  | '/' => some .slash
  | '?' => some .question
  | ':' => some .colon
  | '.' => some .period
  | ',' => some .comma
  | ';' => some .semicolon
  | '(' => some .leftParen
  | ')' => some .rightParen
  | '\x7b' => some .leftBrace
  | '\x7d' => some .rightBrace
  | _ => none

/-- The kinds of a character alone and with an equals sign after it. -/
def comparison : Char → Option (Token.Kind × Token.Kind)
  | '=' => some (.assign, .equal)
  | '!' => some (.bang, .notEqual)
  | '<' => some (.less, .lessEqual)
  | '>' => some (.greater, .greaterEqual)
  | _ => none

/-- Whether a glyph is one of the blanks, the line end included. -/
def isBlank (c : Char) : Bool := c == ' ' || c == '\t' || c == '\r' || c == '\n'

/-- The line after a character. -/
def lineAfter (line : Int) (c : Char) : Int := if c = '\n' then line + 1 else line

/-- A token of the first glyph and the next `taken` ones, all on one line. -/
def plainToken (kind : Token.Kind) (literal : Literal) (line : Int) (g : Glyph)
    (rest : List Glyph) (taken : Nat) : Cut :=
  ⟨.token ⟨kind, Text.ofGlyphs (g :: rest.take taken), literal, line⟩, line, taken⟩

/-- How far a block comment goes after its opening mark, closing mark
included, and the line it ends on; nothing if it is never closed. -/
inductive CommentBody where
  /-- The comment is closed. -/
  | closed (taken : Nat) (line : Int)
  /-- The source ends first. -/
  | unclosed (line : Int)

/-- The end of a block comment. -/
def commentBody (line : Int) (taken : Nat) : List Glyph → CommentBody
  | [] => .unclosed line
  | g :: rest =>
    if g.char = '*' ∧ (rest.head?.map Glyph.char) = some '/' then .closed (taken + 2) line
    else commentBody (lineAfter line g.char) (taken + 1) rest

/-- How far a string goes after its opening quote, closing quote included,
the characters it stands for, and the line it ends on. -/
inductive StringBody where
  /-- The string is closed. -/
  | closed (taken : Nat) (value : List Char) (line : Int)
  /-- The source ends first. -/
  | unclosed (line : Int)

/-- What a backslash and the character after it stand for, in reverse: the
four escapes there are, and otherwise just the two characters. -/
def escape : Char → List Char
  | 'n' => ['\n']
  | 't' => ['\t']
  | '\\' => ['\\']
  | '"' => ['"']
  | c => [c, '\\']

/-- The end of a string. **Line ends count where they stand alone**; one
right after a backslash is part of the escape and does not. -/
def stringBody (line : Int) (taken : Nat) (reversed : List Char) : List Glyph → StringBody
  | [] => .unclosed line
  | g :: rest =>
    if g.char = '"' then .closed (taken + 1) reversed.reverse line
    else if g.char = '\\' then
      match rest with
      | [] => .unclosed line
      | e :: more => stringBody line (taken + 2) (escape e.char ++ reversed) more
    else stringBody (lineAfter line g.char) (taken + 1) (g.char :: reversed) rest

/-- A block comment or a line comment, after its first slash. -/
def cutComment (line : Int) (g : Glyph) (rest : List Glyph) (second : Char) : Cut :=
  if second = '/' then
    let taken := (rest.takeWhile fun g => g.char ≠ '\n').length
    ⟨.comment (g :: rest.take taken), line, taken⟩
  else
    match commentBody line 1 (rest.drop 1) with
    | .closed taken line => ⟨.comment (g :: rest.take taken), line, taken⟩
    | .unclosed last => ⟨.openComment (g :: rest) line, last, rest.length⟩

/-- A string, after its opening quote. It counts as standing on the line it
ends on. -/
def cutString (line : Int) (g : Glyph) (rest : List Glyph) : Cut :=
  match stringBody line 0 [] rest with
  | .closed taken value line =>
    plainToken .string (.string (Text.ofChars value)) line g rest taken
  | .unclosed last => ⟨.openString (g :: rest) line, last, rest.length⟩

/-- A word, after its first character. -/
def cutWord (line : Int) (g : Glyph) (rest : List Glyph) : Cut :=
  let taken := (rest.takeWhile fun g => Text.continuesWord g.char).length
  plainToken (Token.Kind.ofWord (Text.ofGlyphs (g :: rest.take taken))) .nil line g rest taken

/-- A number, after its first digit. **The point belongs to the number only
if a digit follows it.** -/
def cutNumber (line : Int) (g : Glyph) (rest : List Glyph) : Cut :=
  let whole := rest.takeWhile fun g => Text.isDigit g.char
  let fraction :=
    match rest.drop whole.length with
    | p :: more => if p.char = '.' then more.takeWhile fun g => Text.isDigit g.char else []
    | [] => []
  let taken := whole.length + (if fraction.isEmpty then 0 else fraction.length + 1)
  let value := Decimal.read (Text.ofGlyphs (g :: whole)) (Text.ofGlyphs fraction)
  plainToken .number (.number value) line g rest taken

/-- **The piece at the front of a source.** -/
def cut (line : Int) (g : Glyph) (rest : List Glyph) : Cut :=
  let next := rest.head?.map Glyph.char
  if isBlank g.char then ⟨.blank g, lineAfter line g.char, 0⟩
  else if g.char = '/' ∧ next = some '/' then cutComment line g rest '/'
  else if g.char = '/' ∧ next = some '*' then cutComment line g rest '*'
  else if g.char = '"' then cutString line g rest
  else
    match comparison g.char, punctuation g.char with
    | some (alone, paired), _ =>
      if next = some '=' then plainToken paired .nil line g rest 1
      else plainToken alone .nil line g rest 0
    | none, some kind => plainToken kind .nil line g rest 0
    | none, none =>
      if Text.startsWord g.char then cutWord line g rest
      else if Text.isDigit g.char then cutNumber line g rest
      else ⟨.stray g line, line, 0⟩

/-! ## Cutting the whole source -/

/-- The pieces of what follows the next `skip` glyphs, which belong to a
piece already cut. The last piece is the token that marks the end. -/
def piecesAfter : Nat → Int → List Glyph → List Piece
  | _, line, [] => [.token ⟨.eof, [], .nil, line⟩]
  | skip + 1, line, _ :: gs => piecesAfter skip line gs
  | 0, line, g :: gs =>
    let c := cut line g gs
    c.piece :: piecesAfter c.taken c.line gs

/-- The glyphs of a source: **the first NUL ends it.** -/
def body (src : Text) : List Glyph := src.glyphs.takeWhile fun g => g.char ≠ '\x00'

/-- The pieces of a source. -/
def pieces (src : Text) : List Piece := piecesAfter 0 1 (body src)

/-- The tokens of a source, the end mark last. -/
def tokens (src : Text) : List Token := (pieces src).filterMap Piece.token?

/-- The scanner's reports on a source, in order. -/
def reports (src : Text) : List Report :=
  ((pieces src).filterMap Piece.complaint?).map fun c => ⟨c.1, none, c.2.message⟩

end Source

end TanLang
