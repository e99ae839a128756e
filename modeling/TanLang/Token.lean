import TanLang.Diagnostic
import TanLang.Text.Quoted
import TanLang.Decimal.Notation
/-!
# Tokens

A token is a kind, the bytes it was written with, the value it stands for
if it is a literal, and the line it ends on. Words are told apart by a
table: a word in the table is a keyword, every other word an identifier.
-/

namespace TanLang

/-- The value a literal stands for. -/
inductive Literal where
  /-- No value. -/
  | nil
  /-- A truth value. -/
  | bool (b : Bool)
  /-- A number. -/
  | number (x : Float)
  /-- A string. -/
  | string (s : Text)
  deriving DecidableEq, Inhabited

namespace Literal

/-- The literal as the tree printer shows it: numbers positionally, strings
quoted. -/
def text : Literal → Text
  | nil => Text.ofString "nil"
  | bool b => Text.ofString (if b then "true" else "false")
  | number x => Decimal.write Decimal.positional x
  | string s => Text.quote s

end Literal

namespace Token

/-- The kinds of token. -/
inductive Kind where
  | illegal | eof
  | identifier | number | string
  | assign | plus | minus | bang | star | slash
  | less | lessEqual | greater | greaterEqual | equal | notEqual
  | question | colon | period | comma | semicolon
  | leftParen | rightParen | leftBrace | rightBrace
  | andWord | orWord | classWord | elseWord | falseWord | forWord | functionWord | ifWord
  | nilWord | printWord | returnWord | superWord | thisWord | trueWord | varWord | whileWord
  deriving DecidableEq, Inhabited

namespace Kind

/-- The name a kind is listed under. -/
def name : Kind → String
  | illegal => "ILLEGAL" | eof => "EOF"
  | identifier => "IDENT" | number => "NUMBER" | string => "STRING"
  | assign => "=" | plus => "+" | minus => "-" | bang => "!" | star => "*" | slash => "/"
  | less => "<" | lessEqual => "<=" | greater => ">" | greaterEqual => ">="
  | equal => "==" | notEqual => "!="
  | question => "?" | colon => ":" | period => "." | comma => "," | semicolon => ";"
  | leftParen => "(" | rightParen => ")" | leftBrace => "\x7b" | rightBrace => "\x7d"
  | andWord => "AND" | orWord => "OR" | classWord => "CLASS" | elseWord => "ELSE"
  | falseWord => "FALSE" | forWord => "FOR" | functionWord => "FUNCTION" | ifWord => "IF"
  | nilWord => "NIL" | printWord => "PRINT" | returnWord => "RETURN" | superWord => "SUPER"
  | thisWord => "THIS" | trueWord => "TRUE" | varWord => "VAR" | whileWord => "WHILE"

/-- Every kind. -/
def all : List Kind :=
  [illegal, eof, identifier, number, string, assign, plus, minus, bang, star, slash, less,
    lessEqual, greater, greaterEqual, equal, notEqual, question, colon, period, comma, semicolon,
    leftParen, rightParen, leftBrace, rightBrace, andWord, orWord, classWord, elseWord, falseWord,
    forWord, functionWord, ifWord, nilWord, printWord, returnWord, superWord, thisWord, trueWord,
    varWord, whileWord]

/-- The kind listed under a name; a name of no kind belongs to an illegal
token. -/
def ofName (name : String) : Kind :=
  (all.find? fun k => k.name == name).getD .illegal

/-- The reserved words. -/
def keywords : List (String × Kind) :=
  [("nil", nilWord), ("true", trueWord), ("false", falseWord), ("var", varWord),
    ("function", functionWord), ("class", classWord), ("this", thisWord), ("super", superWord),
    ("if", ifWord), ("else", elseWord), ("while", whileWord), ("for", forWord),
    ("return", returnWord), ("and", andWord), ("or", orWord), ("print", printWord)]

/-- **The kind of a word**: its keyword, or an identifier. -/
def ofWord (word : Text) : Kind :=
  match keywords.find? fun k => Text.ofString k.1 == word with
  | some k => k.2
  | none => .identifier

end Kind

end Token

/-- One token of a program. -/
structure Token where
  /-- What kind of token it is. -/
  kind : Token.Kind
  /-- The bytes it was written with. -/
  lexeme : Text
  /-- The value it stands for, if it is a number or a string. -/
  literal : Literal := .nil
  /-- The line it ends on. -/
  line : Int
  deriving DecidableEq, Inhabited

namespace Token

/-- The literal as a token listing shows it: strings as they are, numbers
with an exponent where they are large or small. -/
def literalText : Literal → Option Text
  | .nil => none
  | .bool b => some (Text.ofString (if b then "true" else "false"))
  | .number x => some (Decimal.write Decimal.compact x)
  | .string s => some s

/-- A token as a listing shows it. -/
def listing (t : Token) : Text :=
  Text.ofString t.kind.name ++ Text.ofString " " ++ Text.quote t.lexeme
    ++ (match literalText t.literal with
        | some text => Text.ofString " " ++ text
        | none => [])
    ++ Text.ofString " (line " ++ Text.ofInt t.line ++ Text.ofString ")"

/-- The lexeme a report about the token shows: none at the end of the
source. -/
def shown (t : Token) : Option Text :=
  if t.kind = .eof then none else some t.lexeme

/-- A report that points at the token. -/
def report (t : Token) (message : Text) : Report := ⟨t.line, t.shown, message⟩

end Token

end TanLang
