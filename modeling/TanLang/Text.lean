/-!
# Text — sequences of bytes

Everything the language reads and prints is bytes: source files may hold
bytes that are no character at all, and they come back unchanged in
lexemes and in messages. This file fixes `Text` as a list of bytes and
gives the few operations the rest of the library needs: literals from
strings, numbers in decimal and hexadecimal, joining, and splitting at a
separator byte.
-/

namespace TanLang

/-- **Text is a sequence of bytes**, not of characters. -/
abbrev Text := List UInt8

namespace Text

/-- The bytes of a string in UTF-8. -/
def ofString (s : String) : Text := s.toUTF8.data.toList

/-- The bytes of a string in front of a text. -/
def put (s : String) (rest : Text) : Text := ofString s ++ rest

/-- A string where text is expected stands for its bytes. -/
instance : Coe String Text := ⟨ofString⟩

/-- The bytes of one character in UTF-8. -/
def ofChar (c : Char) : Text := String.utf8EncodeChar c

/-- A natural number in decimal. -/
def ofNat (n : Nat) : Text := ofString (toString n)

/-- An integer in decimal, with a sign only when it is negative. -/
def ofInt (n : Int) : Text := ofString (toString n)

/-- One hexadecimal digit, in lower case. -/
def hexDigit (n : Nat) : UInt8 :=
  if n % 16 < 10 then UInt8.ofNat (48 + n % 16) else UInt8.ofNat (87 + n % 16)

/-- The last `width` hexadecimal digits of a number, in lower case. -/
def hex : Nat → Nat → Text
  | 0, _ => []
  | width + 1, n => hex width (n / 16) ++ [hexDigit n]

/-- Text put between the members of a list of texts. -/
def join (sep : Text) : List Text → Text
  | [] => []
  | [t] => t
  | t :: ts => t ++ sep ++ join sep ts

/-- **Splitting at a byte.** There is always one more part than there are
separators, so the empty text has one empty part. -/
def splitOn (sep : UInt8) : Text → List Text
  | [] => [[]]
  | b :: bs =>
    if b = sep then [] :: splitOn sep bs
    else
      match splitOn sep bs with
      | [] => [[b]]
      | part :: parts => (b :: part) :: parts

/-- Text with one final byte dropped, if that byte is the one given. -/
def dropLast? (b : UInt8) (t : Text) : Text :=
  if t.getLast? = some b then t.dropLast else t

/-- Text filled up with blanks on the left to a width. -/
def padLeft (width : Nat) (t : Text) : Text :=
  List.replicate (width - t.length) 32 ++ t

/-- The byte order of texts: a proper beginning comes first. -/
def before : Text → Text → Bool
  | [], _ => true
  | _ :: _, [] => false
  | a :: as, b :: bs => a < b || (a == b && before as bs)

/-- The line feed byte. -/
def newline : UInt8 := 10

end Text

end TanLang
