import TanLang.Settings.Scalar
/-!
# Settings — the characters of a YAML file

A file is in UTF-8, or in UTF-16 if a byte order mark says so. Only some
characters may stand in it. Carriage returns, alone or before a line feed,
and next-line characters end lines just like line feeds, and are line
feeds from here on.
-/

namespace TanLang

namespace Settings

namespace Yaml

/-- Whether a character may stand in a file. -/
def isAllowed (c : Char) : Bool :=
  c == '\t' || c == '\n' || c == '\r' || (' ' ≤ c && c ≤ '~') || c == '\u0085'
    || ('\u00A0' ≤ c && c ≤ '\uD7FF') || ('\uE000' ≤ c && c ≤ '\uFFFD') || 0x10000 ≤ c.toNat

/-- The numbers that pairs of bytes make up, the first byte of a pair being
the high one or not. -/
def units (highFirst : Bool) : Text → Option (List Nat)
  | [] => some []
  | [_] => none
  | a :: b :: rest =>
    let unit := if highFirst then a.toNat * 256 + b.toNat else b.toNat * 256 + a.toNat
    (units highFirst rest).map (unit :: ·)

/-- The characters that units of UTF-16 spell. -/
def charsOfUnits : List Nat → Option (List Char)
  | [] => some []
  | u :: rest =>
    if 0xDC00 ≤ u ∧ u ≤ 0xDFFF then none
    else if 0xD800 ≤ u ∧ u ≤ 0xDBFF then
      match rest with
      | [] => none
      | v :: rest =>
        if 0xDC00 ≤ v ∧ v ≤ 0xDFFF then
          (charsOfUnits rest).map
            (Char.ofNat (0x10000 + (u - 0xD800) * 1024 + (v - 0xDC00)) :: ·)
        else none
    else (charsOfUnits rest).map (Char.ofNat u :: ·)

/-- The characters of a file, by the encoding that its first bytes mark. -/
def decoded : Text → Option (List Char)
  | 0xFF :: 0xFE :: rest => (units false rest).bind charsOfUnits
  | 0xFE :: 0xFF :: rest => (units true rest).bind charsOfUnits
  | 0xEF :: 0xBB :: 0xBF :: rest => charsOf rest
  | file => charsOf file

/-- Characters with every line end a single character. -/
def withPlainBreaks : List Char → List Char
  | [] => []
  | '\r' :: '\n' :: rest => '\n' :: withPlainBreaks rest
  | c :: rest => (if c = '\r' ∨ c = '\u0085' then '\n' else c) :: withPlainBreaks rest

/-- **The characters of a file**; nothing if it is in no encoding, or holds
a character that may not stand in it. -/
def characters (file : Text) : Option (List Char) :=
  match decoded file with
  | none => none
  | some cs => if cs.all isAllowed then some (withPlainBreaks cs) else none

end Yaml

end Settings

end TanLang
