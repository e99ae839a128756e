import TanLang.Text
/-!
# Files — what can go wrong with a path
-/

namespace TanLang

namespace Files

/-- Why something cannot be done at a path. -/
inductive Problem where
  /-- There is nothing. -/
  | missing
  /-- A file stands where a directory has to be. -/
  | notDirectory
  /-- A directory stands where a file has to be. -/
  | isDirectory
  /-- Something is there already. -/
  | occupied
  /-- The path, or one of its parts, is too long. -/
  | tooLong
  /-- The path holds a zero byte. -/
  | invalid
  /-- It is not allowed. -/
  | denied
  deriving DecidableEq, Inhabited

/-- The wording of a problem. -/
def Problem.message : Problem → String
  | missing => "no such file or directory"
  | notDirectory => "not a directory"
  | isDirectory => "is a directory"
  | occupied => "file exists"
  | tooLong => "file name too long"
  | invalid => "invalid argument"
  | denied => "permission denied"

/-- What was to be done at a path. -/
inductive Deed where
  | opening | reading | makingDirectory
  deriving DecidableEq, Inhabited

/-- The word for a deed. -/
def Deed.word : Deed → String
  | opening => "open"
  | reading => "read"
  | makingDirectory => "mkdir"

/-- **Something that could not be done at a path, and why.** -/
structure Failure where
  /-- What was to be done. -/
  deed : Deed
  /-- The path, as it was given. -/
  path : Text
  /-- Why it could not be done. -/
  problem : Problem
  deriving DecidableEq, Inhabited

/-- The wording of a failure. -/
def Failure.message (f : Failure) : Text :=
  Text.ofString f.deed.word ++ Text.ofString " " ++ f.path ++ Text.ofString ": "
    ++ Text.ofString f.problem.message

end Files

end TanLang
