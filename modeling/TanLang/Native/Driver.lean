import TanLang.Native.Clock
/-!
# Natives — database drivers

The drivers are not part of this library. They are asked to open a database,
to reach it, to run statements and queries in it and to close it, and answer
with what was found or with a message. **Nothing is assumed of the answers**:
they may depend in any way on all that the drivers were asked before.
-/

namespace TanLang

/-- A database that was opened. -/
structure Database where
  /-- Its place among all that the drivers were asked. -/
  index : Nat
  /-- The driver it was opened with. -/
  driver : Text
  deriving DecidableEq, Inhabited

/-- What drivers are asked. -/
inductive Request where
  /-- To open the database that goes by a name. -/
  | open (driver name : Text)
  /-- To use a database for one thing at a time. -/
  | limit (db : Database)
  /-- To reach a database. -/
  | ping (db : Database)
  /-- To run a statement. -/
  | exec (db : Database) (sql : Text)
  /-- To run a query. -/
  | query (db : Database) (sql : Text)
  /-- To close a database. -/
  | close (db : Database)
  deriving DecidableEq, Inhabited

/-- A value in a database. -/
inductive Cell where
  /-- No value. -/
  | null
  /-- A whole number. -/
  | int (n : Int)
  /-- A number. -/
  | float (x : Float)
  /-- Bytes or a string. -/
  | text (t : Text)
  /-- A truth value. -/
  | bool (b : Bool)
  /-- A moment, as seen from a place so many seconds ahead of universal time. -/
  | time (t : Instant) (offset : Int)
  /-- Anything else, as it is written. -/
  | other (shown : Text)
  deriving Inhabited

/-- What a query found. -/
inductive Rows where
  /-- Nothing, and no problem. -/
  | none
  /-- Nothing, for this problem. -/
  | broken (problem : Text)
  /-- A first row, unless there is a problem with reading it. -/
  | first (row : Except Text (List Cell))
  deriving Inhabited

/-- What drivers reply to a request; a text is a problem. -/
def Request.Reply : Request → Type
  | .open _ _ | .ping _ | .close _ => Except Text Unit
  | .limit _ => Unit
  | .exec _ _ => Except Text Int
  | .query _ _ => Except Text Rows

/-- **The drivers**: what they reply to a request, given those made before it,
the last one first. -/
def Drivers : Type := List Request → (r : Request) → r.Reply

namespace Drivers

/-- The drivers that can be named. -/
def names : List String := ["sqlite3", "mysql", "postgres"]

/-- Why a database cannot be reached by a program without drivers. -/
def absence (driver : Text) : Text :=
  if driver = Text.ofString "sqlite3" then
    Text.ofString ("Binary was compiled with 'CGO_ENABLED=0', " ++
      "go-sqlite3 requires cgo to work. This is a stub")
  else Text.ofString "connection refused"

/-- Drivers that reach no database. -/
def unlinked : Drivers := fun _ r =>
  match r with
  | .open driver name =>
    if driver = Text.ofString "mysql" ∧ name ≠ [] ∧ ¬name.contains 47 then
      .error (Text.ofString "invalid DSN: missing the slash separating the database name")
    else .ok ()
  | .limit _ => ()
  | .ping db => .error (absence db.driver)
  | .exec db _ => .error (absence db.driver)
  | .query db _ => .error (absence db.driver)
  | .close _ => .ok ()

end Drivers

end TanLang
