import TanLang.Native
/-!
# Natives — databases

Four natives open a database, run a statement or a query in it, and close
it again. A database that is open goes by a handle, a whole number that is
given out once. The natives check their arguments from left to right, a
handle together with what it stands for, and only then ask the drivers.
**They answer with numbers, strings and truth values, whatever the drivers
reply.**
-/

namespace TanLang

/-- A value of a database as a value of the program. -/
def Cell.value : Cell → Value
  | null => .nil
  | int n => .number (Float.ofInt n)
  | float x => .number x
  | text t => .string t
  | bool b => .bool b
  | time t offset => .string (t.text offset)
  | other shown => .string shown

namespace Native

/-- **What a native does with the registry**: it comes to something or fails
with a message, and what it has changed until then stays changed. -/
abbrev Procedure (α : Type) : Type := ExceptT Text (StateM Registry) α

/-- The native that follows a procedure. -/
def ofProcedure (name : String) (arity : Nat) (p : List Argument → Procedure Value) : Native where
  name := Text.ofString name
  arity := arity
  run w args := ((p args).run.run w.registry).1
  leaves w args := ((p args).run.run w.registry).2

variable {α : Type}

/-- A failure with a message that starts with the native's name. -/
def failure (native : String) (message : Text) : Procedure α :=
  throw (Text.ofString native ++ Text.ofString ": " ++ message)

/-- What drivers found, or a failure with what they said. -/
def found (native : String) : Except Text α → Procedure α
  | .ok a => return a
  | .error problem => failure native problem

/-- A request to the drivers. -/
def ask (drivers : Drivers) (r : Request) : Procedure r.Reply := do
  let registry ← get
  set { registry with requests := r :: registry.requests }
  return drivers registry.requests r

/-- A log record. -/
def note (r : Log.Record) : Procedure Unit :=
  modify fun registry => { registry with records := r :: registry.records }

/-- An argument that has to be a string. -/
def stringArgument (native what : String) (arg : Option Argument) : Procedure Text :=
  match arg with
  | some ⟨.string s, _⟩ => return s
  | _ => failure native (Text.ofString what ++ Text.ofString " must be a string.")

/-- The 64-bit integer a whole float stands for; the least one if it stands
for none in range. -/
def wholeNumber (x : Float) : Int :=
  if -9223372036854775808 ≤ x ∧ x < 9223372036854775808 then x.toInt64.toInt
  else -9223372036854775808

/-- The number part of a float toward zero. -/
def truncated (x : Float) : Float := if x < 0 then x.ceil else x.floor

/-- An argument that has to be a handle, which is a whole number. -/
def handleArgument (native : String) (arg : Option Argument) : Procedure Int :=
  match arg with
  | some ⟨.number x, _⟩ =>
    if x == truncated x then return wholeNumber x
    else failure native (Text.ofString "handle must be an integer.")
  | _ => failure native (Text.ofString "handle must be an integer.")

/-- The database that is open under a handle. -/
def databaseOf (native : String) (handle : Int) : Procedure Database := do
  match (← get).connections.lookup handle with
  | some db => return db
  | none =>
    failure native (Text.ofString "invalid handle " ++ Text.ofInt handle ++ Text.ofString ".")

/-- A handle is no longer in use. -/
def release (handle : Int) : Procedure Unit :=
  modify fun registry =>
    { registry with connections := registry.connections.filter fun c => c.1 != handle }

/-- **A new handle for a database.** Handles are counted in 64 bits. -/
def register (db : Database) : Procedure Int := do
  let handle := ((← get).lastHandle + 1).bmod Integer.wordCount
  release handle
  modify fun registry =>
    { registry with lastHandle := handle, connections := (handle, db) :: registry.connections }
  return handle

/-- A driver that can be named, or a failure. -/
def supported (driver : Text) : Procedure Unit :=
  if Drivers.names.any fun name => Text.ofString name == driver then return ()
  else failure "dbOpen" (Text.ofString "unsupported driver '" ++ driver ++ Text.ofString "'.")

/-- A database that was opened is reached, or it is closed at once. -/
def reach (drivers : Drivers) (db : Database) : Procedure Unit := do
  if db.driver = Text.ofString "sqlite3" then
    ask drivers (.limit db)
  match ← ask drivers (.ping db) with
  | .ok () => return ()
  | .error problem =>
    let _ ← ask drivers (.close db)
    failure "dbOpen" problem

/-- Opens a database, and gives its handle. -/
def dbOpen (drivers : Drivers) : Native :=
  ofProcedure "dbOpen" 2 fun args => do
    let driver ← stringArgument "dbOpen" "driver" args[0]?
    let name ← stringArgument "dbOpen" "dsn" args[1]?
    supported driver
    let db : Database := ⟨(← get).requests.length, driver⟩
    found "dbOpen" (← ask drivers (.open driver name))
    reach drivers db
    let handle ← register db
    note ⟨"database opened", [("driver", .text driver), ("handle", .int handle)]⟩
    return .number (Float.ofInt handle)

/-- Runs a statement, and gives the number of rows it affected. -/
def dbExec (drivers : Drivers) : Native :=
  ofProcedure "dbExec" 2 fun args => do
    let db ← databaseOf "dbExec" (← handleArgument "dbExec" args[0]?)
    let sql ← stringArgument "dbExec" "sql" args[1]?
    let affected ← found "dbExec" (← ask drivers (.exec db sql))
    return .number (Float.ofInt affected)

/-- Runs a query, and gives the first value of the first row it finds. What
breaks off the search for a row is said without the native's name. -/
def dbQuery (drivers : Drivers) : Native :=
  ofProcedure "dbQuery" 2 fun args => do
    let db ← databaseOf "dbQuery" (← handleArgument "dbQuery" args[0]?)
    let sql ← stringArgument "dbQuery" "sql" args[1]?
    match ← found "dbQuery" (← ask drivers (.query db sql)) with
    | .none => return .nil
    | .broken problem => throw problem
    | .first row =>
      let cells ← found "dbQuery" row
      return (cells.head?.map Cell.value).getD .nil

/-- Closes a database. Its handle is invalid from then on, whether the
database could be closed or not. -/
def dbClose (drivers : Drivers) : Native :=
  ofProcedure "dbClose" 1 fun args => do
    let handle ← handleArgument "dbClose" args[0]?
    let db ← databaseOf "dbClose" handle
    release handle
    found "dbClose" (← ask drivers (.close db))
    return .nil

/-- The database natives. -/
def database (drivers : Drivers) : List Native :=
  [dbOpen drivers, dbExec drivers, dbQuery drivers, dbClose drivers]

/-- **The natives of a program**, those for databases only if they are asked
for. -/
def available (withDatabase : Bool) (drivers : Drivers) : List Native :=
  if withDatabase then core ++ database drivers else core

end Native

namespace Registry

/-- Every database that is still open closed, and the problems with that. The
order is not laid down; here the last one opened is the first one closed. -/
def closeAll (drivers : Drivers) (r : Registry) : List Text × Registry :=
  r.connections.foldl
    (fun (problems, r) (_, db) =>
      let r' := { r with requests := .close db :: r.requests }
      match drivers r.requests (.close db) with
      | .ok () => (problems, r')
      | .error problem => (problems ++ [problem], r'))
    ([], { r with connections := [] })

end Registry

end TanLang
