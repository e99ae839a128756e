import TanLang.Log
import TanLang.Native.Driver
import TanLang.Value
/-!
# Natives — functions that are built in

A native takes the values it is called with, each together with the text
it prints as, and either answers with a value or fails with a message. Of a
running program it sees nothing else. It may read the clock, and it shares
with the other natives what they keep between calls.
-/

namespace TanLang

/-- A value as a native sees it. -/
structure Argument where
  /-- The value. -/
  value : Value
  /-- The text it prints as. -/
  shown : Text
  deriving Inhabited

/-- **What natives keep between calls.** -/
structure Registry where
  /-- How often the clock was read. -/
  readings : Nat := 0
  /-- What the drivers were asked, the last request first. -/
  requests : List Request := []
  /-- The databases that are open, under their handles. -/
  connections : List (Int × Database) := []
  /-- The handle that was given out last. -/
  lastHandle : Int := 0
  /-- The log records that were made, the last one first. -/
  records : List Log.Record := []
  deriving DecidableEq, Inhabited

/-- The log records made since another state of the registry, in order. -/
def Registry.recordsSince (r before : Registry) : List Log.Record :=
  (r.records.take (r.records.length - before.records.length)).reverse

/-- The world outside of the program, as a native finds it. -/
structure World where
  /-- The clock. -/
  clock : Clock
  /-- What natives have kept. -/
  registry : Registry
  deriving Inhabited

/-- A built-in function. -/
structure Native where
  /-- The name it goes by. -/
  name : Text
  /-- How many arguments it takes. -/
  arity : Nat
  /-- What it answers, or the message it fails with. -/
  run : World → List Argument → Except Text Value
  /-- What it leaves of the registry, whether it fails or not. -/
  leaves : World → List Argument → Registry := fun w _ => w.registry

namespace Native

/-- The time in seconds. Each call reads the clock anew. -/
def clock : Native where
  name := Text.ofString "clock"
  arity := 0
  run w _ := .ok (.number (w.clock.read w.registry.readings).toFloat)
  leaves w _ := { w.registry with readings := w.registry.readings + 1 }

/-- Any value as the string it prints as. -/
def str : Native where
  name := Text.ofString "str"
  arity := 1
  run _ args := .ok (.string ((args.head?.map Argument.shown).getD []))

/-- The natives that every program has. -/
def core : List Native := [clock, str]

end Native

end TanLang
