import TanLang.Diagnostic
import TanLang.Eval
import TanLang.Log
import TanLang.Native.Database
import TanLang.Program.Outline
/-!
# Sessions — running units of source one after the other

A session keeps one machine for all the units it runs, so that what one
unit defines the later ones can use. A unit is scanned and parsed, then
resolved, then executed, and it does not enter a phase if a compile error
is on record: **a unit that does not compile has no effect**. The record
is kept until the session is reset, so without a reset later units are
rejected too.
-/

namespace TanLang

/-- The limit on nested calls if no other is set. -/
def defaultMaxDepth : Nat := 2048

namespace Eval

/-- Statements run one after the other, whatever they complete with, up to
the first runtime error. -/
def interpret (rules : Rules) (bound : Nat) : Program Address → Action Unit
  | [] => Action.result ()
  | s :: rest => Action.andThen (execute rules bound s) fun _ => interpret rules bound rest

end Eval

/-- How far a unit came. -/
inductive Stage where
  /-- It was scanned and parsed. -/
  | parse
  /-- It was resolved, too. -/
  | resolve
  /-- It was executed, too. -/
  | run
  deriving DecidableEq, Inhabited

/-- The name of a stage. -/
def Stage.name : Stage → String
  | parse => "parse"
  | resolve => "resolve"
  | run => "run"

/-- How the execution of a unit ended. -/
inductive Ending where
  /-- The unit ran to its end, or was not executed. -/
  | finished
  /-- It stopped at a runtime error. -/
  | failed (error : RuntimeError)
  /-- It needed something that was not there. -/
  | crashed
  /-- The bound on the evaluator's recursion ran out. -/
  | exhausted
  deriving DecidableEq, Inhabited

/-- What a unit came to. -/
inductive Status where
  | ok | compileError | runtimeError
  deriving DecidableEq, Inhabited

/-- The name of a status. -/
def Status.name : Status → String
  | ok => "ok"
  | compileError => "compile error"
  | runtimeError => "runtime error"

/-- What happens while a unit is run, apart from what it prints. -/
inductive Event where
  /-- A report, and the source it is shown with. -/
  | report (r : Report) (source : Text)
  /-- A log record. -/
  | log (r : Log.Record)
  deriving DecidableEq, Inhabited

namespace Event

/-- The log record of a report. -/
def reportRecord (r : Report) : Log.Record :=
  ⟨"diagnostic", [("line", .int r.line), ("at", .text r.clause), ("message", .text r.message)]⟩

/-- The text of a report; nothing for a log record. -/
def reportText : Event → Text
  | report r source => r.render source
  | log _ => []

/-- The log line of an event. -/
def logText : Event → Text
  | report r _ => (reportRecord r).line
  | log r => r.line

end Event

/-- What running a unit gives. -/
structure UnitRun where
  /-- The last stage it entered. -/
  stage : Stage
  /-- What it came to. -/
  status : Status
  /-- How its execution ended. -/
  ending : Ending
  /-- What it printed. -/
  output : Text
  /-- What else happened, in order. -/
  events : List Event
  deriving Inhabited

/-- The reports on a unit, as printed. -/
def UnitRun.diagnostics (u : UnitRun) : Text := u.events.flatMap Event.reportText

/-- A session. -/
structure Session where
  /-- The limit on nested calls. -/
  maxDepth : Nat := defaultMaxDepth
  /-- Whether reports are shown with the source. -/
  showSource : Bool := false
  /-- The clock. -/
  clock : Clock := ⟨0, 0⟩
  /-- The machine. -/
  machine : Machine
  /-- The reports since the last reset. -/
  tally : Tally := {}
  deriving Inhabited

namespace Session

/-- A new session with the natives given. A limit on nested calls that is not
positive stands for the usual one. -/
def ofNatives (maxDepth : Int) (natives : List Native) (showSource : Bool) (clock : Clock) :
    Session where
  maxDepth := if 0 < maxDepth then maxDepth.toNat else defaultMaxDepth
  showSource := showSource
  clock := clock
  machine := Machine.start natives

/-- A new session with the natives of a program; if no drivers are given,
none are linked in. -/
def start (maxDepth : Int) (database showSource : Bool) (clock : Clock)
    (drivers : Drivers := .unlinked) : Session :=
  ofNatives maxDepth (Native.available database drivers) showSource clock

/-- The record cleared, so that the next unit starts clean. -/
def reset (s : Session) : Session := { s with tally := {} }

/-- The databases closed that are still open, and the problems with that. -/
def close (s : Session) (drivers : Drivers) : Session × List Text :=
  let (problems, registry) := s.machine.heap.registry.closeAll drivers
  ({ s with machine := s.machine.keep registry }, problems)

/-- A bound on the evaluator's recursion that no run in practice reaches. -/
def recursionBound : Nat := 1000000000000000

/-- The rules of execution in the session. -/
def rules (s : Session) : Rules := { maxDepth := s.maxDepth, clock := s.clock }

/-- The number of uses of names in a program that have a distance. -/
def localCount (p : Program Address) : Nat := p.uses.countP fun u => u.2.isSome

/-- The reports of a phase as events. -/
def reported (source : Text) (reports : List Report) : List Event :=
  reports.map fun r => .report r source

/-- The log record of a unit that is not executed. -/
def rejection (stage : Stage) (t : Tally) : Event :=
  .log ⟨"unit rejected", [("stage", .text (Text.ofString stage.name)), ("errors", .int t.count)]⟩

/-- How an action on the machine ended. -/
def endingOf {α : Type} : Outcome α → Ending
  | .done _ _ => .finished
  | .raised error _ => .failed error
  | .crashed _ => .crashed
  | .exhausted _ => .exhausted

/-- The execution of a resolved program, within a bound on the recursion. -/
def execute (s : Session) (bound : Nat) (source : Text) (p : Program Address)
    (earlier : List Event) : Session × UnitRun :=
  let machine := { s.machine with printed := [] }
  let outcome := Eval.interpret s.rules bound p machine
  let after := { s with machine := outcome.machine }
  let began := Event.log ⟨"---- begin ----", [("statements", .int p.length)]⟩
  -- what natives have logged meanwhile
  let noted := (outcome.machine.heap.registry.recordsSince s.machine.heap.registry).map Event.log
  let done := Event.log ⟨"---- done ----", []⟩
  match endingOf outcome with
  | .failed error =>
    let failure := Event.log ⟨"runtime error", [("error", .text error.fault.message),
      ("stack_overflow", .bool (error.fault == .stackOverflow))]⟩
    ({ after with tally := after.tally.add .runtime },
      ⟨.run, .runtimeError, .failed error, outcome.machine.output,
        earlier ++ began :: noted ++ [.report error.report source, failure, done]⟩)
  | .finished =>
    (after, ⟨.run, .ok, .finished, outcome.machine.output, earlier ++ began :: noted ++ [done]⟩)
  | ending =>
    (after, ⟨.run, .runtimeError, ending, outcome.machine.output,
      earlier ++ began :: noted ++ [done]⟩)

/-- **One unit of source run**, within a bound on the recursion. -/
def run (s : Session) (src : Text) (bound : Nat := recursionBound) : Session × UnitRun :=
  let source := if s.showSource then src else []
  let tokens := Source.tokens src
  let program := Program.ofTokens tokens
  let reports := Source.reports src ++ Program.reports tokens
  let parsed := { s with tally := s.tally.addAll .compile reports }
  let events := reported source reports ++
    [.log ⟨"parsed program", [("statements", .int program.length),
      ("tokens", .int (Program.tokenCount tokens))]⟩]
  if parsed.tally.hadError then
    (parsed, ⟨.parse, .compileError, .finished, [],
      events ++ [rejection .parse parsed.tally]⟩)
  else
    let resolution := Scoping.resolve program
    let reports := resolution.issues.map Scoping.Issue.report
    let resolved := { parsed with tally := parsed.tally.addAll .compile reports }
    let events := events ++ reported source reports ++
      [.log ⟨"resolved program", [("locals", .int (localCount resolution.value))]⟩]
    if resolved.tally.hadError then
      (resolved, ⟨.resolve, .compileError, .finished, [],
        events ++ [rejection .resolve resolved.tally]⟩)
    else resolved.execute bound source resolution.value events

/-- The globals and their values, by name. -/
def globals (s : Session) : List (Text × Value) := s.machine.heap.listing Machine.globals

end Session

end TanLang
