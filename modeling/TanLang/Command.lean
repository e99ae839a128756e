import TanLang.Command.Flags
import TanLang.Command.Wording
import TanLang.Files
import TanLang.Prompt
import TanLang.Settings
/-!
# The command — what it does with its arguments

The arguments decide on a plan: to print something and exit, to run a
script, or to start the prompt. A wrong flag wins over everything, then
the version over the help, then both over too many arguments, and those
over the settings. Flags that are given override the settings file.
-/

namespace TanLang

namespace Command

/-- The exit statuses. -/
inductive Exit where
  | success | badFlags | badUsage | badSource | runtimeError | unreadable
  deriving DecidableEq, Inhabited

/-- The number of an exit status. -/
def Exit.code : Exit → Nat
  | success => 0
  | badFlags => 2
  | badUsage => 64
  | badSource => 65
  | runtimeError => 70
  | unreadable => 74

/-- What the arguments ask for. -/
inductive Plan where
  /-- To print to the output and the error output, and exit. -/
  | finish (exit : Exit) (output errors : Text)
  /-- To start the prompt. -/
  | prompt (settings : Settings)
  /-- To run a script. -/
  | script (settings : Settings) (path : Text)

/-- Settings with the flags given over them. -/
def override (s : Settings) (f : Flags) : Settings where
  logLevel := f.logLevel.getD s.logLevel
  logFile := f.logFile.getD s.logFile
  maxCallDepth := f.maxDepth.getD s.maxCallDepth
  database := f.database.getD s.database
  showSource := f.showSource.getD s.showSource

/-- The settings that the flags ask for, or what is wrong with them. A
settings file that is named has to be good even where flags override it. -/
def settings (read : Text → Except Files.Failure Text) (f : Flags) : Except Text Settings :=
  let base : Except Text Settings :=
    match f.config with
    | none => .ok {}
    | some [] => .ok {}
    | some path =>
      match Settings.load read path with
      | .ok s => .ok s
      | .error e => .error (e.message path)
  match base, f.maxDepth with
  | .error e, _ => .error e
  | .ok s, none => .ok (override s f)
  | .ok s, some n =>
    if n ≤ 0 then
      .error (Text.ofString "-max-depth must be positive, got " ++ Text.ofInt n)
    else .ok (override s f)

/-- **The plan that arguments ask for**, where `read` reads files. -/
def plan (read : Text → Except Files.Failure Text) (args : List Text) : Plan :=
  match Flags.parse {} args with
  | .error e => .finish .badFlags [] (e.message ++ [Text.newline] ++ flagsText)
  | .ok (f, operands) =>
    if f.version = some true then .finish .success versionText []
    else if f.help = some true then .finish .success helpText []
    else if 1 < operands.length then .finish .badUsage [] usageText
    else
      match settings read f with
      | .error message => .finish .badUsage [] (message ++ [Text.newline])
      | .ok s =>
        match operands with
        | [] => .prompt s
        | path :: _ => .script s path

/-- The files that the plan may need: the settings file and the script. -/
def filesWanted (args : List Text) : List Text :=
  match Flags.parse {} args with
  | .error _ => []
  | .ok (f, operands) => f.config.toList ++ operands.take 1

/-! ## Logs and reports -/

/-- What is said of a log file whose directory cannot be made. -/
def noDirectory (path : Text) (f : Files.Failure) : Text :=
  Text.ofString "create log directory for '" ++ path ++ Text.ofString "': " ++ f.message

/-- What is said of a log file that cannot be opened. -/
def noLog (path : Text) (f : Files.Failure) : Text :=
  Text.ofString "open log file '" ++ path ++ Text.ofString "': " ++ f.message

/-- The tree with a log file opened, which is made if it is not there, and
its directory, too; or what is said if that cannot be done. -/
def openLog (fs : Files) (path : Text) : Files × Option Text :=
  let directory := Files.directoryOf path
  match fs.makeDirectories (directory.length + 1) directory with
  | .error f => (fs, some (noDirectory path f))
  | .ok fs =>
    match fs.append path [] with
    | .error f => (fs, some (noLog path f))
    | .ok fs => (fs, none)

/-- Where the log goes, and what has to be said about that. -/
structure LogSink where
  /-- How much is logged. -/
  level : Log.Level
  /-- The log file; the error output if there is none. -/
  file : Option Text
  /-- What goes to the error output first. -/
  notice : Text := []

/-- The log that settings ask for. A log file that cannot be opened, about
which something is said, is replaced by the error output. -/
def logSink (s : Settings) (problem : Option Text) : LogSink :=
  let level := Log.Level.ofText s.logLevel
  if s.logFile = [] then ⟨level, none, []⟩
  else
    match problem with
    | none => ⟨level, some s.logFile, []⟩
    | some e => ⟨level, none, e ++ Text.ofString "; falling back to stderr" ++ [Text.newline]⟩

/-- The log that settings ask for, opened. -/
def openSink (fs : Files) (s : Settings) : Files × LogSink :=
  if s.logFile = [] then (fs, logSink s none)
  else
    let (fs, problem) := openLog fs s.logFile
    (fs, logSink s problem)

namespace LogSink

/-- What events put on the error output: reports, and log lines where they
have no file. -/
def errors (sink : LogSink) (events : List Event) : Text :=
  events.flatMap fun e =>
    (if sink.level.showsDebug && sink.file.isNone then e.logText else []) ++ e.reportText

/-- What events put into the log file. -/
def logged (sink : LogSink) (events : List Event) : Text :=
  if sink.level.showsDebug && sink.file.isSome then events.flatMap Event.logText else []

end LogSink

/-! ## Running the plan -/

/-- What the command did. -/
structure Result where
  /-- The exit status. -/
  exit : Exit
  /-- What went to the output. -/
  output : Text
  /-- What went to the error output. -/
  errors : Text
  /-- What was added to the log file. -/
  logged : Text := []
  deriving Inhabited

/-- A session with settings. -/
def sessionWith (s : Settings) (clock : Clock) : Session :=
  Session.start s.maxCallDepth s.database s.showSource clock

/-- The exit status for a script's status. -/
def exitFor : Status → Exit
  | .ok => .success
  | .compileError => .badSource
  | .runtimeError => .runtimeError

/-- The result of events, given what was printed. -/
def resultOf (sink : LogSink) (exit : Exit) (output : Text) (events : List Event) : Result where
  exit := exit
  output := output
  errors := sink.notice ++ sink.errors events
  logged := sink.logged events

/-- A script run. -/
def runScript (sink : LogSink) (session : Session) (path : Text)
    (source : Except Files.Failure Text) : Result :=
  match source with
  | .error f =>
    { exit := .unreadable
      output := []
      errors := sink.notice ++ Text.ofString "could not read '" ++ path ++ Text.ofString "': "
        ++ f.message ++ [Text.newline] }
  | .ok source =>
    let (_, unit) := session.run source
    let finished := Event.log ⟨"script finished",
      [("file", .text path), ("status", .text (Text.ofString unit.status.name))]⟩
    resultOf sink (exitFor unit.status) unit.output (unit.events ++ [finished])

/-- The prompt run on an input. -/
def runPrompt (sink : LogSink) (session : Session) (input : Text) : Result :=
  let units := Prompt.runLines session (Prompt.linesOf input)
  resultOf sink .success (Prompt.transcript units) (units.flatMap UnitRun.events)

/-- The tree with what was logged in the log file. -/
def withLog (fs : Files) (sink : LogSink) (r : Result) : Files :=
  match sink.file with
  | none => fs
  | some path =>
    match fs.append path r.logged with
    | .ok fs => fs
    | .error _ => fs

/-- **What the command does** with arguments, an input and a clock, in a
tree of files, and what becomes of the tree. The log is opened before the
script is read. -/
def run (fs : Files) (clock : Clock) (input : Text) (args : List Text) : Files × Result :=
  match plan fs.read args with
  | .finish exit output errors => (fs, ⟨exit, output, errors, []⟩)
  | .prompt s =>
    let (fs, sink) := openSink fs s
    let r := runPrompt sink (sessionWith s clock) input
    (withLog fs sink r, r)
  | .script s path =>
    let (fs, sink) := openSink fs s
    let r := runScript sink (sessionWith s clock) path (fs.read path)
    (withLog fs sink r, r)

end Command

end TanLang
