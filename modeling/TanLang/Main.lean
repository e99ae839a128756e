import Std.Time.DateTime
import TanLang.Command
/-!
# The program

The command at work on real files and streams. All decisions are made by
`Command.plan`, `Command.runScript` and `Prompt.step`; what is left to do
here is to read, to write, and to tell the time.
-/

namespace TanLang

namespace Outside

/-- The string that a text spells, for the names of files. -/
def stringOf (t : Text) : String := (String.fromUTF8? ⟨t.toArray⟩).getD ""

/-- What the system says is wrong with a path. -/
def problemOf : IO.Error → Files.Problem
  | .alreadyExists .. => .occupied
  | .permissionDenied .. => .denied
  | .inappropriateType .. => .isDirectory
  | .invalidArgument .. => .invalid
  | _ => .missing

/-- A deed done at a path, or why it could not be done. -/
def attempt {α : Type} (deed : Files.Deed) (path : Text) (act : IO α) :
    IO (Except Files.Failure α) := do
  try
    return .ok (← act)
  catch e =>
    let problem := problemOf e
    let isRead := deed == .opening && problem == .isDirectory
    return .error ⟨if isRead then .reading else deed, path, problem⟩

/-- The content of a file. -/
def readFile (path : Text) : IO (Except Files.Failure Text) := do
  attempt .opening path do
    return (← IO.FS.readBinFile (stringOf path)).data.toList

/-- What was read of the files that may be needed. -/
def contentOf (files : List (Text × Except Files.Failure Text)) (path : Text) :
    Except Files.Failure Text :=
  ((files.find? fun f => f.1 == path).map Prod.snd).getD (.error ⟨.opening, path, .missing⟩)

/-- Bytes written to a stream. -/
def put (stream : IO.FS.Stream) (t : Text) : IO Unit := do
  unless t.isEmpty do
    stream.write ⟨t.toArray⟩
    stream.flush

/-- Text added to a log file. -/
def appendLog (sink : Command.LogSink) (t : Text) : IO Unit := do
  match sink.file with
  | none => return
  | some path =>
    unless t.isEmpty do
      let handle ← IO.FS.Handle.mk (stringOf path) .append
      handle.write ⟨t.toArray⟩

/-- The log that settings ask for, opened. -/
def openSink (s : Settings) : IO Command.LogSink := do
  let path := s.logFile
  if path.isEmpty then return Command.logSink s none
  let directory := Files.directoryOf path
  match ← attempt .makingDirectory directory (IO.FS.createDirAll (stringOf directory)) with
  | .error f => return Command.logSink s (some (Command.noDirectory path f))
  | .ok _ =>
    match ← attempt .opening path (IO.FS.Handle.mk (stringOf path) .append) with
    | .error f => return Command.logSink s (some (Command.noLog path { f with deed := .opening }))
    | .ok _ => return Command.logSink s none

/-- The time. -/
def now : IO Instant := do
  let time ← Std.Time.Timestamp.now
  return Instant.ofUnix 0 time.toNanosecondsSinceUnixEpoch.val

/-- A result put where it belongs. -/
def finish (sink : Command.LogSink) (r : Command.Result) : IO UInt32 := do
  put (← IO.getStdout) r.output
  put (← IO.getStderr) r.errors
  appendLog sink r.logged
  return UInt32.ofNat r.exit.code

/-- The bytes of a line without its end; nothing at the end of the input. -/
partial def readLine (stream : IO.FS.Stream) (done : List UInt8) : IO (Option Text) := do
  let bytes ← stream.read 1
  match bytes.data.toList with
  | [] => return if done.isEmpty then none else some done.reverse
  | b :: _ => if b = Text.newline then return some done.reverse else readLine stream (b :: done)

/-- The prompt, line by line. -/
partial def converse (sink : Command.LogSink) (session : Session) : IO Unit := do
  let output ← IO.getStdout
  put output Prompt.prompt
  let line ← readLine (← IO.getStdin) []
  match line.bind fun line => (Prompt.linesOf (line ++ [Text.newline])).head? with
  | none => put output [Text.newline]
  | some line =>
    let (session, unit) := Prompt.step { session with clock := ← now } line
    put output unit.output
    put (← IO.getStderr) (sink.errors unit.events)
    appendLog sink (sink.logged unit.events)
    converse sink session

end Outside

end TanLang

open TanLang in
/-- The command with the arguments given. -/
def main (args : List String) : IO UInt32 := do
  let args := args.map Text.ofString
  let files ← (Command.filesWanted args).mapM fun path => do
    return (path, ← Outside.readFile path)
  match Command.plan (Outside.contentOf files) args with
  | .finish exit output errors =>
    Outside.finish ⟨.none, none, []⟩ ⟨exit, output, errors, []⟩
  | .prompt s =>
    let sink ← Outside.openSink s
    Outside.put (← IO.getStderr) sink.notice
    Outside.converse sink (Command.sessionWith s (← Outside.now))
    return 0
  | .script s path =>
    let sink ← Outside.openSink s
    let source ← Outside.readFile path
    Outside.finish sink
      (Command.runScript sink (Command.sessionWith s (← Outside.now)) path source)
