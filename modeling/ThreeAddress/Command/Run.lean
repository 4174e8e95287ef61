import ThreeAddress.Command.Files
import ThreeAddress.Command.Options
import ThreeAddress.Report

/-!
# Running the command

A run reads the input file, reports its errors, and prints the output or saves it.  Reports and notes go to the
error channel.  `Options.round` says what is to be written for a source, and `runCommandWith` does it with any access
to files.  With the flag `-w` the command does not end: it runs again at every change of the input.
-/

namespace ThreeAddress

/-- The name of the command. -/
def commandName : String := "triq"

/-- The version of the command. -/
def commandVersion : String := "0.1.0"

/-- The number of lines of a text: a line end at its end begins no further line. -/
def lineCount (text : List Char) : Nat :=
  newlines text + if text.getLast?.any (· ≠ '\n') then 1 else 0

/-- The name under which reports show the input: the last name of its path. -/
def Options.filename (options : Options) : String := (pathNames options.input).getLast?.getD "input"

/-- A line for the error channel, if the flag `-v` is set. -/
def Options.note (options : Options) (text : String) : String :=
  if options.has .verbose then " " ++ text ++ "\n" else ""

/-- Whether reports are in colour. -/
def Options.color (options : Options) : Bool := !options.has .noColor

/-- What a run writes for a source. -/
structure Round where
  /-- The text for the error channel before the output. -/
  log : String
  /-- The text that is printed if the output is not saved. -/
  printed : String
  /-- The content of the file if it is saved. -/
  saved : String
  /-- The failure after the output. -/
  failure : Option Failure

/-- Runs a source with the given options. -/
def Options.round (options : Options) (source : String) : Round :=
  let output := run source options.stage options.format
  let reporter : Reporter := { source, filename := options.filename, color := options.color }
  let counts := output.counts
  { log :=
      options.note ("Reading: " ++ options.input) ++
      options.note
        ("Source: " ++ source.utf8ByteSize.repr ++ " bytes, " ++ (lineCount source.toList).repr ++ " lines") ++
      String.join (output.lexErrors.filterMap reporter.onToken?) ++
      String.join (output.syntaxErrors.map reporter.onSyntaxError) ++
      options.note
        ("Stages: " ++ counts.tokens.repr ++ " tokens, " ++ counts.statements.repr ++ " statements, " ++
          counts.instructions.repr ++ " instructions")
    printed := output.text
    saved := output.saved
    failure :=
      if output.hasErrors then some (.errorsFound output.lexErrors.length output.syntaxErrors.length) else none }

/-- The note on a saved output. -/
def Options.savedNote (options : Options) (path text : String) : String :=
  " Wrote " ++ options.stage.name ++ " to: " ++ path ++ " (" ++ text.utf8ByteSize.repr ++ " bytes)\n"

/-- What can be seen of a command that has ended, apart from the files. -/
structure Outcome where
  status : Nat
  stdout : String := ""
  stderr : String := ""
deriving DecidableEq, Repr

/-- The outcome with a text before all else on the error channel. -/
def Outcome.after (text : String) (outcome : Outcome) : Outcome := { outcome with stderr := text ++ outcome.stderr }

/-- The end of a run: a failure is reported behind the rest of the error channel. -/
def Options.conclude (options : Options) (failure : Option Failure) (stdout stderr : String) : Outcome :=
  match failure with
  | none => { status := 0, stdout, stderr }
  | some f => { status := 1, stdout, stderr := stderr ++ f.report options.color }

/-- The outcome when the input is no file. -/
def Options.missing (options : Options) : Outcome :=
  { status := 1, stderr := " No such file: " ++ options.input ++ "\n" }

/-- The outcome when the input cannot be read for the given reason. -/
def Options.unreadable (options : Options) (reason : String) : Outcome :=
  options.conclude (some (.io reason)) "" ""

/-- The outcome when the output is printed. -/
def Options.printed (options : Options) (round : Round) : Outcome :=
  options.conclude round.failure round.printed round.log

/-- The outcome when the output is saved, or cannot be saved for the given reason. -/
def Options.saved (options : Options) (round : Round) (path : String) (error : Option String) : Outcome :=
  match error with
  | none => options.conclude round.failure "" (round.log ++ options.savedNote path round.printed)
  | some reason => options.conclude (some (.io reason)) "" round.log

/-- The note at the beginning of a run. -/
def Options.banner (options : Options) : String := options.note (commandName ++ " v" ++ commandVersion)

section Access

variable {m : Type → Type} [Monad m] (access : FileAccess m)

/-- Delivers what a run writes. -/
def Options.deliver (options : Options) (round : Round) : m Outcome := do
  match options.output with
  | none => return options.printed round
  | some path =>
    match ← access.write path round.saved.toUTF8 with
    | .ok _ => return options.saved round path none
    | .error reason => return options.saved round path (some reason)

/-- Runs the input once. -/
def Options.runOnce (options : Options) : m Outcome := do
  match ← access.read options.input with
  | .error reason => return options.unreadable reason
  | .ok content =>
    match String.fromUTF8? content with
    | none => return options.unreadable "stream did not contain valid UTF-8"
    | some source => options.deliver access (options.round source)

/-- Runs the input under a line on the error channel, with an empty line behind the run.  The status is that of a
command that is then interrupted. -/
def Options.runUnder (options : Options) (line : String) : m Outcome := do
  let outcome ← options.runOnce access
  return { status := 0, stdout := outcome.stdout, stderr := line ++ "\n\n" ++ outcome.stderr ++ "\n" }

/-- Runs the input at the beginning of a watch. -/
def Options.firstWatch (options : Options) : m Outcome :=
  options.runUnder access (" Watching " ++ options.input ++ " for changes... (Ctrl+C to stop)")

/-- Runs the input after it has changed. -/
def Options.nextWatch (options : Options) : m Outcome :=
  options.runUnder access " File changed, re-running..."

/-- How far a command comes by itself. -/
structure Course extends Outcome where
  /-- The options of a command that has not ended: it waits for changes of the input, each followed by
  `Options.nextWatch`, until it is interrupted. -/
  watching : Option Options := none

/-- Runs the command with the given options. -/
def Options.run (options : Options) : m Course := do
  if !(← access.isFile options.input) then return ⟨options.missing.after options.banner, none⟩
  else if options.has .watch then return ⟨(← options.firstWatch access).after options.banner, some options⟩
  else return ⟨(← options.runOnce access).after options.banner, none⟩

end Access

/-- A short account of the arguments. -/
def usage : String :=
  "Usage: " ++ commandName ++ " [-e STAGE] [-f FORMAT] [-o FILE] [-v] [-w] [--no-color] INPUT\n"

/-- The outcome of arguments that ask for no run. -/
def Request.answer : Except UsageError Request → Outcome
  | .error e => { status := 2, stderr := "error: " ++ e.message ++ "\n" ++ usage }
  | .ok .help => { status := 0, stdout := usage }
  | .ok _ => { status := 0, stdout := commandName ++ " " ++ commandVersion ++ "\n" }

/-- Runs the command with a list of arguments and an access to files. -/
def runCommandWith {m : Type → Type} [Monad m] (access : FileAccess m) (args : List String) : m Course :=
  match Request.ofArgs args with
  | .ok (.run options) => options.run access
  | request => return ⟨Request.answer request, none⟩

/-- Runs the command with a list of arguments on a tree of files. -/
def runCommand (args : List String) (files : Files) : Course × Files := (runCommandWith Files.access args).run files

end ThreeAddress
