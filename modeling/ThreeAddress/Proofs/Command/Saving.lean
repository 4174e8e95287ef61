import ThreeAddress.Command.Run
import ThreeAddress.Proofs.Command.Arguments
import ThreeAddress.Proofs.Command.Files

/-!
# Saving what would be printed

A command that prints its output and the same command with an option that saves it do the same: the file gets what
would have been printed, no other file changes, and all that is new on the error channel is the note on the file
(`runCommand_save`).

* `Options.outcome`: what a run writes, with a line for the note;
* `Options.run_printed`, `Options.run_saved`: what the two runs write and do to the files.
-/

namespace ThreeAddress

private theorem fromUTF8?_toUTF8 (s : String) : String.fromUTF8? s.toUTF8 = some s := by
  rw [String.toUTF8_eq_toByteArray, String.fromUTF8?, dif_pos s.isValidUTF8]
  rfl

/-- The notes with which a run begins. -/
def Options.opening (options : Options) (source : String) : String :=
  options.banner ++ options.note ("Reading: " ++ options.input) ++
    options.note ("Source: " ++ source.utf8ByteSize.repr ++ " bytes, " ++ (lineCount source.toList).repr ++ " lines")

/-- The reports of the errors of a source, first the lexical ones. -/
def Options.reports (options : Options) (source : String) : String :=
  let output := ThreeAddress.run source options.stage options.format
  let reporter : Reporter := { source, filename := options.filename, color := options.color }
  String.join (output.lexErrors.filterMap reporter.onToken?) ++
    String.join (output.syntaxErrors.map reporter.onSyntaxError)

/-- The line with the sizes of the stages. -/
def Options.stageCounts (options : Options) (source : String) : String :=
  let counts := (ThreeAddress.run source options.stage options.format).counts
  options.note
    ("Stages: " ++ counts.tokens.repr ++ " tokens, " ++ counts.statements.repr ++ " statements, " ++
      counts.instructions.repr ++ " instructions")

/-- The summary of the errors at the end of a run, if there are any. -/
def Options.summary (options : Options) (source : String) : String :=
  let output := ThreeAddress.run source options.stage options.format
  if output.hasErrors then
    (Failure.errorsFound output.lexErrors.length output.syntaxErrors.length).report options.color
  else ""

/-- The outcome of a run that writes a line behind the sizes of the stages, or no such line. -/
def Options.outcome (options : Options) (source stdout line : String) : Outcome where
  status := if (ThreeAddress.run source options.stage options.format).hasErrors then 1 else 0
  stdout := stdout
  stderr :=
    options.opening source ++ options.reports source ++ options.stageCounts source ++ line ++ options.summary source

private theorem Options.after_conclude_round (options : Options) (source stdout line : String) :
    (options.conclude (options.round source).failure stdout ((options.round source).log ++ line)).after
      options.banner = options.outcome source stdout line := by
  cases h : (ThreeAddress.run source options.stage options.format).hasErrors <;>
    simp [round, conclude, Outcome.after, outcome, opening, reports, stageCounts, summary, h, String.append_assoc]

section Runs

variable {options : Options} {files : Files} {source : String}
  (hread : files.read options.input = .ok source.toUTF8)
include hread

private theorem Options.run_runOnce :
    (options.runOnce Files.access).run files = (options.deliver Files.access (options.round source)).run files := by
  simp only [runOnce, StateT.run_bind, Files.run_read, hread, Except.mapError, pure_bind, fromUTF8?_toUTF8]

/-- Without the flag for watching, the command ends with one run of its input. -/
private theorem Options.run_eq (hwatch : options.has .watch = false) {outcome : Outcome} {files' : Files}
    (hdeliver : (options.deliver Files.access (options.round source)).run files = (outcome, files')) :
    (options.run Files.access).run files = (⟨outcome.after options.banner, none⟩, files') := by
  simp only [Options.run, StateT.run_bind, Files.run_isFile, hread, pure_bind, Bool.not_true, Bool.false_eq_true,
    if_false, hwatch, run_runOnce hread, hdeliver]
  rfl

/-- Without an output path, the text is printed and no file changes. -/
theorem Options.run_printed (hwatch : options.has .watch = false) (houtput : options.output = none) :
    (options.run Files.access).run files =
      (⟨options.outcome source (ThreeAddress.run source options.stage options.format).text "", none⟩, files) := by
  rw [← after_conclude_round, String.append_empty]
  refine run_eq hread hwatch ?_
  simp only [deliver, houtput, printed]
  rfl

/-- With an output path, the same text is put at the place to which the path leads. -/
theorem Options.run_saved (hwatch : options.has .watch = false) {path : String} {place : List String}
    (hplace : files.locate path = .ok place) (hentry : files.entry? place ≠ some .directory) :
    (Options.run Files.access { options with output := some path }).run files =
      (⟨options.outcome source ""
          (options.savedNote path (ThreeAddress.run source options.stage options.format).text), none⟩,
        files.put place (.file (ThreeAddress.run source options.stage options.format).text.toUTF8)) := by
  have hsaved : (options.round source).saved = (ThreeAddress.run source options.stage options.format).text :=
    saved_run source options.stage options.format
  have hround : Options.round { options with output := some path } source = options.round source := rfl
  have hwrite := Files.run_write (Files.write_eq hplace hentry (options.round source).saved.toUTF8)
  rw [hsaved] at hwrite
  rw [← after_conclude_round]
  refine @run_eq { options with output := some path } files source hread hwatch _ _ ?_
  rw [hround]
  simp only [deliver, StateT.run_bind, hsaved, hwrite, pure_bind]
  rfl

end Runs

/-- A run that prints (`shown`) and one that saves to a path (`kept`), on one tree of files and for one source. -/
structure SavesAsPrinted (options : Options) (source path : String) (files : Files) (shown kept : Course × Files) :
    Prop where
  /-- Both commands end. -/
  ended : shown.1.watching = none ∧ kept.1.watching = none
  /-- All of the output is printed, with errors or without, and no file changes. -/
  printed : shown.1.stdout = (run source options.stage options.format).text ∧ shown.2 = files
  /-- The runs end with one status, which is 0 exactly if the source has no error. -/
  status : kept.1.status = shown.1.status ∧ (shown.1.status = 0 ↔
    (run source options.stage options.format).lexErrors = [] ∧
      (run source options.stage options.format).syntaxErrors = [])
  /-- The other run prints nothing. -/
  silent : kept.1.stdout = ""
  /-- The place to which the path leads has what would have been printed, and nothing else has changed. -/
  saved : ∃ place, files.locate path = .ok place ∧ ∀ other,
    Files.entry? kept.2 other = if other = place then some (.file shown.1.stdout.toUTF8) else files.entry? other
  /-- So it is read under that path. -/
  content : kept.2.read path = .ok shown.1.stdout.toUTF8
  /-- Behind the reports and the sizes of the stages, and before the summary, the file is noted with its size. -/
  noted :
    shown.1.stderr =
      options.opening source ++ options.reports source ++ options.stageCounts source ++ options.summary source ∧
    kept.1.stderr =
      options.opening source ++ options.reports source ++ options.stageCounts source ++
        (" Wrote " ++ options.stage.name ++ " to: " ++ path ++ " (" ++ shown.1.stdout.toUTF8.size.repr ++
          " bytes)\n") ++
        options.summary source

/-- An option that saves the output, added where an option may stand to arguments that ask for one run without such an
option, saves what would have been printed. -/
theorem runCommand_save {before added after : List String} {options : Options} {source path : String} {files : Files}
    (hrequest : Request.ofArgs (before ++ after) = .ok (.run options)) (hwatch : options.has .watch = false)
    (houtput : options.output = none) (hbefore : TakesOptions before) (hadded : OutputArgs path added)
    (hread : files.read options.input = .ok source.toUTF8) (hpath : files.CanWrite path) :
    Request.ofArgs (before ++ added ++ after) = .ok (.run { options with output := some path }) ∧
      SavesAsPrinted options source path files (runCommand (before ++ after) files)
        (runCommand (before ++ added ++ after) files) := by
  have hinsert := ofArgs_insert hrequest houtput hbefore hadded hpath.ne_empty
  obtain ⟨place, hplace, hentry⟩ := hpath.exists_place
  refine ⟨hinsert, ?_⟩
  simp only [runCommand, runCommandWith, hrequest, hinsert, Options.run_printed hread hwatch houtput,
    Options.run_saved hread hwatch hplace hentry]
  exact
    { ended := ⟨rfl, rfl⟩
      printed := ⟨rfl, rfl⟩
      status := ⟨rfl, by simp [Options.outcome, Output.hasErrors]⟩
      silent := rfl
      saved := ⟨place, hplace, Files.entry?_put files (Files.locate_ne_nil hplace) _⟩
      content := Files.read_put hplace hentry _
      noted := ⟨by simp [Options.outcome], rfl⟩ }

/-- A source with an error is replaced by the output of its own run, by another path that begins above the working
directory. -/
theorem runCommand_save_input :
    let files : Files := ⟨[(["home"], .directory), (["home", "a"], .file "?".toUTF8)], ["home"]⟩
    files.locate "/../home/./a" = files.locate "a" ∧
      SavesAsPrinted { input := "a", flags := [.verbose] } "?" "/../home/./a" files
        (runCommand ["-v", "a"] files) (runCommand ["-v", "-o", "/../home/./a", "a"] files) := by
  intro files
  have hinput : files.locate "a" = .ok ["home", "a"] := rfl
  have hplace : files.locate "/../home/./a" = .ok ["home", "a"] := rfl
  refine ⟨hplace.trans hinput.symm, ?_⟩
  refine (@runCommand_save ["-v"] ["-o", "/../home/./a"] ["a"] _ "?" _ _ ?_ rfl rfl ?_ (.short ?_) ?_ ?_).2
  · decide
  · exact ⟨{ flags := [.verbose] }, by decide, rfl, rfl⟩
  · rintro ⟨c, rest, h⟩
    simp at h
  · rw [Files.read, hinput]
    rfl
  · have hentry : files.entry? ["home", "a"] = some (.file "?".toUTF8) := rfl
    exact ⟨.empty, _, Files.write_eq hplace (by simp [hentry]) _⟩

end ThreeAddress
