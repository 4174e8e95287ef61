import ThreeAddress.Command.Run

/-!
# The program

Runs the command on the files of the system and prints what it writes.  With the flag `-w` it waits for changes of
the input.
-/

namespace ThreeAddress

/-- Prints an outcome and gives its status. -/
def Outcome.print (outcome : Outcome) : IO UInt32 := do
  (← IO.getStdout).putStr outcome.stdout
  (← IO.getStderr).putStr outcome.stderr
  return outcome.status.toUInt32

/-- The reason of a failure on a file. -/
def describe : IO.Error → String
  | .noFileOrDirectory _ _ _ => FileError.notFound.message
  | .inappropriateType _ code _ => (if code = 20 then FileError.notDirectory else .isDirectory).message
  | e => toString e

/-- The content of a file of the system. -/
def readSystemFile (path : String) : IO (Except String ByteArray) := do
  return (← (IO.FS.readBinFile path).toBaseIO).mapError describe

/-- The files of the system. -/
def systemFiles : FileAccess IO where
  isFile path := return (← readSystemFile path) matches .ok _
  read := readSystemFile
  write path content := do
    return (← (IO.FS.writeBinFile path content).toBaseIO).mapError describe

/-- Runs the command again whenever the input is not as it was seen. -/
partial def Options.watch (options : Options) (seen : Option ByteArray) : IO Unit := do
  IO.sleep 100
  let content := (← readSystemFile options.input).toOption
  if content.isSome && content != seen then
    let _ ← (← options.nextWatch systemFiles).print
    options.watch content
  else options.watch seen

end ThreeAddress

open ThreeAddress in
/-- The entry point. -/
def main (args : List String) : IO UInt32 := do
  let course ← runCommandWith systemFiles args
  match course.watching with
  | none => course.print
  | some options =>
    let seen := (← readSystemFile options.input).toOption
    let status ← course.print
    options.watch seen
    return status
