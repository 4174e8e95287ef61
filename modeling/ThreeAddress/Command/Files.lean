/-!
# Trees of files

A tree of files maps places, which are lists of names from its root, to files and directories.  A path in text form is
followed name by name, from the root if it begins with a slash and else from the working directory, and every name
but the last has to be that of a directory.

`FileAccess` is what a command needs of the files around it, and `Files.access` gives it on a tree.
-/

namespace ThreeAddress

/-- What a path leads to. -/
inductive Entry where
  | file (content : ByteArray)
  | directory

/-- Why a file cannot be opened. -/
inductive FileError where
  | notFound | notDirectory | isDirectory
deriving DecidableEq, Repr

/-- The text of a file error. -/
def FileError.message : FileError → String
  | notFound => "No such file or directory (os error 2)"
  | notDirectory => "Not a directory (os error 20)"
  | isDirectory => "Is a directory (os error 21)"

/-- A tree of files.  Of two entries with one place the first counts, and the root is a directory. -/
structure Files where
  entries : List (List String × Entry) := []
  /-- The place at which paths without a slash in front begin. -/
  workingDirectory : List String := []

/-- What stands at a place. -/
def Files.entry? (files : Files) (place : List String) : Option Entry :=
  if place.isEmpty then some .directory else files.entries.lookup place

/-- Puts an entry at a place. -/
def Files.put (files : Files) (place : List String) (entry : Entry) : Files :=
  if (files.entries.lookup place).isSome then
    { files with entries := files.entries.map fun (other, old) => (other, if other = place then entry else old) }
  else { files with entries := files.entries ++ [(place, entry)] }

/-- The stretches of a text between slashes. -/
def splitAtSlashes : List Char → List (List Char)
  | [] => [[]]
  | '/' :: text => [] :: splitAtSlashes text
  | c :: text =>
    match splitAtSlashes text with
    | [] => [[c]]
    | part :: parts => (c :: part) :: parts

/-- The names of a path in text form. -/
def pathNames (path : String) : List String :=
  ((splitAtSlashes path.toList).filter (· ≠ [])).map String.ofList

/-- Puts an entry at a path from the working directory, and makes the directories on the way. -/
def Files.insert (files : Files) (path : String) (entry : Entry) : Files :=
  let names := files.workingDirectory ++ pathNames path
  let parents := (List.range names.length).tail.map names.take
  (parents.foldl (fun files parent => if (files.entry? parent).isSome then files else files.put parent .directory)
    files).put names entry

/-- The directory in which a path begins. -/
def Files.start (files : Files) (path : String) : Except FileError (List String) :=
  if path.isEmpty then .error .notFound
  else if path.toList.head? = some '/' then .ok []
  else
    match files.entry? files.workingDirectory with
    | some .directory => .ok files.workingDirectory
    | _ => .error .notFound

/-- Goes from a directory to the one with the given name.  The root is its own parent. -/
def Files.enter (files : Files) (directory : List String) (name : String) : Except FileError (List String) :=
  if name = "." then .ok directory
  else if name = ".." then .ok directory.dropLast
  else
    match files.entry? (directory ++ [name]) with
    | some .directory => .ok (directory ++ [name])
    | some (.file _) => .error .notDirectory
    | none => .error .notFound

/-- The place of a file in the tree, whether it exists or not.  A path that can only lead to a directory is
refused. -/
def Files.locate (files : Files) (path : String) : Except FileError (List String) := do
  let names := pathNames path
  let directory ← names.dropLast.foldlM files.enter (← files.start path)
  match names.getLast? with
  | none => throw .isDirectory
  | some name =>
    if path.toList.getLast? = some '/' || name = "." || name = ".." then throw .isDirectory
    return directory ++ [name]

/-- The content of a file. -/
def Files.read (files : Files) (path : String) : Except FileError ByteArray := do
  match files.entry? (← files.locate path) with
  | some (.file content) => return content
  | some .directory => throw .isDirectory
  | none => throw .notFound

/-- Writes a file, which may be new. -/
def Files.write (files : Files) (path : String) (content : ByteArray) : Except FileError Files := do
  let place ← files.locate path
  match files.entry? place with
  | some .directory => throw .isDirectory
  | _ => return files.put place (.file content)

/-- A place in text form, from the working directory if it is in there and else from the root. -/
def Files.pathTo (files : Files) (place : List String) : String :=
  if files.workingDirectory.isPrefixOf place then "/".intercalate (place.drop files.workingDirectory.length)
  else "/" ++ "/".intercalate place

/-- The files of one tree that another one has not, or has with another content. -/
def Files.changes (before after : Files) : List (String × ByteArray) :=
  after.entries.filterMap fun (place, entry) =>
    match entry, before.entry? place with
    | .directory, _ => none
    | .file content, some (.file old) =>
      if old.data = content.data then none else some (after.pathTo place, content)
    | .file content, _ => some (after.pathTo place, content)

/-- What a command does with files.  A failure is told by its text. -/
structure FileAccess (m : Type → Type) where
  /-- Whether a path leads to a file. -/
  isFile : String → m Bool
  read : String → m (Except String ByteArray)
  write : String → ByteArray → m (Except String Unit)

/-- The files of a tree, which is changed when one is written. -/
def Files.access : FileAccess (StateM Files) where
  isFile path := return (← get).read path matches .ok _
  read path := return ((← get).read path).mapError FileError.message
  write path content := do
    match (← get).write path content with
    | .ok files => set files; return .ok ()
    | .error e => return .error e.message

@[simp] theorem Files.run_isFile (files : Files) (path : String) :
    (Files.access.isFile path).run files = pure (files.read path matches .ok _, files) := rfl

@[simp] theorem Files.run_read (files : Files) (path : String) :
    (Files.access.read path).run files = pure ((files.read path).mapError FileError.message, files) := rfl

theorem Files.run_write {files files' : Files} {path : String} {content : ByteArray}
    (h : files.write path content = .ok files') :
    (Files.access.write path content).run files = pure (.ok (), files') := by
  simp [Files.access, h]

end ThreeAddress
