import ThreeAddress.Command.Files

/-!
# Files that are written

A file that is written is read again under the same path, and nothing else changes.

* `Files.entry?_put`: what stands in a tree of files after one entry has been put;
* `Files.locate_eq_ok_iff`: where a path leads to;
* `Files.locate_mono`: a path leads to the same place as long as no directory is lost, so what was written there is
  read (`Files.read_put`).
-/

namespace ThreeAddress

private theorem lookup_map_ite (entries : List (List String × Entry)) (place other : List String) (entry : Entry) :
    (entries.map fun (key, old) => (key, if key = place then entry else old)).lookup other =
      (entries.lookup other).map fun old => if other = place then entry else old := by
  induction entries with
  | nil => rfl
  | cons first entries ih =>
    obtain ⟨key, old⟩ := first
    by_cases h : other = key
    · subst h
      simp
    · have hne : (other == key) = false := by simpa using h
      simpa [List.lookup_cons, hne] using ih

/-- An entry that is put changes nothing elsewhere. -/
theorem Files.entry?_put (files : Files) {place : List String} (hplace : place ≠ []) (entry : Entry)
    (other : List String) :
    Files.entry? (files.put place entry) other = if other = place then some entry else files.entry? other := by
  by_cases hroot : other = []
  · subst hroot
    rw [if_neg hplace.symm]
    rfl
  have hother : other.isEmpty = false := by simpa using hroot
  simp only [Files.entry?, hother, Bool.false_eq_true, if_false, Files.put]
  split
  · rename_i hold
    rw [lookup_map_ite]
    by_cases h : other = place
    · subst h
      obtain ⟨old, hold⟩ := Option.isSome_iff_exists.1 hold
      simp [hold]
    · simp [h]
  · rename_i hnew
    rw [List.lookup_append]
    by_cases h : other = place
    · subst h
      rw [Bool.not_eq_true, Option.isSome_eq_false_iff, Option.isNone_iff_eq_none] at hnew
      simp [hnew]
    · have hne : (other == place) = false := by simpa using h
      simp [h, List.lookup_cons, hne]

private theorem Files.workingDirectory_put (files : Files) (place : List String) (entry : Entry) :
    (files.put place entry).workingDirectory = files.workingDirectory := by
  unfold Files.put
  split <;> rfl

/-! ### Where a path leads to -/

private theorem bind_eq_ok_iff {ε α β : Type} {x : Except ε α} {f : α → Except ε β} {b : β} :
    x >>= f = .ok b ↔ ∃ a, x = .ok a ∧ f a = .ok b := by
  cases x with
  | error e => simp [bind, Except.bind]
  | ok a => simp [bind, Except.bind]

/-- A path leads to its last name, in the directory to which its other names lead. -/
theorem Files.locate_eq_ok_iff {files : Files} {path : String} {place : List String} :
    files.locate path = .ok place ↔ ∃ start directory name, files.start path = .ok start ∧
      (pathNames path).dropLast.foldlM files.enter start = .ok directory ∧ (pathNames path).getLast? = some name ∧
      ¬ (path.toList.getLast? = some '/' || name = "." || name = "..") ∧ place = directory ++ [name] := by
  simp only [Files.locate, bind_eq_ok_iff]
  constructor
  · rintro ⟨start, hstart, directory, hwalk, h⟩
    split at h
    · cases h
    · rename_i name hlast
      split at h
      · cases h
      · rename_i hname
        cases h
        exact ⟨start, directory, name, hstart, hwalk, hlast, hname, rfl⟩
  · rintro ⟨start, directory, name, hstart, hwalk, hlast, hname, rfl⟩
    refine ⟨start, hstart, directory, hwalk, ?_⟩
    rw [hlast]
    dsimp only
    rw [if_neg hname]
    rfl

theorem Files.locate_ne_nil {files : Files} {path : String} {place : List String}
    (h : files.locate path = .ok place) : place ≠ [] := by
  obtain ⟨-, directory, name, -, -, -, -, rfl⟩ := locate_eq_ok_iff.1 h
  simp

/-- Something can be written to the path. -/
def Files.CanWrite (files : Files) (path : String) : Prop := ∃ content files', files.write path content = .ok files'

theorem Files.write_eq {files : Files} {path : String} {place : List String} (hplace : files.locate path = .ok place)
    (hentry : files.entry? place ≠ some .directory) (content : ByteArray) :
    files.write path content = .ok (files.put place (.file content)) := by
  rw [Files.write, bind_eq_ok_iff]
  refine ⟨place, hplace, ?_⟩
  split
  · rename_i hdirectory
    exact absurd hdirectory hentry
  · rfl

/-- A path to which something can be written leads to a place that is no directory. -/
theorem Files.CanWrite.exists_place {files : Files} {path : String} (h : files.CanWrite path) :
    ∃ place, files.locate path = .ok place ∧ files.entry? place ≠ some .directory := by
  obtain ⟨content, files', hwrite⟩ := h
  rw [Files.write, bind_eq_ok_iff] at hwrite
  obtain ⟨place, hplace, hput⟩ := hwrite
  refine ⟨place, hplace, ?_⟩
  intro hdirectory
  rw [hdirectory] at hput
  cases hput

theorem Files.CanWrite.ne_empty {files : Files} {path : String} (h : files.CanWrite path) : path ≠ "" := by
  rintro rfl
  obtain ⟨place, hplace, -⟩ := h.exists_place
  obtain ⟨start, -, -, hstart, -⟩ := Files.locate_eq_ok_iff.1 hplace
  cases hstart

section Directories

variable {files files' : Files} (hworking : files'.workingDirectory = files.workingDirectory)
  (h : ∀ place, files.entry? place = some .directory → files'.entry? place = some .directory)
include h

/-- A name leads from a directory to the same one in a tree that has the same directories and perhaps more. -/
private theorem Files.enter_mono {start next : List String} {name : String}
    (henter : files.enter start name = .ok next) : files'.enter start name = .ok next := by
  revert henter
  fun_cases enter files start name with
  | case1 hdot =>
    intro henter
    rwa [enter, if_pos hdot]
  | case2 hdot hparent =>
    intro henter
    rwa [enter, if_neg hdot, if_pos hparent]
  | case3 hdot hparent hentry =>
    intro henter
    rwa [enter, if_neg hdot, if_neg hparent, h _ hentry]
  | case4 hdot hparent content hentry =>
    intro henter
    cases henter
  | case5 hdot hparent hentry =>
    intro henter
    cases henter

private theorem Files.walk_mono {names start directory : List String}
    (hwalk : names.foldlM files.enter start = .ok directory) :
    names.foldlM files'.enter start = .ok directory := by
  induction names generalizing start with
  | nil => exact hwalk
  | cons name names ih =>
    rw [List.foldlM_cons, bind_eq_ok_iff] at hwalk ⊢
    obtain ⟨next, henter, hrest⟩ := hwalk
    exact ⟨next, enter_mono h henter, ih hrest⟩

include hworking

private theorem Files.start_mono {path : String} {start : List String} (hstart : files.start path = .ok start) :
    files'.start path = .ok start := by
  revert hstart
  fun_cases Files.start files path with
  | case1 hempty =>
    intro hstart
    cases hstart
  | case2 hempty hslash =>
    intro hstart
    rwa [Files.start, if_neg hempty, if_pos hslash]
  | case3 hempty hslash hentry =>
    intro hstart
    rwa [Files.start, if_neg hempty, if_neg hslash, hworking, h _ hentry]
  | case4 hempty hslash hentry =>
    intro hstart
    cases hstart

/-- A path leads to the same place as long as no directory is lost. -/
theorem Files.locate_mono {path : String} {place : List String} (hplace : files.locate path = .ok place) :
    files'.locate path = .ok place := by
  rw [locate_eq_ok_iff] at hplace ⊢
  obtain ⟨start, directory, name, hstart, hwalk, hname⟩ := hplace
  exact ⟨start, directory, name, start_mono hworking h hstart, walk_mono h hwalk, hname⟩

end Directories

/-- A file that has been written is read again: the path leads to the same place, since no directory was lost. -/
theorem Files.read_put {files : Files} {path : String} {place : List String} (hplace : files.locate path = .ok place)
    (hentry : files.entry? place ≠ some .directory) (content : ByteArray) :
    (files.put place (.file content)).read path = .ok content := by
  have hne := locate_ne_nil hplace
  have hkept : ∀ other, files.entry? other = some .directory →
      Files.entry? (files.put place (.file content)) other = some .directory := by
    intro other hother
    rw [entry?_put files hne, if_neg, hother]
    rintro rfl
    exact hentry hother
  have hagain := locate_mono (files.workingDirectory_put place (.file content)) hkept hplace
  rw [Files.read, bind_eq_ok_iff]
  refine ⟨place, hagain, ?_⟩
  rw [entry?_put files hne, if_pos rfl]
  rfl

end ThreeAddress
