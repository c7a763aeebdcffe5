import BuildGraph.Path

/-!
# Files

The files that a run reads and changes, as a value: entries by location, and a working directory.
A location is the list of names from the root, free of links and dots; the root itself is always
a directory.  Every operation on files is a function of this value, so what it leaves alone can be
stated as an equation.
-/

namespace BuildGraph

/-- Names from the root down to an entry. -/
abbrev Location := List String

/-- The absolute path of a location. -/
def Location.path (l : Location) : String := Path.render true l

/-- What lies at a location. -/
inductive Entry where
  | file (content : ByteArray) (executable : Bool)
  | directory
  /-- A symbolic link with the text of its target. -/
  | link (target : String)
  /-- A pipe, a socket or a device. -/
  | special
  deriving DecidableEq, Inhabited

/-- Whether an entry is a directory. -/
def Entry.isDirectory : Entry → Bool
  | .directory => true
  | _ => false

/-- Why an operation on files failed. -/
inductive FileError where
  | notFound
  | denied
  | occupied
  | notDirectory
  | isDirectory
  | nameTooLong
  /-- More links on a way than are followed. -/
  | tooManyLinks
  /-- A path with the character NUL. -/
  | nulInPath
  /-- A file that is not text in UTF-8. -/
  | invalidText
  /-- An executable file that is no program. -/
  | notProgram
  /-- An argument of a program with the character NUL. -/
  | nulInArgument
  | argumentsTooLong
  deriving DecidableEq, Repr, Inhabited

/-- The text that is shown for a failed operation. -/
def FileError.message : FileError → String
  | .notFound => "No such file or directory (os error 2)"
  | .denied => "Permission denied (os error 13)"
  | .occupied => "File exists (os error 17)"
  | .notDirectory => "Not a directory (os error 20)"
  | .isDirectory => "Is a directory (os error 21)"
  | .nameTooLong => "File name too long (os error 36)"
  | .tooManyLinks => "Too many levels of symbolic links (os error 40)"
  | .nulInPath => "file name contained an unexpected NUL byte"
  | .invalidText => "stream did not contain valid UTF-8"
  | .notProgram => "Exec format error (os error 8)"
  | .nulInArgument => "nul byte found in provided data"
  | .argumentsTooLong => "Argument list too long (os error 7)"

/-- Entries by location, and the directory from which relative paths start. -/
structure Files where
  entries : List (Location × Entry) := []
  workdir : Location := []
  deriving DecidableEq, Inhabited

namespace Files

/-- The entry at a location. -/
def lookup (fs : Files) (l : Location) : Option Entry :=
  if l = [] then some .directory
  else (fs.entries.find? (·.1 == l)).map (·.2)

/-- The files with an entry added or replaced. -/
def insert (fs : Files) (l : Location) (e : Entry) : Files :=
  { fs with entries := (l, e) :: fs.entries.filter (·.1 != l) }

/-- Whether a directory lies at a location. -/
def isDirectoryAt (fs : Files) (l : Location) : Bool :=
  fs.lookup l == some .directory

@[simp] theorem lookup_root (fs : Files) : fs.lookup [] = some .directory := by simp [lookup]

theorem lookup_insert_self (fs : Files) {l : Location} (e : Entry) (h : l ≠ []) :
    (fs.insert l e).lookup l = some e := by
  simp [lookup, insert, h]

/-- An insertion changes one location. -/
theorem lookup_insert_of_ne (fs : Files) {l m : Location} (e : Entry) (h : m ≠ l) :
    (fs.insert l e).lookup m = fs.lookup m := by
  unfold lookup insert
  split
  · rfl
  · have hne : (l == m) = false := by simp [Ne.symm h]
    simp only [List.find?_cons, hne, List.find?_filter]
    congr 2
    funext p
    by_cases hp : p.1 = m
    · simp [hp, h]
    · simp [hp]

/-- Entries at and below a location, each with its location from there, in order of their paths. -/
def listing (fs : Files) (root : Location) : List (Location × Entry) :=
  let found := fs.entries.filterMap fun e =>
    match Path.dropPrefix? root e.1 with
    | some (name :: names) => some (name :: names, e.2)
    | _ => none
  found.mergeSort fun a b => decide (Text.join "/" a.1 ≤ Text.join "/" b.1)

end Files

end BuildGraph
