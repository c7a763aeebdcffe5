import BuildGraph.Files.Resolve

/-!
# Writing files

Files are written whole: the content appears at its path in one step or not at all, since it is
written as a draft beside that path first.  `writeNew` never touches what is there
(`writeNew_of_occupied`); `replace` puts the new file in the place of an old one.
-/

namespace BuildGraph.Files

/-! ## Directories -/

/-- Creates a directory in an existing one. -/
def createDirectory (fs : Files) (p : String) : Except FileError Files :=
  match fs.place p with
  | .error e => .error e
  | .ok none => .error .occupied
  | .ok (some (dir, name, _)) =>
    match fs.lookup (dir ++ [name]) with
    | some _ => .error .occupied
    | none => .ok (fs.insert (dir ++ [name]) .directory)

/-- Creates the directory of a path and those above it that are missing, of which there are at
most `depth`.  Directories made on the way stay when a later one cannot be made. -/
def createPath (fs : Files) (depth : Nat) (p : String) : Except FileError Unit × Files :=
  if p = "" then (.ok (), fs)
  else match fs.createDirectory p, depth, Path.parent? p with
    | .ok fs', _, _ => (.ok (), fs')
    | .error .notFound, depth + 1, some above =>
      match createPath fs depth above with
      | (.error e, fs') => (.error e, fs')
      | (.ok _, fs') =>
        match fs'.createDirectory p with
        | .ok fs'' => (.ok (), fs'')
        | .error e => (if fs'.isDirectory p then .ok () else .error e, fs')
    | .error e, _, _ => (if fs.isDirectory p then .ok () else .error e, fs)

/-- Creates a directory and those above it that are missing. -/
def createDirectories (fs : Files) (p : String) : Except FileError Unit × Files :=
  createPath fs (Path.components p).length p

/-! ## Files -/

/-- The path of a draft in a directory, up to the letters of its name.  A file is written as a
draft and then moved to its place. -/
def draftPath (fs : Files) (dir : String) : String :=
  Path.append (Path.append fs.workdir.path dir) ".tmpXXXXXX"

/-- Checks that a file can be created in a directory. -/
def checkWritable (fs : Files) (dir : String) : Except FileError Unit :=
  match fs.stat dir with
  | .error e => .error e
  | .ok e =>
    if !e.isDirectory then .error .notDirectory
    else if maxPath ≤ (fs.draftPath dir).utf8ByteSize then .error .nameTooLong
    else .ok ()

/-- Creates a file where nothing is, not even a link without target. -/
def writeNew (fs : Files) (p : String) (content : String) : Except FileError Files :=
  match fs.checkWritable (Path.directoryOf p) with
  | .error e => .error e
  | .ok _ =>
    match fs.place p with
    | .error e => .error e
    | .ok none => .error .occupied
    | .ok (some (dir, name, slash)) =>
      match fs.lookup (dir ++ [name]) with
      | some _ => .error .occupied
      | none =>
        if slash then .error .notDirectory
        else .ok (fs.insert (dir ++ [name]) (.file content.toUTF8 false))

/-- Creates a file or puts it in the place of an entry that is no directory. -/
def replace (fs : Files) (p : String) (content : String) : Except FileError Files :=
  match fs.checkWritable (Path.directoryOf p) with
  | .error e => .error e
  | .ok _ =>
    match fs.place p with
    | .error e => .error e
    | .ok none => .error .isDirectory
    | .ok (some (dir, name, slash)) =>
      if slash then .error .notDirectory
      else if fs.isDirectoryAt (dir ++ [name]) then .error .isDirectory
      else .ok (fs.insert (dir ++ [name]) (.file content.toUTF8 false))

/-- A new file is never written over an entry. -/
theorem writeNew_of_occupied {fs : Files} {p content : String} {dir : Location} {name : String}
    {slash : Bool} {e : Entry} (hp : fs.place p = .ok (some (dir, name, slash)))
    (he : fs.lookup (dir ++ [name]) = some e) : ∃ err, fs.writeNew p content = .error err := by
  unfold writeNew
  split
  · exact ⟨_, rfl⟩
  · simp [hp, he]

end BuildGraph.Files
