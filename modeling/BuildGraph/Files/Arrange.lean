import BuildGraph.Files.Write

/-!
# Arranging files

Steps that set up files before a run or change them between runs, as a user would with a shell:
missing directories above an entry are made, a text goes through a link to the file it names, and
a step that cannot be carried out changes nothing but the directories made on the way.

No run takes such steps.  They are for what stands around a run: the program states with them the
files that it found, one by one.
-/

namespace BuildGraph

/-- One change made to the files from outside. -/
inductive Arrangement where
  | file (path : String) (content : ByteArray) (executable : Bool)
  | directory (path : String)
  | link (path target : String)
  | special (path : String)
  /-- Deletes an entry and what lies below it. -/
  | remove (path : String)
  deriving Inhabited

namespace Files

/-- The files without an entry and what lies below it. -/
def remove (fs : Files) (l : Location) : Files :=
  { fs with entries := fs.entries.filter fun e => (Path.dropPrefix? l e.1).isNone }

/-- The entry placed at a path where nothing is. -/
def arrangeNew (fs : Files) (p : String) (e : Entry) : Files :=
  let fs := (fs.createDirectories (Path.directoryOf p)).2
  match fs.place p with
  | .ok (some (dir, name, _)) =>
    match fs.lookup (dir ++ [name]) with
    | none => fs.insert (dir ++ [name]) e
    | some _ => fs
  | _ => fs

/-- The files after one change. -/
def arrange (fs : Files) : Arrangement → Files
  | .file p content executable =>
    let fs := (fs.createDirectories (Path.directoryOf p)).2
    match fs.resolve p with
    | .ok l =>
      if fs.isDirectoryAt l then fs else fs.insert l (.file content executable)
    | .error _ => fs.arrangeNew p (.file content executable)
  | .directory p => (fs.createDirectories p).2
  | .link p target => fs.arrangeNew p (.link target)
  | .special p => fs.arrangeNew p .special
  | .remove p =>
    match fs.place p with
    | .ok (some (dir, name, _)) => fs.remove (dir ++ [name])
    | _ => fs

/-- The files after a list of changes. -/
def arrangeAll (fs : Files) (steps : List Arrangement) : Files := steps.foldl arrange fs

end Files

end BuildGraph
