import BuildGraph.Files

/-!
# Resolution of paths

A path is walked piece by piece from the root or from the working directory.  Empty pieces and
`.` stay where they are, `..` goes to the parent, and a link is replaced by its target, whose
pieces are walked before the rest.  Only a directory can be walked through.  At most
`maxLinks` links are followed on one way, so a walk always ends.
-/

namespace BuildGraph.Files

/-- Number of links that are followed on one way. -/
def maxLinks : Nat := 40

/-- Number of bytes that a name may have. -/
def maxName : Nat := 255

/-- Number of bytes that a path must stay below. -/
def maxPath : Nat := 4096

/-- Whether an entry of a directory can be looked at: by its name alone, or with `byPath` by its
absolute path. -/
def canLook (byPath : Bool) (here : Location) (name : String) : Bool :=
  name.utf8ByteSize ≤ maxName
    && (!byPath || decide ((Location.path (here ++ [name])).utf8ByteSize < maxPath))

/-- The location that pieces lead to from a directory, a link at the end followed as well. -/
def walk (fs : Files) (byPath : Bool) (links : Nat) (here : Location) (pieces : List String) :
    Except FileError Location :=
  match pieces with
  | [] => .ok here
  | piece :: rest =>
    if fs.lookup here ≠ some .directory then .error .notDirectory
    else if piece = "" ∨ piece = "." then walk fs byPath links here rest
    else if piece = ".." then walk fs byPath links here.dropLast rest
    else if !canLook byPath here piece then .error .nameTooLong
    else match fs.lookup (here ++ [piece]) with
      | none => .error .notFound
      | some (.link target) =>
        match links with
        | 0 => .error .tooManyLinks
        | links + 1 =>
          walk fs byPath links (if Path.isAbsolute target then [] else here)
            (Path.pieces target ++ rest)
      | some _ => walk fs byPath links (here ++ [piece]) rest
termination_by (links, pieces.length)

/-- Where a path starts. -/
def start (fs : Files) (p : String) : Location :=
  if Path.isAbsolute p then [] else fs.workdir

/-- Refuses what no operation takes as a path. -/
def checkPath (p : String) : Except FileError Unit :=
  if p.toList.contains '\x00' then .error .nulInPath
  else if p = "" then .error .notFound
  else if maxPath ≤ p.utf8ByteSize then .error .nameTooLong
  else .ok ()

/-- The location of the entry that a path names, all links followed. -/
def resolve (fs : Files) (p : String) : Except FileError Location :=
  match checkPath p with
  | .error e => .error e
  | .ok _ => fs.walk false maxLinks (fs.start p) (Path.pieces p)

/-- The entry that a path names, all links followed. -/
def stat (fs : Files) (p : String) : Except FileError Entry :=
  match fs.resolve p with
  | .error e => .error e
  | .ok l =>
    match fs.lookup l with
    | none => .error .notFound
    | some e => .ok e

/-- Whether a path names an entry. -/
def pathExists (fs : Files) (p : String) : Bool := (fs.stat p).toBool

/-- Whether a path names a directory. -/
def isDirectory (fs : Files) (p : String) : Bool :=
  match fs.stat p with
  | .ok e => e.isDirectory
  | .error _ => false

/-- The location of the entry that a path names, found by the absolute paths of all entries on the
way. -/
def locate (fs : Files) (p : String) : Except FileError Location :=
  match fs.stat p with
  | .error e => .error e
  | .ok _ => fs.walk true maxLinks (fs.start p) (Path.pieces p)

/-- The absolute path, free of links and dots, of the entry that a path names. -/
def canonicalize (fs : Files) (p : String) : Except FileError String :=
  (fs.locate p).map Location.path

/-- The content of the regular file that a path names; a special entry has none. -/
def read (fs : Files) (p : String) : Except FileError ByteArray :=
  match fs.stat p with
  | .error e => .error e
  | .ok (.file content _) => .ok content
  | .ok .directory => .error .isDirectory
  | .ok _ => .ok .empty

/-- The text of the regular file that a path names. -/
def readText (fs : Files) (p : String) : Except FileError String :=
  match fs.read p with
  | .error e => .error e
  | .ok content =>
    match String.fromUTF8? content with
    | none => .error .invalidText
    | some text => .ok text

/-- Where an entry of this path would lie: its directory, all links followed, its name, and
whether the path asks for a directory by a trailing slash.  A path that ends in no name has no
place. -/
def place (fs : Files) (p : String) : Except FileError (Option (Location × String × Bool)) :=
  match checkPath p with
  | .error e => .error e
  | .ok _ =>
    let reversed := (Path.pieces p).reverse
    let slashes := reversed.takeWhile (· = "")
    match reversed.dropWhile (· = "") with
    | [] => .ok none
    | name :: before =>
      match fs.walk false maxLinks (fs.start p) before.reverse with
      | .error e => .error e
      | .ok dir =>
        if fs.lookup dir ≠ some .directory then .error .notDirectory
        else if name = "." ∨ name = ".." then .ok none
        else if maxName < name.utf8ByteSize then .error .nameTooLong
        else .ok (some (dir, name, !slashes.isEmpty))

end BuildGraph.Files
