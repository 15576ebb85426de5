import ProjectScope.Error

/-!
# File trees

A tree of directories, regular files and symbolic links, looked up the way a POSIX system does: step
by step, each step from a directory, links followed wherever they stand, and at most `linkLimit` of
them in one lookup.
-/

namespace ProjectScope

/-- The names that lead from the root to an entry. -/
abbrev Location := List String

/-- What stands at a location. -/
inductive Entry where
  | directory
  | file (bytes : List UInt8)
  | link (target : Path)
  deriving DecidableEq, Repr

namespace Entry

/-- Whether an entry is a directory. -/
def isDirectory : Entry → Bool
  | directory => true
  | _ => false

/-- Whether an entry is a regular file. -/
def isFile : Entry → Bool
  | file _ => true
  | _ => false

/-- Whether an entry is a symbolic link. -/
def isLink : Entry → Bool
  | link _ => true
  | _ => false

end Entry

/-- A tree of entries, and the directory from which relative paths lead. The root is always a
directory. An entry that does not stand in a directory cannot be reached. -/
structure FileTree where
  entries : List (Location × Entry) := []
  workingDirectory : Location := []
  deriving Repr

namespace FileTree

/-- What stands at a location, without following links. -/
def entry? (t : FileTree) (l : Location) : Option Entry :=
  if l.isEmpty then some .directory else t.entries.lookup l

/-- The number of links that one lookup follows. -/
def linkLimit : Nat := 40

/-- The greatest number of bytes in a name. -/
def nameLimit : Nat := 255

/-- The least number of bytes that are too many for a path. -/
def pathLimit : Nat := 4096

/-- Go from a location along pieces of a path; `follow` goes on where a link has been met, whose
pieces then stand before the remaining ones. A piece that names nothing still asks for a
directory. -/
def walkWith (t : FileTree) (follow : Location → List Segment → Except IoError Location)
    (here : Location) : List Segment → Except IoError Location
  | [] => .ok here
  | s :: rest =>
    if !(t.entry? here).any Entry.isDirectory then .error .notADirectory
    else match s.component? with
      | none => walkWith t follow here rest
      | some .up => walkWith t follow here.dropLast rest
      | some (.name n) =>
        if nameLimit < n.utf8ByteSize then .error .nameTooLong
        else match t.entry? (here ++ [n]) with
          | none => .error .notFound
          | some (.link target) =>
            follow (if target.isAbsolute then [] else here) (target.pieces ++ rest)
          | some _ => walkWith t follow (here ++ [n]) rest
      | some _ => .error .notFound

/-- Go from a location along pieces of a path, through at most `links` links. -/
def walk (t : FileTree) : Nat → Location → List Segment → Except IoError Location
  | 0 => t.walkWith fun _ _ => .error .tooManyLinks
  | links + 1 => t.walkWith (t.walk links)

/-- The location that a path leads to, with every link on the way followed. -/
def realpath (t : FileTree) (p : Path) : Except IoError Location :=
  if p.text.toList.contains '\x00' then .error .nulInName
  else if p.isEmpty then .error .notFound
  else t.walk linkLimit (if p.isAbsolute then [] else t.workingDirectory) p.pieces

/-- What a path leads to, with links followed. -/
def stat (t : FileTree) (p : Path) : Except IoError Entry :=
  if !p.text.toList.contains '\x00' && pathLimit ≤ p.text.utf8ByteSize then .error .nameTooLong
  else do
    match t.entry? (← t.realpath p) with
    | some e => return e
    | none => throw .notFound

/-- Whether a path leads to a regular file. -/
def isFile (t : FileTree) (p : Path) : Bool := (t.stat p).toOption.any Entry.isFile

/-- Whether a path leads to a directory. -/
def isDirectory (t : FileTree) (p : Path) : Bool := (t.stat p).toOption.any Entry.isDirectory

/-- The text of the file that a path leads to. -/
def readText (t : FileTree) (p : Path) : Except IoError String := do
  match ← t.stat p with
  | .file bytes =>
    match String.fromUTF8? ⟨bytes.toArray⟩ with
    | some s => return s
    | none => throw .notUtf8
  | .directory => throw .isADirectory
  | .link _ => throw .notFound

end FileTree

end ProjectScope
