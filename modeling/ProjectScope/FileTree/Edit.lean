import ProjectScope.FileTree.Basic

/-!
# Changing a file tree

Making directories, writing files, linking and removing. Directories on the way are made as needed.
A change that the disk would refuse leaves the tree as it is.
-/

namespace ProjectScope.FileTree

/-- Put an entry at a location, in place of what stands there. -/
def put (t : FileTree) (l : Location) (e : Entry) : FileTree :=
  { t with entries := (l, e) :: t.entries.filter (·.1 != l) }

/-- Go one piece further, through a directory that is made if nothing stands there. -/
def enter (state : FileTree × Location) (s : Segment) : FileTree × Location :=
  let (t, here) := state
  match t.walk linkLimit here [s], s.component? with
  | .ok there, _ => (t, there)
  | .error _, some (.name n) =>
    if (t.entry? (here ++ [n])).isNone then (t.put (here ++ [n]) .directory, here ++ [n])
    else (t, here)
  | .error _, _ => (t, here)

/-- Make the directories that an absolute path leads through, and go there. -/
def openDirectory (t : FileTree) (p : Path) : FileTree × Location :=
  p.pieces.foldl enter (t, [])

/-- Make a directory and those above it. -/
def makeDirectory (t : FileTree) (p : Path) : FileTree := (t.openDirectory p).1

/-- Go to the directory of an entry, and split off its name. -/
def openParent (t : FileTree) (p : Path) : FileTree × Location × Option String :=
  match p.components.getLast? with
  | some (.name n) =>
    let (t, here) := t.openDirectory (p.parent?.getD ⟨""⟩)
    (t, here, some n)
  | _ => (t, [], none)

/-- The location that a name in a directory stands for once links are followed, be there an entry or
not. -/
def target (t : FileTree) : Nat → Location → String → Location
  | 0, here, n => here ++ [n]
  | links + 1, here, n =>
    match t.entry? (here ++ [n]) with
    | some (.link p) =>
      match p.components.getLast? with
      | some (.name m) =>
        let start := if p.isAbsolute then [] else here
        match t.walk linkLimit start (p.parent?.getD ⟨""⟩).pieces with
        | .ok there => t.target links there m
        | .error _ => here ++ [n]
      | _ => here ++ [n]
    | _ => here ++ [n]

/-- Write a file, through links. -/
def writeFile (t : FileTree) (p : Path) (bytes : List UInt8) : FileTree :=
  match t.openParent p with
  | (t, here, some n) =>
    let l := t.target linkLimit here n
    if (t.entry? l).any fun e => !e.isFile then t else t.put l (.file bytes)
  | (t, _, none) => t

/-- Make a symbolic link where nothing stands. -/
def makeLink (t : FileTree) (p target : Path) : FileTree :=
  match t.openParent p with
  | (t, here, some n) =>
    if (t.entry? (here ++ [n])).isSome then t else t.put (here ++ [n]) (.link target)
  | (t, _, none) => t

/-- Remove an entry and all that lies below it. A link is removed itself. -/
def remove (t : FileTree) (p : Path) : FileTree :=
  match p.components.getLast? with
  | some (.name n) =>
    match t.walk linkLimit [] (p.parent?.getD ⟨""⟩).pieces with
    | .ok here => { t with entries := t.entries.filter fun (l, _) => !(here ++ [n]).isPrefixOf l }
    | .error _ => t
  | _ => t

end ProjectScope.FileTree
