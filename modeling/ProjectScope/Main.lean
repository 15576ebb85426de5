import ProjectScope.Command.Run
import ProjectScope.FileTree.Edit

/-!
# The command line

The part of the disk that a request can look at is taken down as a file tree first; the request
then runs on the tree. A link is taken down as one to where it finally leads.
-/

namespace ProjectScope.Command

/-- The entry of a name in a directory of the disk. -/
def diskEntry (here : Location) (name : String) : IO.FS.DirEntry :=
  ⟨(Path.ofNames here).text, name⟩

/-- The content of a file, or nothing where it cannot be read. -/
def contentOf (entry : IO.FS.DirEntry) : IO (List UInt8) :=
  try return (← IO.FS.readBinFile entry.path).toList catch _ => return []

/-- Where a link finally leads, if anywhere. -/
def finalTarget? (entry : IO.FS.DirEntry) : IO (Option Path) :=
  try return some ⟨(← IO.FS.realPath entry.path).toString⟩ catch _ => return none

/-- The kind of an entry, if there is one. -/
def kindOf? (entry : IO.FS.DirEntry) : IO (Option IO.FS.FileType) :=
  try return some (← entry.path.symlinkMetadata).type catch _ => return none

/-- Take down what stands on a way without links. -/
def takePlain (content : Bool) (t : FileTree) (here : Location) :
    List String → IO (FileTree × Location)
  | [] => return (t, here)
  | name :: rest => do
    let entry := diskEntry here name
    match ← kindOf? entry with
    | some .dir => takePlain content (t.put (here ++ [name]) .directory) (here ++ [name]) rest
    | some .file =>
      let known := (t.entry? (here ++ [name])).any Entry.isFile
      let t ← if known && !content then pure t
        else pure (t.put (here ++ [name]) (.file (← if content then contentOf entry else pure [])))
      return (t, here ++ [name])
    | _ => return (t, here)

/-- The names of an absolute path. -/
def namesOf (p : Path) : List String :=
  p.components.filterMap fun
    | .name n => some n
    | _ => none

/-- Take down what stands on a way, and where its links lead. -/
def take (content : Bool) (t : FileTree) (here : Location) : List Segment → IO FileTree
  | [] => return t
  | s :: rest =>
    match s.component? with
    | some .up => take content t here.dropLast rest
    | some (.name n) => do
      let entry := diskEntry here n
      match ← kindOf? entry with
      | some .symlink =>
        match ← finalTarget? entry with
        | some target =>
          let t := t.put (here ++ [n]) (.link target)
          let (t, there) ← takePlain content t [] (namesOf target)
          take content t there rest
        | none => return t
      | some _ =>
        let (t, there) ← takePlain content t here [n]
        take content t there rest
      | none => return t
    | _ => take content t here rest

/-- Take down what stands on an absolute path. -/
def takePath (content : Bool) (t : FileTree) (p : Path) : IO FileTree :=
  take content t [] p.pieces

/-- Take down the files that mark and describe the directories of a tree. -/
def takeMarkers (t : FileTree) : IO FileTree := do
  let directories := [] :: (t.entries.filter (·.2.isDirectory)).map Prod.fst
  let names := [gitMarker, mercurialMarker, projectFileName, ignoreFileName]
  directories.foldlM (fun t here =>
    names.foldlM (fun t name => take (name != gitMarker) t here [name.toList]) t) t

/-- The part of the disk that an invocation can look at. -/
def takeDisk (env : Environment) (base : Path) (invocation : Option Invocation) : IO FileTree := do
  let t : FileTree := { workingDirectory := namesOf base }
  let lookups := (invocation.map (·.request.lookups)).getD []
  let readings := (invocation.map (·.request.readings)).getD []
  let user := (invocation.bind fun i => (env.user.configPath i.tool).toOption).toList
  let seen (p : Path) : Path := .absolutize base p
  let t ← takePath false t base
  let t ← (lookups.map seen).foldlM (takePath false) t
  let t ← ((readings ++ user).map seen).foldlM (takePath true) t
  takeMarkers t

/-- The variables of the environment that matter. -/
def readEnvironment : IO Environment := do
  let names := ["HOME", "XDG_CONFIG_HOME", "PROJROOT_TOOL", "PROJROOT_STDIN_FILENAME",
    "PROJROOT_LOG_MODE"]
  return ⟨← names.filterMapM fun name => do return (← IO.getEnv name).map (name, ·)⟩

end ProjectScope.Command

open ProjectScope ProjectScope.Command

/-- Run the command line, and end with its exit code. -/
def main (args : List String) : IO UInt32 := do
  let env ← readEnvironment
  let base : Path := ⟨(← IO.currentDir).toString⟩
  let tree ← takeDisk env base (Invocation.ofArguments env args).toOption
  let response := run tree env args
  response.output.forM fun (line : String) => IO.println line
  (response.notes ++ response.failureLine?.toList).forM fun (line : String) => IO.eprintln line
  return response.code.toUInt32
