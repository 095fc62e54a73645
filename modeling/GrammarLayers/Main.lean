import GrammarLayers.Command.Session
import GrammarLayers.Tree.Changes

/-!
# The command line

Reads what the arguments refer to into a file tree, carries out the command on that, and then
prints and writes what came of it.
-/

namespace GrammarLayers.Main

/-- A place as an absolute path. -/
def placeText (place : Place) : String := "/" ++ "/".intercalate place

/-- What is found at a name in a directory. A link is taken to lead straight to where it
ends; one that leads nowhere leads to a name that nothing can have. -/
def look (parent : Place) (name : String) : IO (Option Entry) := do
  let entry : IO.FS.DirEntry := ⟨placeText parent, name⟩
  try
    match (← entry.path.symlinkMetadata).type with
    | .dir => return some (.directory [])
    | .file => return some (.file (← IO.FS.readBinFile entry.path))
    | .symlink =>
      try return some (.link ⟨(← IO.FS.realPath entry.path).toString⟩)
      catch _ => return some (.link ⟨"\x00"⟩)
    | .other => return none
  catch _ => return none

/-- The tree with an entry that was found at a place. Of a directory that the tree has
already, it keeps what it knows. -/
def addFound (t : FileTree) (place : Place) (entry : Entry) : FileTree :=
  match t.entry? place, entry with
  | some (.directory _), .directory _ => t
  | _, _ => t.put place entry

/-- Reads what lies on the way of some steps from a place. -/
partial def addSteps (t : FileTree) (place : Place) : List Step → IO FileTree
  | [] => return t
  | .stay :: rest => addSteps t place rest
  | .up :: rest => addSteps t place.dropLast rest
  | .down name :: rest => do
    match ← look place name with
    | none => return t
    | some entry =>
      let t := addFound t (place ++ [name]) entry
      match entry with
      | .link target => addSteps t [] (target.steps ++ rest)
      | _ => addSteps t (place ++ [name]) rest

/-- Reads what lies on the way of a path. -/
def addPath (t : FileTree) (p : Path) : IO FileTree :=
  addSteps t (if p.isAbsolute then [] else t.workingDirectory) p.steps

/-- Reads everything in a directory, and in directories that links in it lead to. -/
partial def addBelow (t : FileTree) (place : Place) : IO FileTree := do
  let directory : IO.FS.DirEntry := ⟨placeText place.dropLast, place.getLast?.getD "."⟩
  let names := (← directory.path.readDir).toList.map (·.fileName)
  names.foldlM (fun t name => do
    match ← look place name with
    | none => return t
    | some entry =>
      let t := addFound t (place ++ [name]) entry
      match entry with
      | .directory _ => addBelow t (place ++ [name])
      | .file _ => return t
      | .link target =>
        let known := (t.canonical? target).isSome
        let t ← addPath t target
        match t.stat target with
        | .ok (inner, .directory _) => if known then return t else addBelow t inner
        | _ => return t) t

/-- The paths that a command refers to, besides the root. -/
def otherPaths : Command → List Path
  | .extract g _ => g.dialect :: g.license.toList
  | .generate g output => g.dialect :: (g.license.toList ++ output.toList)
  | .list g .. => g.dialect :: g.license.toList
  | .completions _ => []

/-- The grammar that a command refers to. -/
def grammar? : Command → Option GrammarArguments
  | .extract g _ | .generate g _ | .list g .. => some g
  | .completions _ => none

/-- The paths that the manifest of a grammar refers to. -/
def manifestPaths (t : FileTree) (g : GrammarArguments) : List Path :=
  match Manifest.ofGrammar t g.root with
  | .ok (m, _) => m.generatedPath g.dialect :: (m.license.map g.root.join).toList
  | .error _ => []

/-- Reads what a command refers to. -/
def readTree (c : Command) : IO FileTree := do
  let here : Path := ⟨(← IO.currentDir).toString⟩
  let names := here.components.filterMap fun
    | .name name => some name
    | _ => none
  let t : FileTree := { top := [], workingDirectory := names }
  let t ← addPath t here
  let t ← (otherPaths c).foldlM addPath t
  match grammar? c with
  | none => return t
  | some g =>
    let t ← addPath t g.root
    match t.stat g.root with
    | .ok (place, .directory _) =>
      let t ← addBelow t place
      (manifestPaths t g).foldlM addPath t
    | _ => return t

/-- Writes what has changed. -/
def writeChanges (before after : FileTree) : IO Unit :=
  (FileTree.changesBelow [] before after).forM fun (path, bytes) => do
    match (Path.mk ("/" ++ path)).parent? with
    | some parent => IO.FS.createDirAll parent.text
    | none => return
    IO.FS.writeBinFile ("/" ++ path) bytes

end GrammarLayers.Main

open GrammarLayers in
/-- Carries out a command line. -/
def main (arguments : List String) : IO UInt32 := do
  match Invocation.ofArguments arguments with
  | .error fault =>
    IO.eprintln "usage: [-q] (extract | generate | list) ROOT DIALECT [OPTION ...]"
    return fault.exitCode.toUInt32
  | .ok invocation =>
    let tree ← Main.readTree invocation.command
    let (outcome, session) := invocation.run.run.run { tree }
    IO.eprint session.errors
    IO.print session.output
    Main.writeChanges tree session.tree
    match outcome with
    | .ok () => return 0
    | .error failure =>
      IO.eprintln failure.message
      failure.help?.forM fun help => IO.eprintln ("help: " ++ help)
      return 1
