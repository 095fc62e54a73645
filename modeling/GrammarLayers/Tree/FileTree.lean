import GrammarLayers.Tree.Walk

/-!
# File trees

A file tree is what the top directory holds, with a working directory from which relative
paths start. A path can be looked at, written to, or made a directory or a link.

## Main definitions

* `FileTree` — all of a file system
* `FileTree.resolve` — where a path leads
* `FileTree.stat`, `FileTree.readText`, `FileTree.canonical?` — look at a tree
* `FileTree.write`, `FileTree.createDirectories`, `FileTree.makeLink` — change it
-/

namespace GrammarLayers

/-- A file system with a working directory. -/
structure FileTree where
  top : Directory
  workingDirectory : Place

namespace FileTree

/-- What is at a place. -/
def entry? (t : FileTree) (place : Place) : Option Entry := t.top.at? place

/-- The tree with an entry at a place, in the stead of any that was there. -/
def put (t : FileTree) (place : Place) (entry : Entry) : FileTree :=
  { t with top := t.top.put entry place }

/-- The directory that a path starts from. -/
def start (t : FileTree) (p : Path) : Spot :=
  if p.isAbsolute then ⟨t.top, []⟩ else Spot.descend ⟨t.top, []⟩ t.workingDirectory

/-- Where a path leads. -/
def resolve (t : FileTree) (aim : Aim) (p : Path) : Except SystemError Target :=
  (t.start p).walk aim linkLimit p.allSteps

/-- The place a path leads to through all links, and what is there. -/
def stat (t : FileTree) (p : Path) : Except SystemError (Place × Entry) := do
  p.check
  match ← t.resolve .look p with
  | ⟨place, some entry⟩ => return (place, entry)
  | ⟨_, none⟩ => throw .notFound

/-- The place a path leads to through all links, if there is something. The path itself may
be of any size: it is followed name by name. -/
def canonical? (t : FileTree) (p : Path) : Option Place :=
  match p.checkText, t.resolve .locate p with
  | .ok (), .ok ⟨place, some _⟩ => some place
  | _, _ => none

/-- Whether a path leads to a file. -/
def isFile (t : FileTree) (p : Path) : Bool :=
  match t.stat p with
  | .ok (_, .file _) => true
  | _ => false

/-- Whether a path leads to a directory. -/
def isDirectory (t : FileTree) (p : Path) : Bool :=
  match t.stat p with
  | .ok (_, .directory _) => true
  | _ => false

/-- The bytes of a file. -/
def readBytes (t : FileTree) (p : Path) : Except SystemError ByteArray := do
  match ← t.stat p with
  | (_, .file bytes) => return bytes
  | _ => throw .isDirectory

/-- The text of a file. -/
def readText (t : FileTree) (p : Path) : Except SystemError String := do
  match String.fromUTF8? (← t.readBytes p) with
  | some text => return text
  | none => throw .notText

end FileTree

/-- Something done to a file tree. What was done before a failure stays done. -/
abbrev TreeAction := ExceptT SystemError (StateM FileTree)

namespace FileTree

/-- Where the last of some steps of a path is done, and what that directory holds. -/
def parent (t : FileTree) (p : Path) (steps : List Step) :
    Except SystemError (Place × Directory) := do
  match ← (t.start p).walk .look linkLimit (steps.dropLast ++ [.stay]) with
  | ⟨place, some (.directory entries)⟩ => return (place, entries)
  | _ => throw .notDirectory

/-- Writes a file: a new one, or in the stead of the bytes it had. -/
def write (p : Path) (bytes : ByteArray) : TreeAction Unit := do
  let t ← get
  p.check
  match p.endsInSlash, p.steps.getLast? with
  | false, some (.down _) =>
    match ← t.resolve .write p with
    | ⟨_, some (.directory _)⟩ => throw .isDirectory
    | ⟨place, _⟩ => set (t.put place (.file bytes))
  | _, _ =>
    let _ ← t.parent p p.steps
    throw .isDirectory

/-- Puts a new entry where nothing is. -/
def create (p : Path) (entry : Entry) : TreeAction Unit := do
  let t ← get
  p.check
  let steps := p.steps
  let (place, entries) ← t.parent p steps
  match steps.getLast? with
  | some (.down name) =>
    if nameLimit < name.utf8ByteSize then throw .nameTooLong
    match entries.lookup name with
    | some _ => throw .alreadyExists
    | none => set (t.put (place ++ [name]) entry)
  | _ => throw .alreadyExists

/-- Makes a symbolic link. -/
def makeLink (p target : Path) : TreeAction Unit := do
  target.check
  create p (.link target)

/-- Makes a directory if none is there. -/
def ensureDirectory (p : Path) : TreeAction Unit := do
  try create p (.directory [])
  catch
  | .notFound => throw .notFound
  | cause => unless (← get).isDirectory p do throw cause

/-- Makes a directory, after its parents where they are missing; `depth` bounds how far up
they are looked for. -/
def createDirectoriesFrom (depth : Nat) (p : Path) : TreeAction Unit := do
  try ensureDirectory p
  catch
  | .notFound =>
    match depth, p.parent? with
    | depth + 1, some parent =>
      unless parent.text.isEmpty do createDirectoriesFrom depth parent
      ensureDirectory p
    | _, _ => throw .notFound
  | cause => throw cause

/-- Makes a directory, after its parents where they are missing. -/
def createDirectories (p : Path) : TreeAction Unit :=
  createDirectoriesFrom p.components.length p

end FileTree

end GrammarLayers
