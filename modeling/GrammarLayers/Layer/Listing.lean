import GrammarLayers.Layer.Failure
import GrammarLayers.Merge.Lexicon
import GrammarLayers.Tree.FileTree

/-!
# Listing a directory of a grammar

A directory of a grammar holds fragments, which are told by their extension, token tables,
which are told by their names, and further directories. Anything else in it is passed over.
Entries are taken in the order of their names, and links count as what they lead to.

## Main definitions

* `Listing` — fragments, tables and directories in a directory
* `Listing.ofDirectory` — list a directory
* `Listing.directory?` — the directory of a given name
-/

namespace GrammarLayers

/-- What a directory holds, each part sorted by name. -/
structure Listing where
  fragments : List Path := []
  tables : List (TableKind × Path) := []
  directories : List Path := []
  deriving DecidableEq, Repr

namespace Listing

/-- Whether an entry is a directory, links followed. `directory` is the listed directory and
`place` where it is; a link back to it cannot be listed. -/
def isDirectoryEntry (t : FileTree) (directory : Path) (place : Place) (path : Path) :
    Entry → Except Failure Bool
  | .file _ => .ok false
  | .directory _ => .ok true
  | .link _ =>
    match t.stat path with
    | .error cause => .error (.unlistable path (.system cause))
    | .ok (target, .directory _) =>
      if target = place then .error (.unlistable path (.loop directory)) else .ok true
    | .ok _ => .ok false

/-- The listing with one more entry. A directory is never taken for a file; of the files, a
table is told by its name before any extension counts. -/
def addEntry (l : Listing) (extension : String) (path : Path) (isDirectory : Bool) : Listing :=
  if isDirectory then { l with directories := l.directories ++ [path] }
  else
    match path.fileName?.bind TableKind.ofFile? with
    | some kind => { l with tables := l.tables ++ [(kind, path)] }
    | none =>
      if path.extension? = some extension then { l with fragments := l.fragments ++ [path] }
      else l

/-- The listing with more entries, up to the first that cannot be looked at. -/
def addEntries (t : FileTree) (directory : Path) (place : Place) (extension : String) :
    Listing → List (String × Entry) → Except Failure Listing
  | l, [] => .ok l
  | l, (name, entry) :: rest => do
    let path := directory.join ⟨name⟩
    let isDirectory ← isDirectoryEntry t directory place path entry
    addEntries t directory place extension (l.addEntry extension path isDirectory) rest

/-- Lists a directory. A file in its place lists as empty. -/
def ofDirectory (t : FileTree) (extension : String) (directory : Path) :
    Except Failure Listing :=
  match t.stat directory with
  | .error cause => .error (.unlistable directory (.system cause))
  | .ok (place, .directory entries) =>
    addEntries t directory place extension {} (Directory.sorted entries)
  | .ok _ => .ok {}

/-- The listed directory of a given name. -/
def directory? (l : Listing) (name : String) : Option Path :=
  l.directories.find? (·.fileName? == some name)

end Listing

end GrammarLayers
