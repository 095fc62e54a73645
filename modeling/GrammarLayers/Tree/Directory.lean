import GrammarLayers.Tree.Path

/-!
# Directories

A directory is a list of names with what they name: a file with its bytes, a directory, or a
symbolic link. A place in it is given by the names that lead there.

## Main definitions

* `Place` — where something is: names from the top directory down
* `Entry`, `Directory` — what is found at a place; what a directory holds
* `Directory.at?`, `Directory.put` — look at a place, and put something there
* `Directory.sorted` — the names in a directory in order
* `Directory.files` — the files in and below a directory
-/

namespace GrammarLayers

/-- Names from the top directory down. -/
abbrev Place := List String

/-- The bytes that a place takes as a path from the top. -/
def Place.size : Place → Nat
  | [] => 0
  | name :: place => 1 + name.utf8ByteSize + Place.size place

/-- What is found at a place. -/
inductive Entry where
  | file (bytes : ByteArray)
  | directory (entries : List (String × Entry))
  | link (target : Path)

/-- What a directory holds: names with what they name. -/
abbrev Directory := List (String × Entry)

namespace Directory

/-- What the directory under a name holds: nothing if there is no such directory. -/
def below (d : Directory) (name : String) : Directory :=
  match d.lookup name with
  | some (.directory entries) => entries
  | _ => []

/-- The directory with an entry under a name, in the stead of any that it had. -/
def set (name : String) (entry : Entry) : Directory → Directory
  | [] => [(name, entry)]
  | (other, old) :: rest =>
    if other = name then (name, entry) :: rest else (other, old) :: set name entry rest

/-- What is at a place in or below a directory. -/
def at? (d : Directory) : Place → Option Entry
  | [] => some (.directory d)
  | [name] => d.lookup name
  | name :: place => (d.below name).at? place

/-- The directory with an entry at a place, in the stead of any that was there. What is on
the way to the place and no directory becomes one. -/
def put (d : Directory) (entry : Entry) : Place → Directory
  | [] => d
  | [name] => d.set name entry
  | name :: place => d.set name (.directory ((d.below name).put entry place))

/-- The entries in the order of their names. -/
def sorted (d : Directory) : Directory := d.mergeSort fun a b => a.1 ≤ b.1

end Directory

mutual

/-- The files at and below an entry, with their places as seen from it. Links are not
followed. -/
def Entry.files : Entry → List (Place × ByteArray)
  | .file bytes => [([], bytes)]
  | .directory entries => Directory.files entries
  | .link _ => []

/-- The files in and below a directory, with their places as seen from it. -/
def Directory.files : List (String × Entry) → List (Place × ByteArray)
  | [] => []
  | (name, entry) :: rest =>
    (Entry.files entry).map (fun (place, bytes) => (name :: place, bytes)) ++
      Directory.files rest

end

end GrammarLayers
