import GrammarLayers.Tree.FileTree

/-!
# Changes of a file tree

What has been written between two states of a file tree.

## Main definitions

* `FileTree.filesBelow` — the files under a directory, with their paths from there
* `FileTree.changesBelow` — those that are new or hold other bytes than before
* `FileTree.changes` — the same for the working directory
-/

namespace GrammarLayers.FileTree

/-- The files under a directory, with their paths as seen from it, sorted. Links are not
followed. -/
def filesBelow (t : FileTree) (place : Place) : List (String × ByteArray) :=
  match t.entry? place with
  | some (.directory entries) =>
    ((Directory.files entries).map fun (inner, bytes) => ("/".intercalate inner, bytes)).mergeSort
      fun a b => a.1 ≤ b.1
  | _ => []

/-- The files under a directory that are new in the tree `after`, or hold other bytes there
than in `before`. -/
def changesBelow (place : Place) (before after : FileTree) : List (String × ByteArray) :=
  let old := before.filesBelow place
  (after.filesBelow place).filter fun (path, bytes) => old.lookup path != some bytes

/-- The changes under the working directory. -/
def changes (before after : FileTree) : List (String × ByteArray) :=
  changesBelow before.workingDirectory before after

end GrammarLayers.FileTree
