import GrammarLayers.Layer.Failure
import GrammarLayers.Tree.FileTree

/-!
# Writing the generated file

## Main definitions

* `writeGenerated` — write a text to a file, in a directory that is made if it is missing
-/

namespace GrammarLayers

/-- Writes a text to a file. Missing directories on the way to it are made first. -/
def writeGenerated (path : Path) (content : String) : ExceptT Failure (StateM FileTree) Unit := do
  match path.parent? with
  | some parent =>
    unless parent.text.isEmpty do
      (FileTree.createDirectories parent).adapt (Failure.noOutputDirectory parent)
  | none => pure ()
  (FileTree.write path content.toUTF8).adapt (Failure.unwritable path)

end GrammarLayers
