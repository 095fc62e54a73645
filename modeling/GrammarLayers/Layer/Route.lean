import GrammarLayers.Layer.Failure
import GrammarLayers.Tree.FileTree

/-!
# The route to a dialect

The directories of a dialect's grammar are the root and those on the way from the root down
to the dialect. The way is read off the two paths, or, where one does not continue the
other, off the places they lead to.

## Main definitions

* `componentsBelow` — what leads from the root to the dialect
* `route` — the names of the directories on the way
-/

namespace GrammarLayers

/-- What leads from the root to the dialect. -/
def componentsBelow (t : FileTree) (root dialect : Path) : Except Failure (List Component) :=
  match root.below? dialect with
  | some components => .ok components
  | none =>
    match t.canonical? root, t.canonical? dialect with
    | some top, some bottom =>
      if top.isPrefixOf bottom then .ok ((bottom.drop top.length).map .name)
      else .error (.notInside root dialect)
    | _, _ => .error (.notInside root dialect)

/-- The names among components, where single dots may stand between them. -/
def namesOf (root dialect : Path) : List Component → Except Failure (List String)
  | [] => .ok []
  | .current :: rest => namesOf root dialect rest
  | .name name :: rest => do
    let names ← namesOf root dialect rest
    return name :: names
  | component :: _ => .error (.unsupportedComponent component root dialect)

/-- The names of the directories from the root, itself not named, down to the dialect. -/
def route (t : FileTree) (root dialect : Path) : Except Failure (List String) := do
  namesOf root dialect (← componentsBelow t root dialect)

end GrammarLayers
