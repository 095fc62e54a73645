import GrammarLayers.Tree.FileTree

/-!
# What status lines are made of

## Main definitions

* `counted` — a number with the noun that fits it
* `pathFromHere` — a path as seen from the working directory
* `statusLine` — a verb, set to the right of its column, and a message
-/

namespace GrammarLayers

/-- A number with its noun, in the singular for one only. -/
def counted (n : Nat) (singular plural : String) : String :=
  toString n ++ " " ++ (if n = 1 then singular else plural)

/-- A path as seen from the working directory if it lies inside, and as it is written
otherwise. -/
def pathFromHere (t : FileTree) (p : Path) : String :=
  match p.relativeTo? t.workingDirectory with
  | some relative => if relative.text.isEmpty then "." else relative.text
  | none => p.text

/-- The width of the column of verbs. -/
def verbColumn : Nat := 12

/-- A status line. -/
def statusLine (verb message : String) : String :=
  String.ofList (List.replicate (verbColumn - verb.length) ' ') ++ verb ++ " " ++ message ++ "\n"

end GrammarLayers
