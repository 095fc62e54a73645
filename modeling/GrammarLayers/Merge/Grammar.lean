import Std.Data.HashMap
import GrammarLayers.Fragment.Production

/-!
# Merged productions

A grammar holds one production for each name. Productions are merged in from the root of the
grammar towards the dialect, so a production that is merged in under a name already present
overrides the earlier one: it takes its place in the order.

## Main definitions

* `Grammar` — productions in order, and an index from names to places in the order
* `Grammar.insert`, `Grammar.insertAll` — merge in productions, returning those overridden
* `Grammar.get?`, `Grammar.text?`, `Grammar.contains` — look up a name
* `Grammar.texts` — names with their texts, sorted by name
-/

namespace GrammarLayers

/-- Productions by name, in the order in which their names first came up. -/
structure Grammar where
  productions : Array Production := #[]
  /-- Where in the order the production of a name stands. -/
  index : Std.HashMap String Nat := ∅

namespace Grammar

/-- A grammar without productions. -/
def empty : Grammar := {}

/-- Merges in a production, and returns the one it overrides. -/
def insert (g : Grammar) (p : Production) : Option Production × Grammar :=
  match g.index[p.name]? with
  | some slot =>
    (g.productions[slot]?, { g with productions := g.productions.setIfInBounds slot p })
  | none =>
    (none,
      { productions := g.productions.push p
        index := g.index.insert p.name g.productions.size })

/-- Merges in productions in order, and returns those overridden, in order. -/
def insertAll (g : Grammar) : List Production → List Production × Grammar
  | [] => ([], g)
  | p :: ps =>
    let (overridden, g) := g.insert p
    let (more, g) := g.insertAll ps
    (overridden.toList ++ more, g)

/-- The production of a name. -/
def get? (g : Grammar) (name : String) : Option Production :=
  g.index[name]?.bind fun slot => g.productions[slot]?

/-- The text of the production of a name. -/
def text? (g : Grammar) (name : String) : Option String :=
  (g.get? name).map Production.text

/-- Whether there is a production of this name. -/
def contains (g : Grammar) (name : String) : Bool := g.index.contains name

/-- The productions in order. -/
def toList (g : Grammar) : List Production := g.productions.toList

/-- The names in order. -/
def names (g : Grammar) : List String := g.toList.map Production.name

/-- The number of productions. -/
def size (g : Grammar) : Nat := g.productions.size

/-- Whether there is no production. -/
def isEmpty (g : Grammar) : Bool := g.productions.isEmpty

/-- The names with their texts, sorted by name. -/
def texts (g : Grammar) : List (String × String) :=
  (g.toList.map fun p => (p.name, p.text)).mergeSort fun a b => a.1 ≤ b.1

end Grammar

end GrammarLayers
