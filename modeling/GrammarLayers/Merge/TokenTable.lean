import Std.Data.HashMap
import GrammarLayers.Text.UpperCase
import GrammarLayers.Tree.Path

/-!
# Merged token tables

A token table defines each name once. A name that is defined again moves to the end of the
table, with its new value and origin. A word list, in contrast, keeps each word where it was
listed first.

## Main definitions

* `TokenDef` — a name, its value and the file that gave it
* `TokenTable` — definitions in order, and an index from names to places in the order
* `TokenTable.insert` — define a name, returning the definition that is replaced
* `TokenTable.get?`, `TokenTable.value?`, `TokenTable.contains` — look up a name in any
  spelling
* `WordList`, `WordList.insert` — words in order, each listed once
-/

namespace GrammarLayers

/-- A token: its upper-case name, its value, and the file that defines it. In a word list
the value is the word itself. -/
structure TokenDef where
  name : String
  value : String
  origin : Option Path := none
  deriving DecidableEq, Repr

/-- The token with the given name, upper-cased. -/
def TokenDef.ofName (name value : String) (origin : Option Path) : TokenDef :=
  ⟨upper name, value, origin⟩

/-- Tokens by name, in the order in which they were last defined. -/
structure TokenTable where
  tokens : Array TokenDef := #[]
  /-- Where in the order the token of a name stands. -/
  index : Std.HashMap String Nat := ∅

namespace TokenTable

/-- A table without tokens. -/
def empty : TokenTable := {}

/-- Removes the token of a name, and returns it. The tokens after it move up. -/
def remove (t : TokenTable) (name : String) : Option TokenDef × TokenTable :=
  match t.index[name]? with
  | some slot =>
    (t.tokens[slot]?,
      { tokens := t.tokens.eraseIdxIfInBounds slot
        index := (t.index.erase name).map fun _ place =>
          if slot < place then place - 1 else place })
  | none => (none, t)

/-- Defines a token at the end of the table, and returns the definition it replaces. -/
def insert (t : TokenTable) (token : TokenDef) : Option TokenDef × TokenTable :=
  let (replaced, t) := t.remove token.name
  (replaced,
    { tokens := t.tokens.push token
      index := t.index.insert token.name t.tokens.size })

/-- Defines tokens in order, and returns the definitions replaced, in order. -/
def insertAll (t : TokenTable) : List TokenDef → List TokenDef × TokenTable
  | [] => ([], t)
  | token :: tokens =>
    let (replaced, t) := t.insert token
    let (more, t) := t.insertAll tokens
    (replaced.toList ++ more, t)

/-- The token of a name, in any spelling that upper-cases to it. -/
def get? (t : TokenTable) (name : String) : Option TokenDef :=
  t.index[upper name]?.bind fun slot => t.tokens[slot]?

/-- The value of a name, in any spelling that upper-cases to it. -/
def value? (t : TokenTable) (name : String) : Option String :=
  (t.get? name).map TokenDef.value

/-- Whether a name is defined, in any spelling that upper-cases to it. -/
def contains (t : TokenTable) (name : String) : Bool := (t.get? name).isSome

/-- The tokens in order. -/
def toList (t : TokenTable) : List TokenDef := t.tokens.toList

/-- The names in order. -/
def names (t : TokenTable) : List String := t.toList.map TokenDef.name

/-- Whether there is no token. -/
def isEmpty (t : TokenTable) : Bool := t.tokens.isEmpty

end TokenTable

/-- Words in the order in which they were first listed. -/
structure WordList where
  words : Array TokenDef := #[]

namespace WordList

/-- A list without words. -/
def empty : WordList := {}

/-- Lists a word, upper-cased, and says whether it is new; a word that is not stays as it
is. -/
def insert (l : WordList) (word : String) (origin : Path) : Bool × WordList :=
  let entry := TokenDef.ofName word (upper word) (some origin)
  if l.words.any (·.name == entry.name) then (false, l)
  else (true, ⟨l.words.push entry⟩)

/-- Lists words in order. -/
def insertAll (l : WordList) (words : List String) (origin : Path) : WordList :=
  words.foldl (fun l word => (l.insert word origin).2) l

/-- The words in order, as tokens. -/
def toList (l : WordList) : List TokenDef := l.words.toList

/-- The words in order. -/
def names (l : WordList) : List String := l.toList.map TokenDef.name

/-- Whether there is no word. -/
def isEmpty (l : WordList) : Bool := l.words.isEmpty

end WordList

end GrammarLayers
