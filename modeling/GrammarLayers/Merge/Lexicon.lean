import GrammarLayers.Merge.TokenTable

/-!
# The token tables of a grammar

A directory of a grammar can hold five table files: four that assign values to names, and
the list of the keywords that may still be used as identifiers.

## Main definitions

* `TokenClass` — the four kinds of assigned tokens
* `TableKind`, `TableKind.ofFile?` — the table files
* `Lexicon` — the merged tables
* `Lexicon.undefinedWords` — listed words that no keyword table defines
-/

namespace GrammarLayers

/-- A kind of token that tables assign values to. -/
inductive TokenClass where
  | keyword
  | operator
  | separator
  | identifier
  deriving DecidableEq, Repr

/-- The kinds of tokens in output order. -/
def TokenClass.all : List TokenClass := [keyword, operator, separator, identifier]

/-- A kind of table file. -/
inductive TableKind where
  | assignments (tokens : TokenClass)
  /-- The list of keywords that may be used as identifiers. -/
  | nonReserved
  deriving DecidableEq, Repr

namespace TableKind

/-- The kinds of table files in output order. -/
def all : List TableKind := TokenClass.all.map assignments ++ [nonReserved]

/-- The name of the files of a kind. -/
def file : TableKind → String
  | assignments .keyword => "keywords.txt"
  | assignments .operator => "operators.txt"
  | assignments .separator => "separators.txt"
  | assignments .identifier => "identifiers.txt"
  | nonReserved => "nonReservedKeywords.txt"

/-- The kind of table that a file of exactly this name holds. -/
def ofFile? (name : String) : Option TableKind :=
  all.find? (·.file == name)

end TableKind

/-- The merged token tables of a grammar. -/
structure Lexicon where
  keywords : TokenTable := .empty
  operators : TokenTable := .empty
  separators : TokenTable := .empty
  identifiers : TokenTable := .empty
  nonReserved : WordList := .empty

namespace Lexicon

/-- Tables without entries. -/
def empty : Lexicon := {}

/-- The table of a kind of token. -/
def table (l : Lexicon) : TokenClass → TokenTable
  | .keyword => l.keywords
  | .operator => l.operators
  | .separator => l.separators
  | .identifier => l.identifiers

/-- The tables with that of one kind of token replaced. -/
def setTable (l : Lexicon) (tokens : TokenClass) (t : TokenTable) : Lexicon :=
  match tokens with
  | .keyword => { l with keywords := t }
  | .operator => { l with operators := t }
  | .separator => { l with separators := t }
  | .identifier => { l with identifiers := t }

@[simp] theorem table_setTable (l : Lexicon) (c : TokenClass) (t : TokenTable) :
    (l.setTable c t).table c = t := by
  cases c <;> rfl

theorem table_setTable_of_ne {c d : TokenClass} (h : d ≠ c) (l : Lexicon) (t : TokenTable) :
    (l.setTable c t).table d = l.table d := by
  cases c <;> cases d <;> simp_all [setTable, table]

/-- Listed words that the keyword table does not define. -/
def undefinedWords (l : Lexicon) : List TokenDef :=
  l.nonReserved.toList.filter fun word => !l.keywords.contains word.name

/-- Whether all tables are empty. -/
def isEmpty (l : Lexicon) : Bool :=
  l.nonReserved.isEmpty && TokenClass.all.all fun c => (l.table c).isEmpty

end Lexicon

end GrammarLayers
