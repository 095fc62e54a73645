import GrammarLayers.Merge.Grammar
import GrammarLayers.Merge.Lexicon

/-!
# Sections of the generated grammar

The generated grammar file holds one section for each token table that is not empty, and the
productions. The words of the non-reserved list become one more production, which accepts
any of them.

## Main definitions

* `tokenSection` — the section of a token table
* `nonReservedText`, `nonReservedProduction` — the production for a word list
* `entryListing` — the productions as `name=text` entries
* `grammarFile` — the generated file
-/

namespace GrammarLayers

/-- Puts the first lead before the first item and the second before every other, one item to
a line. -/
def leadLines (first other : List Char) : List (List Char) → List (List Char)
  | [] => []
  | item :: items => (first ++ item) :: items.map (other ++ ·)

/-- A token as it is defined in its section. -/
def tokenItem (t : TokenDef) : List Char :=
  "< ".toList ++ t.name.toList ++ ": ".toList ++ t.value.toList ++ " >".toList

/-- The section that defines the tokens of a table; none for an empty table. -/
def tokenSection (table : TokenTable) : Option (List Char) :=
  if table.isEmpty then none
  else
    let lines := leadLines "    ".toList "|   ".toList (table.toList.map tokenItem)
    some ("<DEFAULT, DQID, BTID> TOKEN :\n\x7b\n".toList ++ List.intercalate ['\n'] lines ++
      "\n\x7d".toList)

/-- The name of the production that accepts any non-reserved keyword. -/
def nonReservedName : String := "NonReservedKeyWord"

/-- The text of the production that accepts any listed word; none for an empty list. -/
def nonReservedText (words : WordList) : Option (List Char) :=
  if words.isEmpty then none
  else
    let items := words.names.map fun name => '<' :: (name.toList ++ ['>'])
    let lines := leadLines "        ".toList "    |   ".toList items
    some ("String NonReservedKeyWord() :\n\x7b\n\x7d\n\x7b\n    (\n".toList ++
      List.intercalate ['\n'] lines ++
      "\n    )\n    \x7b\n        return unquotedIdentifier();\n    \x7d\n\x7d".toList)

/-- The production that accepts any listed word; none for an empty list. -/
def nonReservedProduction (words : WordList) : Option Production :=
  (nonReservedText words).map fun text =>
    { name := nonReservedName
      kind := "String"
      text := String.ofList text
      span := ⟨0, byteSize text⟩ }

/-- The productions of a grammar as `name=text` entries, a blank line between two. -/
def entryListing (g : Grammar) : List Char :=
  List.intercalate ['\n'] (g.toList.map fun p => p.name.toList ++ '=' :: (p.text.toList ++ ['\n']))

/-- The generated file: the license header, then a section for each token table that is not
empty, then the productions, each on lines of its own. -/
def grammarFile (license : Option (List Char)) (lexicon : Lexicon) (g : Grammar) : List Char :=
  let sections := TokenClass.all.filterMap fun c => tokenSection (lexicon.table c)
  let texts := g.toList.map fun p => p.text.toList
  license.getD [] ++ (sections ++ texts).flatMap fun block => '\n' :: (block ++ ['\n'])

end GrammarLayers
