import GrammarLayers.Layer.Listing
import GrammarLayers.Layer.Route
import GrammarLayers.Render.Sections
import GrammarLayers.Table.Entry

/-!
# Assembling the grammar of a dialect

Starting from the root, each directory on the way to the dialect is read: first its
fragments, then its token tables, each in the order of their names. Productions and tokens
are merged as they come, so that the deeper definition wins.

## Main definitions

* `productionsOfFile` — the productions of a file
* `FragmentReport`, `TableReport` — what a file contributed
* `Grammar.load`, `Lexicon.load` — merge a file
* `Assembly` — the merged grammar and tables, and the reports
* `assemble` — the assembly of a dialect

Loading is an action on what has been merged so far, and what it leaves behind when it fails
is part of its result.
-/

namespace GrammarLayers

/-- What a fragment contributed. -/
structure FragmentReport where
  path : Path
  /-- The number of productions in the file. -/
  productions : Nat
  /-- The names whose earlier definition the file overrides, in order. -/
  overridden : List String
  deriving DecidableEq, Repr

/-- What a token table contributed. -/
structure TableReport where
  path : Path
  kind : TableKind
  /-- The number of entries in the file. -/
  entries : Nat
  /-- The names whose earlier definition the file overrides, in order. -/
  overridden : List String
  deriving DecidableEq, Repr

/-- An action on a state that can fail. -/
abbrev Loading (σ : Type) := ExceptT Failure (StateM σ)

/-- The text of a file that is read in a certain role. -/
def readTextAs (t : FileTree) (role : FileRole) (path : Path) : Except Failure String :=
  (t.readText path).mapError (Failure.unreadable path role)

/-- The productions of a file, which is their origin. -/
def productionsOfFile (t : FileTree) (path : Path) : Except Failure (List Production) := do
  let text ← readTextAs t .fragment path
  let productions ← (Production.readAll text.toList).mapError (Failure.inFile path)
  return productions.map fun p => { p with origin := some path }

/-- Merges the productions of a file. -/
def Grammar.load (t : FileTree) (path : Path) : Loading Grammar FragmentReport := do
  let productions ← productionsOfFile t path
  let overridden ← modifyGet fun g => g.insertAll productions
  return ⟨path, productions.length, overridden.map Production.name⟩

/-- Merges the entries of a table file, which is their origin. The file may start with the
license header. -/
def Lexicon.load (t : FileTree) (license : Option (List Char)) (kind : TableKind)
    (path : Path) : Loading Lexicon TableReport := do
  let text ← readTextAs t .tokenTable path
  let content := dropLicense license text.toList
  match kind with
  | .nonReserved =>
    let words := readWords content
    modify fun l => { l with nonReserved := l.nonReserved.insertAll words path }
    return ⟨path, kind, words.length, []⟩
  | .assignments tokens =>
    let entries ← (readAssignments content).mapError (Failure.inFile path)
    let replaced ← modifyGet fun l =>
      let (replaced, table) :=
        (l.table tokens).insertAll (entries.map fun e => .ofName e.name e.value (some path))
      (replaced, l.setTable tokens table)
    return ⟨path, kind, entries.length, replaced.map TokenDef.name⟩

/-- What fragments are told by, and what tables may start with. -/
structure Options where
  extension : String
  license : Option (List Char) := none
  deriving DecidableEq, Repr

/-- The extension of fragments where none is configured. -/
def standardExtension : String := "ftl"

/-- Options for an extension, which may be written with dots before it. -/
def Options.ofExtension (extension : String) : Options :=
  { extension := String.ofList (extension.toList.dropWhile (· == '.')) }

/-- Everything that has been read of a grammar. -/
structure Assembly where
  grammar : Grammar := .empty
  lexicon : Lexicon := .empty
  fragments : List FragmentReport := []
  tables : List TableReport := []

namespace Assembly

/-- Nothing read yet. -/
def empty : Assembly := {}

/-- Reads a fragment. -/
def addFragment (t : FileTree) (path : Path) : Loading Assembly FragmentReport := do
  let a ← get
  let (outcome, grammar) := (Grammar.load t path).run.run a.grammar
  set { a with grammar }
  let report ← outcome
  modify fun a => { a with fragments := a.fragments ++ [report] }
  return report

/-- Reads a token table. -/
def addTable (t : FileTree) (license : Option (List Char)) (kind : TableKind) (path : Path) :
    Loading Assembly TableReport := do
  let a ← get
  let (outcome, lexicon) := (Lexicon.load t license kind path).run.run a.lexicon
  set { a with lexicon }
  let report ← outcome
  modify fun a => { a with tables := a.tables ++ [report] }
  return report

/-- Reads fragments in order. -/
def addFragments (t : FileTree) : List Path → Loading Assembly Unit
  | [] => return
  | path :: rest => do
    let _ ← addFragment t path
    addFragments t rest

/-- Reads token tables in order. -/
def addTables (t : FileTree) (license : Option (List Char)) :
    List (TableKind × Path) → Loading Assembly Unit
  | [] => return
  | (kind, path) :: rest => do
    let _ ← addTable t license kind path
    addTables t license rest

/-- Reads a directory and then those on the way down from it. -/
def addLayers (t : FileTree) (options : Options) : Path → List String → Loading Assembly Unit
  | directory, names => do
    let listing ← Listing.ofDirectory t options.extension directory
    addFragments t listing.fragments
    addTables t options.license listing.tables
    match names with
    | [] => return
    | name :: rest =>
      match listing.directory? name with
      | some child => addLayers t options child rest
      | none => throw (.missingDirectory name directory)

/-- Adds the production that accepts any listed word, if there are any. -/
def addNonReserved (a : Assembly) : Assembly :=
  match nonReservedProduction a.lexicon.nonReserved with
  | some production => { a with grammar := (a.grammar.insert production).2 }
  | none => a

/-- The number of definitions that were overridden by a later one. -/
def overrides (a : Assembly) : Nat :=
  (a.fragments.flatMap (·.overridden)).length + (a.tables.flatMap (·.overridden)).length

/-- The generated grammar file. -/
def render (a : Assembly) (license : Option (List Char)) : List Char :=
  grammarFile license a.lexicon a.grammar

end Assembly

/-- The assembly of the dialect in a directory, from the root of its grammar down. -/
def assemble (t : FileTree) (options : Options) (root dialect : Path) :
    Except Failure Assembly := do
  let names ← route t root dialect
  match (Assembly.addLayers t options root names).run.run .empty with
  | (.ok (), assembly) => return assembly.addNonReserved
  | (.error failure, _) => throw failure

end GrammarLayers
