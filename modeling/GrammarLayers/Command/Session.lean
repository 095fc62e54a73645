import GrammarLayers.Command.Arguments
import GrammarLayers.Command.Display
import GrammarLayers.Manifest
import GrammarLayers.Render.Json
import GrammarLayers.Render.Output

/-!
# Running a command

A command assembles a grammar, reports on the error output which files it read, and then
prints or writes what it is asked for.

## Main definitions

* `Session` — the file tree and what has been printed
* `Console` — an action in a session
* `Assembled` — an assembly with the settings it was made under
* `GrammarArguments.settings` — the settings and the license header of a command
* `GrammarArguments.assembleUnder`, `assembleFor` — assemble the grammar of a command, the second
  with reports
* `Invocation.run` — carry out a command
-/

namespace GrammarLayers

/-- The file tree, and what has been printed to the output and the error output. -/
structure Session where
  tree : FileTree
  output : String := ""
  errors : String := ""

/-- An action in a session. What was printed and written before a failure stays. -/
abbrev Console := ExceptT Failure (StateM Session)

/-- Prints a text to the output. -/
def printOut (text : String) : Console Unit :=
  modify fun s => { s with output := s.output ++ text }

/-- Prints a status line to the error output, unless status lines are not wanted. -/
def report (quiet : Bool) (verb message : String) : Console Unit :=
  unless quiet do modify fun s => { s with errors := s.errors ++ statusLine verb message }

/-- A path as it is shown in this session. -/
def shown (path : Path) : Console String := return pathFromHere (← get).tree path

/-- An assembly with the settings it was made under. -/
structure Assembled where
  manifest : Manifest
  license : Option String
  assembly : Assembly

/-- Reports a file that was read, and the names it overrides. -/
def reportFile (quiet : Bool) (path : Path) (count : String) (overridden : List String) :
    Console Unit := do
  report quiet "Reading" ((← shown path) ++ " (" ++ count ++ ")")
  overridden.forM fun name => report quiet "Overriding" name

/-- Reports what an assembly was made from. -/
def reportAssembly (quiet : Bool) (extension : String) (a : Assembly) : Console Unit := do
  a.fragments.forM fun f =>
    reportFile quiet f.path (counted f.productions "production" "productions") f.overridden
  a.tables.forM fun f =>
    reportFile quiet f.path (counted f.entries "token" "tokens") f.overridden
  a.lexicon.undefinedWords.forM fun word =>
    report quiet "Undefined"
      ("non-reserved keyword " ++ word.name ++ " is not in any keywords table")
  if a.fragments.isEmpty && a.tables.isEmpty then
    report quiet "Empty" ("no ." ++ extension ++ " files on the path to the dialect")

/-- The settings that a command works under, and the license header. What the command says goes
before what the manifest says. -/
def GrammarArguments.settings (g : GrammarArguments) (t : FileTree) :
    Except Failure (Manifest × Option String) := do
  let (found, _) ← Manifest.ofGrammar t g.root
  let manifest := { found with extension := g.extension.getD found.extension }
  let license ←
    match g.license with
    | some path => some <$> readTextAs t .license path
    | none => manifest.licenseHeader t g.root
  return (manifest, license)

/-- Assembles a grammar under settings and a license header that are known. -/
def GrammarArguments.assembleUnder (g : GrammarArguments) (t : FileTree) (manifest : Manifest)
    (license : Option String) : Except Failure Assembled := do
  let options := { manifest.options with license := license.map String.toList }
  let assembly ← assemble t options g.root g.dialect
  return ⟨manifest, license, assembly⟩

/-- Assembles the grammar that a command is about, and reports what it was made from. -/
def assembleFor (quiet : Bool) (g : GrammarArguments) : Console Assembled := do
  let tree := (← get).tree
  let (manifest, license) ← g.settings tree
  report quiet "Extracting" (← shown g.dialect)
  let assembled ← g.assembleUnder tree manifest license
  reportAssembly quiet manifest.extension assembled.assembly
  return assembled

/-- Prints the productions. -/
def runExtract (quiet : Bool) (g : GrammarArguments) (json : Bool) : Console Unit := do
  let { assembly, .. } ← assembleFor quiet g
  if json then printOut (String.ofList assembly.grammar.toJson ++ "\n")
  else printOut (String.ofList (entryListing assembly.grammar))
  report quiet "Finished" (counted assembly.grammar.size "production" "productions")

/-- Writes the generated file. -/
def runGenerate (quiet : Bool) (g : GrammarArguments) (output : Option Path) :
    Console Unit := do
  let { manifest, license, assembly } ← assembleFor quiet g
  let path := output.getD (manifest.generatedPath g.dialect)
  let content := String.ofList (assembly.render (license.map String.toList))
  let s ← get
  let (outcome, tree) := (writeGenerated path content).run.run s.tree
  set { s with tree }
  outcome
  report quiet "Generated"
    ((← shown path) ++ " (" ++
      counted assembly.grammar.size "production" "productions" ++ ", " ++
      counted assembly.overrides "override" "overrides" ++ ")")

/-- Prints lines, each with the file it comes from if that is wanted and known. -/
def printLines (origins : Bool) (lines : List (String × Option Path)) : Console Unit :=
  lines.forM fun (text, origin) =>
    match origin with
    | some path =>
      if origins then do printOut (text ++ "\t" ++ (← shown path) ++ "\n")
      else printOut (text ++ "\n")
    | none => printOut (text ++ "\n")

/-- Lists the names of the productions. -/
def listProductions (quiet origins sort : Bool) (a : Assembly) : Console Unit := do
  let productions := a.grammar.toList
  let productions := if sort then productions.mergeSort (·.name ≤ ·.name) else productions
  printLines origins (productions.map fun p => (p.name, p.origin))
  report quiet "Finished"
    (counted productions.length "production" "productions" ++ " from " ++
      counted a.fragments.length "file" "files")

/-- The entries of all token tables, with the names of the table files. -/
def tableEntries (l : Lexicon) : List (String × TokenDef) :=
  (TokenClass.all.flatMap fun c =>
    (l.table c).toList.map fun t => ((TableKind.assignments c).file, t)) ++
  l.nonReserved.toList.map fun word => (TableKind.nonReserved.file, word)

/-- Lists the entries of the token tables. -/
def listTokens (quiet origins sort : Bool) (a : Assembly) : Console Unit := do
  let entries := tableEntries a.lexicon
  let entries := if sort then entries.mergeSort (·.2.name ≤ ·.2.name) else entries
  printLines origins (entries.map fun (file, t) => (file ++ "\t" ++ t.name, t.origin))
  report quiet "Finished"
    (counted entries.length "token" "tokens" ++ " from " ++
      counted a.tables.length "table" "tables")

/-- Lists the names of the productions, or the entries of the token tables. -/
def runList (quiet : Bool) (g : GrammarArguments) (origins sort tokens : Bool) :
    Console Unit := do
  let { assembly, .. } ← assembleFor quiet g
  if tokens then listTokens quiet origins sort assembly
  else listProductions quiet origins sort assembly

/-- Carries out a command. Completions are not among what this library makes. -/
def Invocation.run (i : Invocation) : Console Unit :=
  match i.command with
  | .extract g json => runExtract i.quiet g json
  | .generate g output => runGenerate i.quiet g output
  | .list g origins sort tokens => runList i.quiet g origins sort tokens
  | .completions _ => return

end GrammarLayers
