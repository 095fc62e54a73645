import GrammarLayers.Layer.Assembly
import GrammarLayers.Yaml.Node

/-!
# The manifest of a grammar

The root of a grammar may hold a manifest, `dialect.yaml`, that sets the extension of
fragments, the license header and where the generated file goes. What it does not set has a
default, and settings it does not know are passed over.

## Main definitions

* `Manifest` — the settings
* `Manifest.read?` — the settings in a manifest text
* `Manifest.ofGrammar` — the settings of a grammar, from its manifest if it has one
* `Manifest.licenseHeader` — the license header
* `Manifest.generatedPath` — where the generated file of a dialect goes
-/

namespace GrammarLayers

/-- The settings of a grammar. -/
structure Manifest where
  extension : String := standardExtension
  /-- The license header, as seen from the root. -/
  license : Option Path := none
  /-- The generated file, as seen from the dialect. -/
  output : Path := ⟨"build/generated/parserImpls.ftl"⟩
  deriving DecidableEq, Repr

namespace Manifest

/-- The settings where there is no manifest. -/
def default : Manifest := {}

/-- The name of a manifest. -/
def file : String := "dialect.yaml"

/-- Where the license header is looked for if the manifest does not say, as seen from the
root. -/
def standardLicense : Path := ⟨"src/resources/license.txt"⟩

/-- How an absent value is written. -/
def nullForms : List String := ["null", "Null", "NULL", "~"]

/-- The tag that a value carries if it is to be absent. -/
def nullTag : Yaml.Tag := .ofChars "tag:yaml.org,2002:null".toList

/-- A setting that may be absent: nothing for what is no such setting. A plain scalar is
absent if it is empty or one of the `nullForms`; a tag makes any text count, but the tag of
absence asks for one of them. -/
def absentOr? (s : Yaml.Scalar) : Option (Option String) :=
  if !s.plain then some (some s.text)
  else
    match s.tag with
    | none => if s.text.isEmpty || nullForms.contains s.text then some none else some (some s.text)
    | some tag =>
      if tag != nullTag then some (some s.text)
      else if nullForms.contains s.text then some none
      else none

/-- The settings with those of the pairs of a mapping in the document `d`. Each may be set once;
`seen` are those that have been. -/
def addPairs (d : Yaml.Document) (m : Manifest) (seen : List String) :
    List (Yaml.Node × Yaml.Node) → Option Manifest
  | [] => some m
  | (key, value) :: rest => do
    let name := (← d.scalar? key).text
    guard (!seen.contains name)
    match name with
    | "extension" =>
      let text := (← d.scalar? value).text
      addPairs d { m with extension := text } (name :: seen) rest
    | "output" =>
      let text := (← d.scalar? value).text
      addPairs d { m with output := ⟨text⟩ } (name :: seen) rest
    | "license" =>
      let text ← absentOr? (← d.scalar? value)
      addPairs d { m with license := text.map Path.mk } (name :: seen) rest
    | _ => addPairs d m seen rest

/-- The settings in a document, which is a mapping or empty. -/
def ofDocument? (d : Yaml.Document) : Option Manifest :=
  match d.content with
  | none => some default
  | some (.mapping pairs) => addPairs d default [] pairs
  | some (.scalar s) => if s.plain && s.text.isEmpty then some default else none
  | some _ => none

/-- The settings in a manifest text. -/
def read? (text : List Char) : Option Manifest :=
  if trim text = [] then some default
  else (Yaml.document? text).bind ofDocument?

/-- The settings in a manifest file. -/
def ofFile (t : FileTree) (path : Path) : Except Failure Manifest := do
  let text ← readTextAs t .manifest path
  match read? text.toList with
  | some m => return m
  | none => throw .invalidManifest

/-- The settings of a grammar, and whether it has a manifest. -/
def ofGrammar (t : FileTree) (root : Path) : Except Failure (Manifest × Bool) := do
  let path := root.join ⟨file⟩
  if t.isFile path then return (← ofFile t path, true) else return (default, false)

/-- The options for assembling a grammar. -/
def options (m : Manifest) : Options := .ofExtension m.extension

/-- The license header of a grammar. One that the manifest names must be there. -/
def licenseHeader (m : Manifest) (t : FileTree) (root : Path) :
    Except Failure (Option String) := do
  match m.license with
  | some license => return some (← readTextAs t .license (root.join license))
  | none =>
    let path := root.join standardLicense
    if t.isFile path then return some (← readTextAs t .license path) else return none

/-- Where the generated file of a dialect goes. -/
def generatedPath (m : Manifest) (dialect : Path) : Path := dialect.join m.output

end Manifest

end GrammarLayers
