import GrammarLayers.Fragment.Fault
import GrammarLayers.Tree.Path
import GrammarLayers.Tree.SystemError

/-!
# Failures

Why a grammar could not be assembled, configured or written. A failure stops everything:
there is no partial result.

## Main definitions

* `FileRole` — what a file is read as
* `ListingFault` — why a directory could not be listed
* `Failure` — the causes
* `Failure.message`, `Failure.help?`, `Failure.code` — description, hint and diagnostic code
-/

namespace GrammarLayers

/-- What a file is read as. -/
inductive FileRole where
  | fragment
  | tokenTable
  | manifest
  | license
  deriving DecidableEq, Repr

/-- The role as a message names it. -/
def FileRole.display : FileRole → String
  | fragment => "fragment"
  | tokenTable => "token table"
  | manifest => "manifest"
  | license => "license"

/-- Why a directory could not be listed. -/
inductive ListingFault where
  /-- The directory, or what one of its entries leads to, could not be looked at. -/
  | system (cause : SystemError)
  /-- An entry is a link to the listed directory itself. -/
  | loop (ancestor : Path)
  deriving DecidableEq, Repr

/-- Why something could not be done. -/
inductive Failure where
  | unreadable (path : Path) (role : FileRole) (cause : SystemError)
  | unlistable (path : Path) (fault : ListingFault)
  /-- The directory for the output could not be made. -/
  | noOutputDirectory (path : Path) (cause : SystemError)
  | unwritable (path : Path) (cause : SystemError)
  /-- The dialect does not lie inside the root. -/
  | notInside (root dialect : Path)
  /-- The dialect is reached from the root through something other than a name. -/
  | unsupportedComponent (component : Component) (root dialect : Path)
  | missingDirectory (name : String) (parent : Path)
  /-- The text of the manifest makes no settings. What a reader of YAML has to say about the text
  would stand behind the description, after a colon; it is left out. -/
  | invalidManifest
  | inFile (path : Path) (fault : TextFault)
  deriving DecidableEq, Repr

namespace Failure

/-- The description of a trouble with a file. -/
def fileMessage (path : Path) (message : String) : String :=
  "IO error with " ++ path.text ++ ": " ++ message

/-- The description of a failure. -/
def message : Failure → String
  | unreadable path role cause =>
    fileMessage path ("Failed to read " ++ role.display ++ ": " ++ cause.message)
  | unlistable path (.system cause) =>
    fileMessage path ("Failed to list directory: IO error for operation on " ++ path.text ++
      ": " ++ cause.message)
  | unlistable path (.loop ancestor) =>
    fileMessage path ("Failed to list directory: File system loop found: " ++ path.text ++
      " points to an ancestor " ++ ancestor.text)
  | noOutputDirectory path cause =>
    fileMessage path ("Failed to create output directory: " ++ cause.message)
  | unwritable path cause => fileMessage path ("Failed to write output: " ++ cause.message)
  | notInside root dialect =>
    "Path error: " ++ dialect.text ++ " is not inside " ++ root.text
  | unsupportedComponent component root dialect =>
    "Path error: Unsupported path component " ++
      String.ofList (quote component.text.toList) ++ " between " ++ root.text ++ " and " ++
      dialect.text
  | missingDirectory name parent =>
    "Path error: Directory " ++ String.ofList (quote name.toList) ++ " not found in " ++
      parent.text
  | invalidManifest => "Manifest error: Invalid manifest"
  | inFile path fault => path.text ++ ": " ++ fault.message

/-- What to do about a failure. -/
def help? : Failure → Option String
  | notInside .. =>
    some "The dialect directory must be a descendant of the root grammar directory"
  | unsupportedComponent .. => some "Pass the dialect directory without \x60..\x60 segments"
  | invalidManifest => some "Check dialect.yaml syntax"
  | _ => none

/-- The diagnostic code of a failure. -/
def code : Failure → String
  | unreadable .. | unlistable .. | noOutputDirectory .. | unwritable .. => "dialect::io"
  | notInside .. | unsupportedComponent .. | missingDirectory .. => "dialect::path"
  | invalidManifest => "dialect::manifest"
  | inFile .. => "dialect::fragment"

end Failure

end GrammarLayers
