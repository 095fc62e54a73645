import GrammarLayers.Text.Position
import GrammarLayers.Text.Quoted

/-!
# Faults in the text of a file

What can be wrong with the text of a fragment or of a token table.

## Main definitions

* `Found` — what stands in the place of an opening brace
* `TextFault` — a fault, with the place it was found at
* `TextFault.message`, `TextFault.help?` — its description and a hint
-/

namespace GrammarLayers

/-- What stands where an opening brace is missing. -/
inductive Found where
  | token (text : List Char)
  | endOfFile
  deriving DecidableEq, Repr

/-- A description of what was found; a token is quoted. -/
def Found.display : Found → String
  | token text => String.ofList (quote text)
  | endOfFile => "end of file"

/-- A fault in the text of a file. -/
inductive TextFault where
  /-- A signature, or its first block, is not followed by a block. -/
  | missingBlock (production : String) (found : Found) (position : Position)
  /-- The block that starts at this place has no end. -/
  | unclosedBlock (production : String) (position : Position)
  /-- A line of a token table has no colon. -/
  | malformedEntry (line : Nat) (content : List Char)
  deriving DecidableEq, Repr

namespace TextFault

/-- The description of a fault. -/
def message : TextFault → String
  | missingBlock production found position =>
    "Production \x60" ++ production ++ "\x60 at " ++ position.display ++
      ": expected \x60\x7b\x60 but found " ++ found.display
  | unclosedBlock production position =>
    "Production \x60" ++ production ++ "\x60 has a block opened at " ++ position.display ++
      " that is never closed"
  | malformedEntry line content =>
    "Line " ++ toString line ++ ": expected \x60NAME: value\x60 but found " ++
      String.ofList (quote content)

/-- What to look for when a fault is reported. -/
def help? : TextFault → Option String
  | missingBlock .. =>
    some "Each production signature must be followed by an initializer block and a body block"
  | unclosedBlock .. =>
    some "Check for a missing closing brace or an unbalanced quote or comment"
  | malformedEntry .. =>
    some "Token table lines separate the token name from its value with a colon"

/-- The diagnostic code of a fault. -/
def code : TextFault → String
  | missingBlock .. => "dialect::structure"
  | unclosedBlock .. => "dialect::unterminated"
  | malformedEntry .. => "dialect::table"

end TextFault

end GrammarLayers
