import GrammarLayers.Fragment.Fault
import GrammarLayers.Text.Blank
import GrammarLayers.Text.UpperCase

/-!
# Entries of token tables

A token table is a text file with one entry to a line. Most tables assign values to names,
`NAME: value`; one only lists words. Names and words are upper-cased, and blank lines do not
count as entries. A table may begin with the license header of the grammar.

## Main definitions

* `Assignment` — a name and the value it is given
* `dropLicense` — a table without its license header
* `entryLines` — the lines that are not blank, trimmed and numbered
* `readAssignments` — the assignments of a table, or its first line without a colon
* `readWords` — the words of a list
-/

namespace GrammarLayers

/-- A name and the value it is given. -/
structure Assignment where
  name : String
  value : String
  deriving DecidableEq, Repr

/-- A table without the license header it starts with, if there is one. -/
def dropLicense (license : Option (List Char)) (text : List Char) : List Char :=
  match license with
  | some header => if header.isPrefixOf text then text.drop header.length else text
  | none => text

/-- Numbers lines upwards from `number`, trims them, and leaves out those that are blank. -/
def numberLines (number : Nat) : List (List Char) → List (Nat × List Char)
  | [] => []
  | line :: lines =>
    if trim line = [] then numberLines (number + 1) lines
    else (number, trim line) :: numberLines (number + 1) lines

/-- The lines of a text that are not blank, trimmed, with their numbers from one up. -/
def entryLines (text : List Char) : List (Nat × List Char) :=
  numberLines 1 (splitLines text)

/-- Reads `name: value`, split at the first colon. -/
def Assignment.read? (line : List Char) : Option Assignment :=
  match line.dropWhile (· != ':') with
  | [] => none
  | _ :: value =>
    some
      { name := String.ofList (upperChars (trim (line.takeWhile (· != ':'))))
        value := String.ofList (trim value) }

/-- Reads numbered lines as assignments, up to the first that is none. -/
def readEntries : List (Nat × List Char) → Except TextFault (List Assignment)
  | [] => .ok []
  | (number, line) :: lines =>
    match Assignment.read? line with
    | none => .error (.malformedEntry number line)
    | some entry => do
      let entries ← readEntries lines
      return entry :: entries

/-- The assignments of a table, in order. -/
def readAssignments (text : List Char) : Except TextFault (List Assignment) :=
  readEntries (entryLines text)

/-- The words of a list, in order. -/
def readWords (text : List Char) : List String :=
  (entryLines text).map fun (_, line) => String.ofList (upperChars line)

end GrammarLayers
