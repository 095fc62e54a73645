import GrammarLayers.Merge.Grammar
import GrammarLayers.Text.Quoted

/-!
# Productions as a JSON object

The texts of a grammar as one JSON object from names to texts, sorted by name, one member to
a line.

## Main definitions

* `jsonChar`, `jsonString` — the JSON form of a character and of a text
* `jsonObject` — an object whose members are texts
* `Grammar.toJson` — the object of a grammar
-/

namespace GrammarLayers

/-- The JSON form of a character: the quote and the backslash are escaped, controls have
short escapes or are given by four hexadecimal digits. -/
def jsonChar (c : Char) : List Char :=
  if c = '\x22' then ['\\', '\x22']
  else if c = '\\' then ['\\', '\\']
  else if c = '\x08' then ['\\', 'b']
  else if c = '\x0c' then ['\\', 'f']
  else if c = '\n' then ['\\', 'n']
  else if c = '\r' then ['\\', 'r']
  else if c = '\t' then ['\\', 't']
  else if c.toNat < 0x10 then ['\\', 'u', '0', '0', '0'] ++ hexDigits c.toNat
  else if c.toNat < 0x20 then ['\\', 'u', '0', '0'] ++ hexDigits c.toNat
  else [c]

/-- The JSON form of a text. -/
def jsonString (text : List Char) : List Char :=
  '\x22' :: (text.flatMap jsonChar ++ ['\x22'])

/-- A JSON object whose members are texts, each member on a line of its own. -/
def jsonObject : List (String × String) → List Char
  | [] => ['\x7b', '\x7d']
  | members =>
    let lines := members.map fun (key, value) =>
      [' ', ' '] ++ jsonString key.toList ++ [':', ' '] ++ jsonString value.toList
    ['\x7b', '\n'] ++ List.intercalate [',', '\n'] lines ++ ['\n', '\x7d']

/-- The texts of a grammar as a JSON object, sorted by name. -/
def Grammar.toJson (g : Grammar) : List Char := jsonObject g.texts

end GrammarLayers
