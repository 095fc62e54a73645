import GrammarLayers.Text.Unprintable
import GrammarLayers.Text.Extender

/-!
# Quoted text

A text that a message cites stands between double quotes, with everything in it that would
not show escaped.

## Main definitions

* `hexDigits` — a number in lower-case hexadecimal digits
* `quoteChar` — the quoted form of one character
* `quote` — a text in double quotes
-/

namespace GrammarLayers

/-- A number in lower-case hexadecimal digits, without leading zeros. -/
def hexDigits (n : Nat) : List Char := Nat.toDigits 16 n

/-- The quoted form of a character: the quote and the backslash are escaped, the usual
controls have short escapes, and whatever is not printable or extends the character before
it is given by its code point. -/
def quoteChar (c : Char) : List Char :=
  if c = '\x22' then ['\\', '\x22']
  else if c = '\\' then ['\\', '\\']
  else if c = '\n' then ['\\', 'n']
  else if c = '\r' then ['\\', 'r']
  else if c = '\t' then ['\\', 't']
  else if c = '\x00' then ['\\', '0']
  else if extenders.holds c || unprintable.holds c then
    ['\\', 'u', '\x7b'] ++ hexDigits c.toNat ++ ['\x7d']
  else [c]

/-- A text in double quotes. -/
def quote (text : List Char) : List Char :=
  '\x22' :: (text.flatMap quoteChar ++ ['\x22'])

end GrammarLayers
