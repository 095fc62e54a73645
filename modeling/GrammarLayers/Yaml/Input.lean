import GrammarLayers.Text.Position

/-!
# Reading YAML text

The characters of a YAML text that are still to be read, with the place of the first, and
the classes of characters that its tokens are made of.

## Main definitions

* `Yaml.Mark`, `Yaml.Input` — a place, and the text from there on
* `Input.skip`, `Input.skipBreak`, `Input.takeBreak` — move on
* `Yaml.isBreak`, `Yaml.isGap`, `Yaml.isNameChar`, `Yaml.isAllowed` — character classes
-/

namespace GrammarLayers.Yaml

/-- A place in the text, counted from zero. -/
structure Mark where
  /-- The bytes before it. -/
  offset : Nat
  line : Nat
  column : Nat
  deriving DecidableEq, Repr

/-- The rest of a text and the place where it starts. -/
structure Input where
  rest : List Char
  mark : Mark
  /-- The number of characters of the whole text, which bounds the loops over the rest. -/
  length : Nat

/-- Characters that end a line. -/
def isBreak (c : Char) : Bool :=
  c == '\n' || c == '\r' || c == '\u0085' || c == '\u2028' || c == '\u2029'

/-- Characters that separate within a line. -/
def isGap (c : Char) : Bool := c == ' ' || c == '\t'

/-- Whether a text is at its end, at the end of a line, or at a gap. -/
def endsWord : Option Char → Bool
  | some c => isGap c || isBreak c
  | none => true

/-- Characters of names of anchors, handles and directives. -/
def isNameChar (c : Char) : Bool := c.isAlphanum || c == '_' || c == '-'

/-- Characters that separate the parts of flow collections. -/
def isFlowMark (c : Char) : Bool :=
  c == ',' || c == '[' || c == ']' || c == '\x7b' || c == '\x7d'

/-- Characters that may stand in a YAML text at all. -/
def isAllowed (c : Char) : Bool :=
  let n := c.toNat
  n == 0x9 || n == 0xa || n == 0xd || (0x20 ≤ n && n ≤ 0x7e) || n == 0x85 ||
    (0xa0 ≤ n && n ≤ 0xd7ff) || (0xe000 ≤ n && n ≤ 0xfffd) || 0x10000 ≤ n

namespace Input

/-- A whole text. -/
def ofText (text : List Char) : Input := ⟨text, ⟨0, 0, 0⟩, text.length⟩

/-- The next character. -/
def peek (i : Input) : Option Char := i.rest.head?

/-- The character `n` places on. -/
def peekAt (i : Input) (n : Nat) : Option Char := i.rest[n]?

/-- Moves on within a line. -/
def skip (i : Input) (n : Nat) : Input :=
  { i with
    rest := i.rest.drop n
    mark := ⟨i.mark.offset + byteSize (i.rest.take n), i.mark.line, i.mark.column + n⟩ }

/-- Moves on to the next line; a carriage return and a newline are one break. -/
def skipBreak (i : Input) : Input :=
  match i.rest with
  | '\r' :: '\n' :: rest =>
    { i with rest, mark := ⟨i.mark.offset + 2, i.mark.line + 1, 0⟩ }
  | c :: rest =>
    if isBreak c then
      { i with rest, mark := ⟨i.mark.offset + c.utf8Size, i.mark.line + 1, 0⟩ }
    else i
  | [] => i

/-- What a line break counts as in a scalar: a newline, or the separator itself. -/
def takeBreak (i : Input) : List Char :=
  match i.peek with
  | some c => if c == '\u2028' || c == '\u2029' then [c] else if isBreak c then ['\n'] else []
  | none => []

/-- Skips characters of a class. -/
def skipWhile (p : Char → Bool) (i : Input) : Input :=
  i.skip (i.rest.takeWhile p).length

/-- Skips a byte order mark that a line starts with. -/
def skipByteOrderMark (i : Input) : Input :=
  if i.mark.column = 0 ∧ i.peek = some '\ufeff' then i.skip 1 else i

/-- Skips a comment, if there is one, up to the end of the line. -/
def skipComment (i : Input) : Input :=
  if i.peek == some '#' then i.skipWhile fun c => !isBreak c else i

/-- Whether a line consists of three times `c` or starts with that and a gap. -/
def atMarker (i : Input) (c : Char) : Bool :=
  i.mark.column == 0 && i.rest.take 3 == [c, c, c] && endsWord (i.peekAt 3)

/-- Whether a document begins or ends on this line. -/
def atDocumentMarker (i : Input) : Bool := i.atMarker '-' || i.atMarker '.'

end Input

end GrammarLayers.Yaml
