/-!
# Places in a text

A place in a text is counted in three ways at once: in bytes of the UTF-8 encoding, in
lines, and in characters within the line. Lines and columns start at one.

## Main definitions

* `byteSize` — the number of bytes a text takes
* `Position` — byte offset, line and column of a place between two characters
* `Position.find` — the last place in a text that is not beyond a given byte offset
* `splitAtByte` — a text cut in two at a number of bytes
* `Span` — a half-open range of byte offsets

## Main results

* `byteSize_append` — sizes add up
* `append_splitAtByte` — cutting a text loses nothing
-/

namespace GrammarLayers

/-- The number of bytes a text takes in UTF-8. -/
def byteSize : List Char → Nat
  | [] => 0
  | c :: rest => c.utf8Size + byteSize rest

@[simp] theorem byteSize_nil : byteSize [] = 0 := rfl

@[simp] theorem byteSize_cons (c : Char) (rest : List Char) :
    byteSize (c :: rest) = c.utf8Size + byteSize rest := rfl

@[simp] theorem byteSize_append (a b : List Char) :
    byteSize (a ++ b) = byteSize a + byteSize b := by
  induction a with
  | nil => simp
  | cons c a ih => simp [ih, Nat.add_assoc]

/-- A place in a text: so many bytes from its start, in this line, at this column. -/
structure Position where
  offset : Nat
  line : Nat
  column : Nat
  deriving DecidableEq, Repr

namespace Position

/-- The place before the first character. -/
def start : Position := ⟨0, 1, 1⟩

/-- The place after a character: a newline begins the next line, any other character takes
one column. -/
def next (p : Position) (c : Char) : Position :=
  if c = '\n' then ⟨p.offset + c.utf8Size, p.line + 1, 1⟩
  else ⟨p.offset + c.utf8Size, p.line, p.column + 1⟩

/-- Moves on from a place for as long as the next character ends within `offset` bytes. -/
def findFrom (offset : Nat) (p : Position) : List Char → Position
  | [] => p
  | c :: rest =>
    if p.offset + c.utf8Size ≤ offset then findFrom offset (p.next c) rest else p

/-- The last place of a text that is not beyond `offset`: an offset inside a character
belongs to its start, one past the end to the end. -/
def find (text : List Char) (offset : Nat) : Position :=
  findFrom offset start text

/-- Line and column, joined by a colon. -/
def display (p : Position) : String :=
  toString p.line ++ ":" ++ toString p.column

end Position

/-- Cuts a text after as many characters as fit into `size` bytes. -/
def splitAtByte (size : Nat) : List Char → List Char × List Char
  | [] => ([], [])
  | c :: rest =>
    if c.utf8Size ≤ size then
      let (before, after) := splitAtByte (size - c.utf8Size) rest
      (c :: before, after)
    else ([], c :: rest)

theorem append_splitAtByte (size : Nat) (text : List Char) :
    (splitAtByte size text).1 ++ (splitAtByte size text).2 = text := by
  induction text generalizing size with
  | nil => rfl
  | cons c rest ih =>
    by_cases h : c.utf8Size ≤ size
    · simp [splitAtByte, h, ih]
    · simp [splitAtByte, h]

/-- A range of byte offsets, the second not included. -/
structure Span where
  start : Nat
  stop : Nat
  deriving DecidableEq, Repr

namespace Span

/-- The number of bytes in the range; none if it ends before it starts. -/
def size (s : Span) : Nat := s.stop - s.start

/-- Whether the range holds no byte. -/
def isEmpty (s : Span) : Bool := s.size == 0

/-- Both ends, joined by two dots. -/
def display (s : Span) : String :=
  toString s.start ++ ".." ++ toString s.stop

end Span

end GrammarLayers
