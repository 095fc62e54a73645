/-!
# Paths

A path is a text with slashes between its parts. It is kept as it was written; its parts
are read off the text, so that doubled slashes, single dots and a trailing slash make no
part.

## Main definitions

* `Path` — a path as written
* `Component`, `Path.components` — the parts of a path
* `Path.join`, `Path.parent?`, `Path.fileName?`, `Path.extension?` — the usual operations
* `Path.below?` — the parts of one path that follow those of another
* `Path.relativeTo?` — a path as seen from an absolute place
-/

namespace GrammarLayers

/-- A path as it was written. -/
structure Path where
  text : String
  deriving DecidableEq, Repr

/-- A part of a path. -/
inductive Component where
  /-- The slash an absolute path starts with. -/
  | root
  /-- A single dot that a relative path starts with. -/
  | current
  /-- Two dots. -/
  | parent
  | name (name : String)
  deriving DecidableEq, Repr

/-- The component as it stands in a path. -/
def Component.text : Component → String
  | root => "/"
  | current => "."
  | parent => ".."
  | name n => n

/-- The pieces of a text between its slashes, at least one. -/
def splitSlashes : List Char → List (List Char)
  | [] => [[]]
  | c :: rest =>
    if c = '/' then [] :: splitSlashes rest
    else
      match splitSlashes rest with
      | piece :: pieces => (c :: piece) :: pieces
      | [] => [[c]]

/-- The component that a piece between slashes stands for: none if it is empty or a single
dot. -/
def Component.ofPiece? (piece : List Char) : Option Component :=
  if piece = [] ∨ piece = ['.'] then none
  else if piece = ['.', '.'] then some parent
  else some (name (String.ofList piece))

namespace Path

/-- Whether the path starts with a slash. -/
def isAbsolute (p : Path) : Bool := p.text.toList.head? == some '/'

/-- The parts of a path. A single dot counts only where a relative path starts with it. -/
def components (p : Path) : List Component :=
  match p.text.toList with
  | '/' :: rest => .root :: (splitSlashes rest).filterMap Component.ofPiece?
  | chars =>
    match splitSlashes chars with
    | ['.'] :: pieces => .current :: pieces.filterMap Component.ofPiece?
    | pieces => pieces.filterMap Component.ofPiece?

/-- A path continued by another one. An absolute continuation stands alone; otherwise one
slash goes between the two, unless the first is empty or ends in one. -/
def join (p q : Path) : Path :=
  if q.isAbsolute then q
  else if p.text.toList.getLast?.all (· == '/') then ⟨p.text ++ q.text⟩
  else ⟨p.text ++ "/" ++ q.text⟩

/-- Where the parts of a path may begin: after the slash of an absolute path, after a
leading single dot, and otherwise at the start. -/
def bodyStart (chars : List Char) : Nat :=
  match chars with
  | '/' :: _ => 1
  | ['.'] => 1
  | '.' :: '/' :: _ => 1
  | _ => 0

/-- The characters of a path in reverse without the slashes and single dots that it ends
with; `room` is the number of characters that may go. -/
def trimReversed (room : Nat) : List Char → List Char
  | '/' :: rest => if 0 < room then trimReversed (room - 1) rest else '/' :: rest
  | '.' :: '/' :: rest =>
    if 1 < room then trimReversed (room - 2) rest
    else if room = 1 then '/' :: rest
    else '.' :: '/' :: rest
  | chars => chars

/-- A path without the slashes and single dots that it ends with. -/
def trimEnd (chars : List Char) : List Char :=
  (trimReversed (chars.length - bodyStart chars) chars.reverse).reverse

/-- A path without the slashes and single dots that it starts with. -/
def trimStart : List Char → List Char
  | '/' :: rest => trimStart rest
  | '.' :: '/' :: rest => trimStart rest
  | ['.'] => []
  | chars => chars

/-- The path without its last part; none for the top directory and for the empty path. -/
def parent? (p : Path) : Option Path :=
  match p.components.getLast? with
  | none | some .root => none
  | some .current => some ⟨""⟩
  | some last =>
    let chars := trimEnd p.text.toList
    some ⟨String.ofList (trimEnd (chars.take (chars.length - last.text.toList.length)))⟩

/-- The last part of a path, if it is a name. -/
def fileName? (p : Path) : Option String :=
  match p.components.getLast? with
  | some (.name n) => some n
  | _ => none

/-- What follows the last dot of a file name; a name that has no other dot than its first
character has no extension. -/
def extension? (p : Path) : Option String := do
  let name ← p.fileName?
  let chars := name.toList.reverse
  match chars.dropWhile (· != '.') with
  | [] | [_] => none
  | _ :: _ => some (String.ofList (chars.takeWhile (· != '.')).reverse)

/-- The parts of `p` after those of `base`, if `p` starts with the parts of `base`. -/
def below? (base p : Path) : Option (List Component) :=
  if base.components.isPrefixOf p.components then
    some (p.components.drop base.components.length)
  else none

/-- What is left of a path after it has led through the named directories. -/
def relativeChars? : List String → List Char → Option (List Char)
  | [], chars => some chars
  | name :: names, chars =>
    let chars := trimStart chars
    if chars.takeWhile (· != '/') = name.toList then
      relativeChars? names (chars.dropWhile (· != '/'))
    else none

/-- An absolute path as seen from the directory that the names lead to from the top, if it
lies inside. What is left is kept as written, without slashes and dots at its ends. -/
def relativeTo? (names : List String) (p : Path) : Option Path :=
  match p.text.toList with
  | '/' :: chars => do
    let rest ← relativeChars? names chars
    let rest := trimStart rest
    return ⟨String.ofList (trimReversed rest.length rest.reverse).reverse⟩
  | _ => none

end Path

end GrammarLayers
