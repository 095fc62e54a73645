import GrammarLayers.Fragment.Block
import GrammarLayers.Fragment.Cursor
import GrammarLayers.Fragment.Fault
import GrammarLayers.Fragment.Signature
import GrammarLayers.Tree.Path

/-!
# Productions of a fragment

A production is a signature followed by two blocks, an initializer and a body, with blanks
before each. The signatures of a text are found first; one cursor then moves through the
text and captures each signature with its blocks. A signature inside a production that has
been captured already belongs to that production and starts none.

## Main definitions

* `Production` — a production as it stands in its fragment
* `Cursor.takeBlock?` — the text of the block that starts at the cursor
* `Production.read` — the production that a signature starts
* `Production.readAll` — the productions of a fragment, in order
-/

namespace GrammarLayers

/-- A named rule of a grammar. -/
structure Production where
  name : String
  /-- The word before the name. -/
  kind : String
  /-- Everything from the start of the signature to the end of the body. -/
  text : String
  /-- Where the text stands in its fragment. -/
  span : Span
  /-- The file it was read from. -/
  origin : Option Path := none
  deriving DecidableEq, Repr

/-- Takes tokens up to the one that closes the tracked block, and returns their text; none
if the block does not close. -/
def Cursor.takeBlock? (tracker : BlockTracker) (c : Cursor) : Option (List Char × Cursor) :=
  match _h : c.next? with
  | none => none
  | some (token, c') =>
    if (tracker.feed token).isClosed then some (token.text, c')
    else do
      let (text, c'') ← takeBlock? (tracker.feed token) c'
      return (token.text ++ text, c'')
termination_by c.unread.length
decreasing_by exact length_unread_next? _h

namespace Production

/-- Captures blanks and the block after them. `source` is the whole text, for places in
it. -/
def readBlock (source : List Char) (name : String) (c : Cursor) :
    Except TextFault (List Char × Cursor) :=
  let (blanks, c) := c.skipBlanks
  match c.peek with
  | (none, _) =>
    .error (.missingBlock name .endOfFile (Position.find source (byteSize source)))
  | (some token, c) =>
    if token.kind = .openBrace then
      match c.takeBlock? {} with
      | some (block, c) => .ok (blanks ++ block, c)
      | none => .error (.unclosedBlock name (Position.find source token.offset))
    else
      .error (.missingBlock name (.token token.text) (Position.find source token.offset))

/-- Captures the production that a signature starts. -/
def read (source : List Char) (signature : Signature) (c : Cursor) :
    Except TextFault (Production × Cursor) := do
  let (_, c) := c.takeTo signature.span.start
  let (head, c) := c.takeTo signature.span.stop
  let (initializer, c) ← readBlock source signature.name c
  let (body, c) ← readBlock source signature.name c
  return (
    { name := signature.name
      kind := signature.kind
      text := String.ofList (head ++ initializer ++ body)
      span := ⟨signature.span.start, c.offset⟩ },
    c)

/-- Captures the productions that the signatures start, in order, passing over signatures
that the cursor is already beyond. -/
def readFrom (source : List Char) : List Signature → Cursor →
    Except TextFault (List Production)
  | [], _ => .ok []
  | signature :: rest, c =>
    if signature.span.start < c.offset then readFrom source rest c
    else do
      let (production, c) ← read source signature c
      let productions ← readFrom source rest c
      return production :: productions

/-- The productions of a fragment, in order. -/
def readAll (source : List Char) : Except TextFault (List Production) :=
  readFrom source (Signature.findAll source) (Cursor.ofText source)

end Production

end GrammarLayers
