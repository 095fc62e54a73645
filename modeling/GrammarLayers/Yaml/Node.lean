import Std.Data.HashMap
import GrammarLayers.Yaml.Lexer

/-!
# YAML nodes

A document is one node: a scalar, a sequence or a mapping, or an alias of a node that was
given a name before. Names are numbered as they are given, by how many different names there
are already; an alias stands for the number that its name has at that place, and so for the
last node of the document with that number. A name that is given again changes its number,
and then shares it with the next new name.

## Main definitions

* `Node` — the content of a document
* `Document` — the node of a document, and the nodes that its numbers belong to
* `Reader` — what is left to read, and the names given so far
* `Yaml.document?` — the document of a text
-/

namespace GrammarLayers.Yaml

/-- The content of a document. -/
inductive Node where
  | scalar (scalar : Scalar)
  | sequence (items : List Node)
  | mapping (pairs : List (Node × Node))
  /-- Another node, by its number. -/
  | alias (number : Nat)

/-- What is known of the nodes with numbers: the scalar that the last node with a number is,
or none for a collection. -/
abbrev NumberedNodes := Std.HashMap Nat (Option Scalar)

/-- What a text holds. -/
structure Document where
  /-- Absent if nothing is written. -/
  content : Option Node
  numbered : NumberedNodes

/-- The scalar that a node of the document is or stands for. -/
def Document.scalar? (d : Document) : Node → Option Scalar
  | .scalar s => some s
  | .alias number => d.numbered[number]?.join
  | _ => none

/-- A scalar where nothing is written. -/
def Scalar.empty : Scalar := ⟨"", true, none⟩

/-- What is left to read of a document, and the names and handles given so far. -/
structure Reader where
  tokens : List Token
  /-- The numbers of the names. -/
  numbers : Std.HashMap String Nat := ∅
  numbered : NumberedNodes := ∅
  /-- What the handles of tags stand for. -/
  handles : List (String × Tag) := []

/-- An action of a reader; it gives nothing where the text is not well formed. -/
abbrev Read := StateT Reader Option

namespace Reader

/-- The next token. -/
def peek : Read (Option Token) := return (← get).tokens.head?

/-- Passes over the next token. -/
def skip : Read Unit := modify fun r => { r with tokens := r.tokens.drop 1 }

/-- Passes over the next token if it is `token`, and says whether it was. -/
def skipIf (token : Token) : Read Bool := do
  if (← peek) == some token then
    skip
    return true
  else return false

/-- Whether the next token is one of these. -/
def atAny (tokens : List Token) : Read Bool := return (← peek).any tokens.contains

/-- Passes over the next token, which must be `token`. -/
def expect (token : Token) : Read Unit := do guard (← skipIf token)

/-- Gives a name to a node. -/
def define (anchor : Option String) (target : Option Scalar) : Read Unit :=
  match anchor with
  | some name => modify fun r =>
    let number := r.numbers.size
    { r with
      numbers := r.numbers.insert name number
      numbered := r.numbered.insert number target }
  | none => return

/-- The tag that a handle and the rest of a tag make. -/
def tagOf (handle : String) (rest : Tag) : Read Tag := do
  if handle.isEmpty then return rest
  match (← get).handles.lookup handle with
  | some lead => return lead ++ rest
  | none => failure

/-- The anchor before a node, if there is one. -/
def anchor : Read (Option String) := do
  match ← peek with
  | some (.anchor name) =>
    skip
    return some name
  | _ => return none

/-- The tag before a node, if there is one. -/
def tag : Read (Option (String × Tag)) := do
  match ← peek with
  | some (.tag handle rest) =>
    skip
    return some (handle, rest)
  | _ => return none

/-- The anchor and the tag before a node, in either order. -/
def properties : Read (Option String × Option Tag) := do
  let before ← anchor
  let tag ← tag
  let after ← if before.isNone && tag.isSome then anchor else pure none
  match tag with
  | some (handle, rest) => return (before.orElse fun _ => after, some (← tagOf handle rest))
  | none => return (before, none)

end Reader

open Reader

mutual

/-- Reads a node. Block collections are read where `block` allows them, and a sequence that
is not indented further than its mapping where `indentless` allows it. -/
def node (fuel : Nat) (block indentless : Bool) : Read Node :=
  match fuel with
  | 0 => failure
  | fuel + 1 => do
    match ← peek with
    | some (.alias name) =>
      skip
      match (← get).numbers[name]? with
      | some number => return .alias number
      | none => failure
    | _ =>
      let (anchor, tag) ← properties
      match ← peek with
      | some (.scalar s) =>
        skip
        define anchor (some { s with tag })
        return .scalar { s with tag }
      | some .flowSequenceStart =>
        skip
        define anchor none
        return .sequence (← flowItems fuel true)
      | some .flowMappingStart =>
        skip
        define anchor none
        return .mapping (← flowPairs fuel true)
      | next =>
        if indentless && next == some .blockEntry then
          define anchor none
          return .sequence (← entries fuel)
        else if block && next == some .blockSequenceStart then
          skip
          define anchor none
          let items ← entries fuel
          expect .blockEnd
          return .sequence items
        else if block && next == some .blockMappingStart then
          skip
          define anchor none
          let pairs ← blockPairs fuel
          expect .blockEnd
          return .mapping pairs
        else if anchor.isSome || tag.isSome then
          define anchor (some { Scalar.empty with tag })
          return .scalar { Scalar.empty with tag }
        else failure

/-- Reads a node of a block collection, or nothing if one of these tokens comes next. -/
def nodeUnless (fuel : Nat) (indentless : Bool) (ends : List Token) : Read Node :=
  match fuel with
  | 0 => failure
  | fuel + 1 => do
    if ← atAny ends then return .scalar .empty
    else node fuel true indentless

/-- Reads a node of a flow collection, or nothing if one of these tokens comes next. -/
def flowNodeUnless (fuel : Nat) (ends : List Token) : Read Node :=
  match fuel with
  | 0 => failure
  | fuel + 1 => do
    if ← atAny ends then return .scalar .empty
    else node fuel false false

/-- Reads the entries of a block sequence. -/
def entries (fuel : Nat) : Read (List Node) :=
  match fuel with
  | 0 => failure
  | fuel + 1 => do
    if ← skipIf .blockEntry then
      let item ← nodeUnless fuel false [.blockEntry, .key, .value, .blockEnd]
      return item :: (← entries fuel)
    else return []

/-- Reads the pairs of a block mapping. -/
def blockPairs (fuel : Nat) : Read (List (Node × Node)) :=
  match fuel with
  | 0 => failure
  | fuel + 1 => do
    if ← skipIf .key then
      let key ← nodeUnless fuel true [.key, .value, .blockEnd]
      let value ←
        if ← skipIf .value then nodeUnless fuel true [.key, .value, .blockEnd]
        else pure (.scalar .empty)
      return (key, value) :: (← blockPairs fuel)
    else return []

/-- Reads the items of a flow sequence and its end. -/
def flowItems (fuel : Nat) (first : Bool) : Read (List Node) :=
  match fuel with
  | 0 => failure
  | fuel + 1 => do
    if ← skipIf .flowSequenceEnd then return []
    unless first do expect .flowEntry
    if ← skipIf .flowSequenceEnd then return []
    let item ← flowItem fuel
    return item :: (← flowItems fuel false)

/-- Reads an item of a flow sequence. A pair without braces is a mapping of its own. -/
def flowItem (fuel : Nat) : Read Node :=
  match fuel with
  | 0 => failure
  | fuel + 1 => do
    if ← skipIf .key then
      let key ←
        if ← atAny [.value, .flowEntry, .flowSequenceEnd] then do
          skip
          pure (.scalar .empty)
        else node fuel false false
      let value ←
        if ← skipIf .value then flowNodeUnless fuel [.flowEntry, .flowSequenceEnd]
        else pure (.scalar .empty)
      return .mapping [(key, value)]
    else node fuel false false

/-- Reads the pairs of a flow mapping and its end. -/
def flowPairs (fuel : Nat) (first : Bool) : Read (List (Node × Node)) :=
  match fuel with
  | 0 => failure
  | fuel + 1 => do
    if ← skipIf .flowMappingEnd then return []
    unless first do expect .flowEntry
    if ← skipIf .flowMappingEnd then return []
    if ← skipIf .key then
      let key ← flowNodeUnless fuel [.value, .flowEntry, .flowMappingEnd]
      let value ←
        if ← skipIf .value then flowNodeUnless fuel [.flowEntry, .flowMappingEnd]
        else pure (.scalar .empty)
      return (key, value) :: (← flowPairs fuel false)
    else
      let key ← node fuel false false
      return (key, .scalar .empty) :: (← flowPairs fuel false)

end

/-- The handles that need no directive. -/
def standardHandles : List (String × Tag) :=
  [("!", .ofChars ['!']), ("!!", .ofChars "tag:yaml.org,2002:".toList)]

/-- Reads the directives before a document: at most one version, which must be known, and
handles, each given once. -/
def directives : Nat → Bool → List (String × Tag) → Read (List (String × Tag))
  | 0, _, _ => failure
  | fuel + 1, versioned, handles => do
    match ← peek with
    | some (.version major minor) =>
      guard (!versioned && major == 1 && (minor == 1 || minor == 2))
      skip
      directives fuel true handles
    | some (.handle handle lead) =>
      guard (handles.lookup handle).isNone
      skip
      directives fuel versioned ((handle, lead) :: handles)
    | _ => return handles

/-- Passes over markers of the end of a document. -/
def skipDocumentEnds : Nat → Read Unit
  | 0 => return
  | fuel + 1 => do
    if ← skipIf .documentEnd then skipDocumentEnds fuel

/-- Reads the only document of a text, or none if there is nothing in it. -/
def document (fuel : Nat) : Read (Option Node) := do
  if ← skipIf .streamEnd then return none
  match ← peek with
  | some (.version ..) | some (.handle ..) | some .documentStart =>
    let handles ← directives fuel false []
    expect .documentStart
    modify fun r => { r with handles := handles ++ standardHandles }
    let atContent ← (do
      match ← peek with
      | some (.version ..) | some (.handle ..) => return false
      | _ => return !(← atAny [.documentStart, .documentEnd, .streamEnd]))
    let content ← if atContent then node fuel true false else pure (.scalar .empty)
    skipDocumentEnds fuel
    expect .streamEnd
    return some content
  | _ =>
    modify fun r => { r with handles := standardHandles }
    let content ← node fuel true false
    skipDocumentEnds fuel
    expect .streamEnd
    return some content

/-- The document of a text: nothing if the text is not well formed or holds more than one
document. -/
def document? (text : List Char) : Option Document := do
  let tokens ← tokens? text
  let (content, r) ← (document (4 * tokens.length + 8)).run { tokens }
  return ⟨content, r.numbered⟩

end GrammarLayers.Yaml
