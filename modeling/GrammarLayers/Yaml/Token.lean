import GrammarLayers.Yaml.Scalar

/-!
# YAML tokens

The tokens of a YAML text, and the readers of those that are names: anchors, tags and
directives.

## Main definitions

* `Yaml.Token` — a token
* `Yaml.anchor?`, `Yaml.tag?`, `Yaml.directive?` — read a name or a directive

The readers give nothing where the text is not well formed.
-/

namespace GrammarLayers.Yaml

/-- A token. The start and the end of a block collection stand for changes of the
indentation. -/
inductive Token where
  | version (major minor : Nat)
  /-- A directive by which the handle stands for the given start of tags. -/
  | handle (handle : String) (lead : Tag)
  | documentStart
  | documentEnd
  | blockSequenceStart
  | blockMappingStart
  | blockEnd
  | flowSequenceStart
  | flowSequenceEnd
  | flowMappingStart
  | flowMappingEnd
  | blockEntry
  | flowEntry
  | key
  | value
  | alias (name : String)
  | anchor (name : String)
  /-- A handle, empty for a verbatim tag, and the rest of the tag. -/
  | tag (handle : String) (rest : Tag)
  | scalar (scalar : Scalar)
  | streamEnd
  deriving DecidableEq, Repr

/-- The name after an anchor or alias mark, and the rest. -/
def anchor? (i : Input) : Option (String × Input) := do
  let i := i.skip 1
  let name := i.rest.takeWhile isNameChar
  let i := i.skip name.length
  guard (!name.isEmpty)
  guard (i.peek.all fun c => isGap c || isBreak c || "?:,]\x7d%@\x60".toList.contains c)
  return (String.ofList name, i)

/-- A tag handle: two exclamation marks with a name between them, or a single one, with what
may be the start of a tag after it. -/
def handle? (i : Input) : Option (List Char × Input) := do
  guard (i.peek == some '!')
  let name := (i.rest.drop 1).takeWhile isNameChar
  if (i.peekAt (1 + name.length)) == some '!' then
    return ('!' :: (name ++ ['!']), i.skip (name.length + 2))
  else return ('!' :: name, i.skip (name.length + 1))

/-- A byte written as a percent sign and two hexadecimal digits, and what follows it. -/
def percentByte? : List Char → Option (Nat × List Char)
  | '%' :: a :: b :: rest => (hexNumber? [a, b]).map (·, rest)
  | _ => none

/-- The number of bytes that follow the first one of a character. -/
def tailLength? (first : Nat) : Option Nat :=
  if first < 0x80 then some 0
  else if 0xc0 ≤ first ∧ first < 0xe0 then some 1
  else if 0xe0 ≤ first ∧ first < 0xf0 then some 2
  else if 0xf0 ≤ first ∧ first < 0xf8 then some 3
  else none

/-- The bytes of a character after its first one, as percent escapes. -/
def percentTail? : Nat → List Char → Option (List UInt8)
  | 0, _ => some []
  | count + 1, s => do
    let (b, s) ← percentByte? s
    guard (0x80 ≤ b ∧ b < 0xc0)
    let bytes ← percentTail? count s
    return UInt8.ofNat b :: bytes

/-- The bytes of a character written as percent escapes. Only their number and that they
belong together are looked at, not which character they make. -/
def percentChar? (s : List Char) : Option (List UInt8) := do
  let (first, s) ← percentByte? s
  let bytes ← percentTail? (← tailLength? first) s
  return UInt8.ofNat first :: bytes

/-- Characters of tags; those of flow collections only where `verbatim` says so. -/
def isTagChar (verbatim : Bool) (c : Char) : Bool :=
  isNameChar c || ";/?:@&=+$.%!~*'()".toList.contains c ||
    (verbatim && ",[]".toList.contains c)

/-- Reads the characters of a tag; `fuel` bounds their number. `bytes` is what has been read,
last byte first. -/
def tagBytes (verbatim : Bool) : Nat → List UInt8 → Input → Option (List UInt8 × Input)
  | 0, _, _ => none
  | fuel + 1, bytes, i =>
    match i.peek with
    | none => some (bytes.reverse, i)
    | some c =>
      if !isTagChar verbatim c then some (bytes.reverse, i)
      else if c == '%' then
        match percentChar? i.rest with
        | some char => tagBytes verbatim fuel (char.reverse ++ bytes) (i.skip (3 * char.length))
        | none => none
      else tagBytes verbatim fuel (UInt8.ofNat c.toNat :: bytes) (i.skip 1)

/-- The bytes of a tag, at least one if there is not a `start` of it already. Those after a
zero byte do not count. -/
def tagText? (verbatim : Bool) (start : List Char) (i : Input) : Option (Tag × Input) := do
  let (bytes, i) ← tagBytes verbatim (i.length + 1) [] i
  guard (!start.isEmpty || !bytes.isEmpty)
  let text := Tag.ofChars (start.drop 1) ++ bytes
  return (text.takeWhile (· != 0), i)

/-- The tag a text starts with, and the rest. Outside flow collections a gap follows it. -/
def tag? (flow : Bool) (i : Input) : Option (Token × Input) := do
  let (token, i) ←
    if i.peekAt 1 == some '<' then do
      let (text, i) ← tagText? true [] (i.skip 2)
      guard (i.peek == some '>')
      pure (Token.tag "" text, i.skip 1)
    else do
      let (handle, i) ← handle? i
      if 1 < handle.length && handle.getLast? == some '!' then do
        let (text, i) ← tagText? false [] i
        pure (Token.tag (String.ofList handle) text, i)
      else do
        let (text, i) ← tagText? false handle i
        if text.isEmpty then pure (Token.tag "" (.ofChars ['!']), i)
        else pure (Token.tag "!" text, i)
  guard (endsWord i.peek || (flow && i.peek == some ','))
  return (token, i)

/-- A number of at most nine digits, and the rest. -/
def number? (i : Input) : Option (Nat × Input) := do
  let digits := i.rest.takeWhile Char.isDigit
  guard (!digits.isEmpty && digits.length ≤ 9)
  return (digits.foldl (fun n c => n * 10 + (c.toNat - 48)) 0, i.skip digits.length)

/-- The directive on a line, and the rest after the line. -/
def directive? (i : Input) : Option (Token × Input) := do
  let i := i.skip 1
  let name := i.rest.takeWhile isNameChar
  let i := i.skip name.length
  guard (!name.isEmpty && endsWord i.peek)
  let i := i.skipWhile isGap
  let (token, i) ←
    if name = "YAML".toList then do
      let (major, i) ← number? i
      guard (i.peek == some '.')
      let (minor, i) ← number? (i.skip 1)
      pure (Token.version major minor, i)
    else if name = "TAG".toList then do
      let (handle, i) ← handle? i
      guard (handle.getLast? == some '!')
      guard (i.peek.any isGap)
      let i := i.skipWhile isGap
      let (lead, i) ← tagText? true [] i
      guard (endsWord i.peek)
      pure (Token.handle (String.ofList handle) lead, i)
    else none
  let i := (i.skipWhile isGap).skipComment
  guard (i.peek.all isBreak)
  return (token, i.skipBreak)

end GrammarLayers.Yaml
