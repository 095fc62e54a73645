import GrammarLayers.Yaml.Input

/-!
# YAML scalars

A scalar is written plainly, between quotes, or as an indented block of lines. Line breaks
in it are folded or kept by the rules of its style.

## Main definitions

* `Tag` — the bytes of a tag
* `Scalar` — the text of a scalar, whether it is plain, and its tag
* `Yaml.plain?`, `Yaml.quoted?`, `Yaml.block?` — read a scalar of each style

The readers give nothing where the text is not well formed. Their loops are bounded by the
number of characters of the whole text.
-/

namespace GrammarLayers.Yaml

/-- The bytes of a tag. Escapes can write bytes in it that are no text. -/
abbrev Tag := List UInt8

/-- The tag that ASCII characters make, one byte for each. -/
def Tag.ofChars (text : List Char) : Tag := text.map fun c => UInt8.ofNat c.toNat

/-- A scalar. -/
structure Scalar where
  text : String
  /-- Whether it is written without quotes and not as a block. -/
  plain : Bool
  tag : Option Tag := none
  deriving DecidableEq, Repr

/-- A scalar that is being read. What separates the last word from the next is kept aside
until the next word comes. -/
structure Draft where
  /-- What has been read, last character first. -/
  text : List Char := []
  /-- Gaps since the last word, the last one first. -/
  gaps : List Char := []
  /-- The first line break since the last word. -/
  break1 : List Char := []
  /-- The other line breaks since the last word, the last one first. -/
  breaks : List Char := []
  /-- Whether there has been a line break since the last word. -/
  broken : Bool := false

namespace Draft

/-- What the separation since the last word counts as, the last character first: a single
break is a space, more of them are one fewer. -/
def separation (d : Draft) : List Char :=
  if d.broken then
    if d.break1 = ['\n'] then (if d.breaks = [] then [' '] else d.breaks)
    else d.breaks ++ d.break1
  else d.gaps

/-- The draft with the separation taken in. -/
def join (d : Draft) : Draft := { text := d.separation ++ d.text }

/-- The draft with one more character. -/
def push (d : Draft) (c : Char) : Draft := { d with text := c :: d.text }

/-- The draft after a gap; gaps at the start of a line do not count. -/
def addGap (d : Draft) (c : Char) : Draft :=
  if d.broken then d else { d with gaps := c :: d.gaps }

/-- The draft after a line break. -/
def addBreak (d : Draft) (b : List Char) : Draft :=
  if d.broken then { d with breaks := b ++ d.breaks }
  else { d with gaps := [], break1 := b, broken := true }

/-- The text that has been read. -/
def result (d : Draft) : String := String.ofList d.text.reverse

end Draft

/-- Where a plain scalar is in the course of being read. -/
inductive PlainPhase where
  | start
  | word
  | gap

/-- Reads on in a plain scalar. A scalar outside flow collections ends at a line that is
indented by less than `indent`. -/
def plainFrom (flow : Bool) (indent : Nat) :
    Nat → PlainPhase → Draft → Input → Option (Draft × Input)
  | 0, _, _, _ => none
  | fuel + 1, .start, d, i =>
    if i.atDocumentMarker || i.peek == some '#' then some (d, i)
    else plainFrom flow indent fuel .word d i
  | fuel + 1, .word, d, i =>
    match i.peek with
    | none => some (d, i)
    | some c =>
      if isGap c || isBreak c then plainFrom flow indent fuel .gap d i
      else if flow && c == ':' &&
          (i.peekAt 1).any (fun n => isFlowMark n || n == '?') then none
      else if (c == ':' && endsWord (i.peekAt 1)) || (flow && isFlowMark c) then some (d, i)
      else plainFrom flow indent fuel .word (d.join.push c) (i.skip 1)
  | fuel + 1, .gap, d, i =>
    match i.peek with
    | some c =>
      if isGap c then
        if d.broken && i.mark.column < indent && c == '\t' then none
        else plainFrom flow indent fuel .gap (d.addGap c) (i.skip 1)
      else if isBreak c then
        plainFrom flow indent fuel .gap (d.addBreak i.takeBreak) i.skipBreak
      else if !flow && i.mark.column < indent then some (d, i)
      else plainFrom flow indent fuel .start d i
    | none =>
      if !flow && i.mark.column < indent then some (d, i)
      else plainFrom flow indent fuel .start d i

/-- The plain scalar a text starts with, whether a line break follows it, and the rest. -/
def plain? (flow : Bool) (indent : Nat) (i : Input) : Option (Scalar × Bool × Input) := do
  let (d, i) ← plainFrom flow indent (3 * i.length + 3) .start {} i
  return (⟨d.result, true, none⟩, d.broken, i)

/-- The value of a hexadecimal digit. -/
def hexValue? (c : Char) : Option Nat :=
  let n := c.toNat
  if '0' ≤ c ∧ c ≤ '9' then some (n - 48)
  else if 'a' ≤ c ∧ c ≤ 'f' then some (n - 87)
  else if 'A' ≤ c ∧ c ≤ 'F' then some (n - 55)
  else none

/-- The number that hexadecimal digits denote. -/
def hexNumber? (digits : List Char) : Option Nat :=
  digits.foldlM (fun n c => (hexValue? c).map (n * 16 + ·)) 0

/-- The character that a letter after a backslash denotes. -/
def escapes : List (Char × Char) := [
  ('0', '\x00'), ('a', '\x07'), ('b', '\x08'), ('t', '\t'), ('\t', '\t'), ('n', '\n'),
  ('v', '\x0b'), ('f', '\x0c'), ('r', '\r'), ('e', '\x1b'), (' ', ' '), ('\x22', '\x22'),
  ('/', '/'), ('\\', '\\'), ('N', '\u0085'), ('_', '\u00a0'), ('L', '\u2028'),
  ('P', '\u2029')]

/-- The number of digits after a letter that gives a character by its code point. -/
def escapeDigits? (c : Char) : Option Nat :=
  [('x', 2), ('u', 4), ('U', 8)].lookup c

/-- The character that an escape denotes, where the text stands at its backslash. -/
def escape? (i : Input) : Option (Char × Input) := do
  let letter ← i.peekAt 1
  match escapes.lookup letter with
  | some c => return (c, i.skip 2)
  | none =>
    let count ← escapeDigits? letter
    let digits := (i.rest.drop 2).take count
    guard (digits.length = count)
    let n ← hexNumber? digits
    guard (n.isValidChar)
    return (Char.ofNat n, i.skip (2 + count))

/-- Reads on in a quoted scalar, after the opening quote. `gap` says whether gaps and breaks
are being read. -/
def quotedFrom (quote : Char) : Nat → Bool → Draft → Input → Option (Draft × Input)
  | 0, _, _, _ => none
  | fuel + 1, false, d, i =>
    match i.peek with
    | none => none
    | some c =>
      if isGap c || isBreak c then quotedFrom quote fuel true d i
      else if quote == '\'' && c == '\'' && i.peekAt 1 == some '\'' then
        quotedFrom quote fuel false (d.push c) (i.skip 2)
      else if c == quote then some (d, i.skip 1)
      else if quote == '\x22' && c == '\\' then
        if (i.peekAt 1).any isBreak then
          let i := (i.skip 1).skipBreak
          if i.peek == some quote then some (d, i.skip 1)
          else quotedFrom quote fuel true { d with broken := true } i
        else
          match escape? i with
          | some (c, i) => quotedFrom quote fuel false (d.push c) i
          | none => none
      else quotedFrom quote fuel false (d.push c) (i.skip 1)
  | fuel + 1, true, d, i =>
    match i.peek with
    | none => none
    | some c =>
      if isGap c then quotedFrom quote fuel true (d.addGap c) (i.skip 1)
      else if isBreak c then quotedFrom quote fuel true (d.addBreak i.takeBreak) i.skipBreak
      else if i.atDocumentMarker then none
      else quotedFrom quote fuel false d.join i

/-- The quoted scalar a text starts with, and the rest. -/
def quoted? (quote : Char) (i : Input) : Option (Scalar × Input) := do
  let (d, i) ← quotedFrom quote (3 * i.length + 3) false {} (i.skip 1)
  return (⟨d.result, false, none⟩, i)

/-- What happens to the line breaks at the end of a block scalar. -/
inductive Chomping where
  | strip
  | clip
  | keep
  deriving DecidableEq, Repr

/-- The chomping that a character asks for. -/
def Chomping.ofChar? : Char → Option Chomping
  | '+' => some keep
  | '-' => some strip
  | _ => none

/-- The indentation that a digit asks for; zero cannot be asked for. -/
def indentation? (c : Char) : Option Nat :=
  if '1' ≤ c ∧ c ≤ '9' then some (c.toNat - 48) else none

/-- The header of a block scalar after its first character: chomping and indentation in
either order, then a comment, up to the end of the line. -/
def blockHeader? (i : Input) : Option (Chomping × Option Nat × Input) := do
  let (chomping, i) :=
    match i.peek.bind Chomping.ofChar? with
    | some ch => (some ch, i.skip 1)
    | none => (none, i)
  let (indentation, i) :=
    match i.peek.bind indentation? with
    | some n => (some n, i.skip 1)
    | none => (none, i)
  let (chomping, i) :=
    match chomping, indentation, i.peek.bind Chomping.ofChar? with
    | none, some _, some ch => (some ch, i.skip 1)
    | _, _, _ => (chomping, i)
  let i := (i.skipWhile isGap).skipComment
  guard (i.peek.all isBreak)
  return (chomping.getD .clip, indentation, i.skipBreak)

/-- The indentation of a line, as far as it belongs to a scalar that is indented by
`indent`, if that is known. -/
def indentationOf (indent : Option Nat) (i : Input) : List Char :=
  match indent with
  | some n => (i.rest.take (n - i.mark.column)).takeWhile (· == ' ')
  | none => i.rest.takeWhile (· == ' ')

/-- Skips the indentation of a line and empty lines. `indent` is the indentation of the
scalar, if it is known, `widest` the widest so far, and `breaks` are the breaks so far, the
last one first. -/
def blockBreaks (indent : Option Nat) :
    Nat → Nat → List Char → Input → Option (Nat × List Char × Input)
  | 0, _, _, _ => none
  | fuel + 1, widest, breaks, i =>
    let i := i.skip (indentationOf indent i).length
    let widest := max widest i.mark.column
    let inIndentation := indent.all (i.mark.column < ·)
    match i.peek with
    | some c =>
      if inIndentation && c == '\t' then none
      else if isBreak c then
        blockBreaks indent fuel widest (i.takeBreak ++ breaks) i.skipBreak
      else some (widest, breaks, i)
    | none => some (widest, breaks, i)

/-- Reads on in a block scalar at the start of a line: `text` is what has been read, `break1`
the break after the last line, and `breaks` those of the empty lines after it, all with the
last character first. -/
def blockLines (literal : Bool) (indent : Nat) :
    Nat → List Char → List Char → List Char → Bool → Input →
      Option (List Char × List Char × List Char × Input)
  | 0, _, _, _, _, _ => none
  | fuel + 1, text, break1, breaks, leadingGap, i =>
    if i.mark.column = indent ∧ i.peek.isSome then do
      let gap := i.peek.any isGap
      let separation :=
        if !literal && break1 == ['\n'] && !leadingGap && !gap then
          (if breaks = [] then [' '] else breaks)
        else breaks ++ break1
      let line := i.rest.takeWhile fun c => !isBreak c
      let i := i.skip line.length
      let text := line.reverse ++ (separation ++ text)
      let (_, breaks, i') ← blockBreaks (some indent) (i.length + 1) 0 [] i.skipBreak
      blockLines literal indent fuel text i.takeBreak breaks gap i'
    else some (text, break1, breaks, i)

/-- The block scalar a text starts with, and the rest. The scalar stands inside a collection
that is indented by `parent`, if there is one. -/
def block? (literal : Bool) (parent : Option Nat) (i : Input) : Option (Scalar × Input) := do
  let (chomping, indentation, i) ← blockHeader? (i.skip 1)
  let given := indentation.map (parent.getD 0 + ·)
  let (widest, breaks, i) ← blockBreaks given (i.length + 1) 0 [] i
  let least := (parent.map (· + 1)).getD 1
  let indent := given.getD (max widest (max least 1))
  let (text, break1, breaks, i) ← blockLines literal indent (i.length + 1) [] [] breaks false i
  let ending :=
    match chomping with
    | .strip => []
    | .clip => break1
    | .keep => breaks ++ break1
  return (⟨String.ofList (ending ++ text).reverse, false, none⟩, i)

end GrammarLayers.Yaml
