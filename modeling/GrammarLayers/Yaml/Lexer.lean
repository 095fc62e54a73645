import GrammarLayers.Yaml.Token

/-!
# The tokens of a YAML text

Tokens are read one after the other. That something is the key of a mapping shows only at
the colon after it; so wherever a key may start, its place is noted, and the key token is
put there when the colon comes. A change of indentation opens and closes block collections.

## Main definitions

* `KeySite` — a place where a key may have started
* `Lexer` — the state between two tokens
* `Yaml.tokens?` — the tokens of a text, if it is made of tokens throughout
-/

namespace GrammarLayers.Yaml

/-- A place where the key of a mapping may have started. -/
structure KeySite where
  /-- Whether nothing else than a key can stand there. -/
  required : Bool
  /-- The number of tokens before it. -/
  token : Nat
  mark : Mark

/-- The state between two tokens. -/
structure Lexer where
  input : Input
  tokens : Array Token := #[]
  /-- The column of the innermost block collection. -/
  indent : Option Nat := none
  /-- The columns of those around it. -/
  indents : List (Option Nat) := []
  /-- Where a key may have started in the innermost flow collection, or outside all. -/
  site : Option KeySite := none
  /-- The same for each flow collection around it. -/
  outerSites : List (Option KeySite) := []
  /-- Whether a key may start here. -/
  keyAllowed : Bool := true

namespace Lexer

/-- Whether the place is inside a flow collection. -/
def inFlow (l : Lexer) : Bool := !l.outerSites.isEmpty

/-- The column of the place. -/
def column (l : Lexer) : Nat := l.input.mark.column

/-- Adds a token. -/
def emit (l : Lexer) (token : Token) : Lexer := { l with tokens := l.tokens.push token }

/-- Adds a token that takes `n` characters. -/
def emitSkip (l : Lexer) (token : Token) (n : Nat) : Lexer :=
  { l.emit token with input := l.input.skip n }

/-- A site that no key can end at any more: a key stays on one line and within 1024
bytes. A site where a key was required must not become such. -/
def freshSite? (mark : Mark) (site : Option KeySite) : Option (Option KeySite) :=
  match site with
  | none => some none
  | some s =>
    if s.mark.line < mark.line ∨ s.mark.offset + 1024 < mark.offset then
      if s.required then none else some none
    else some (some s)

/-- Forgets the innermost site if no key can end at it any more. Those around it are looked
at when they are the innermost ones again. -/
def refreshSite? (l : Lexer) : Option Lexer := do
  return { l with site := ← freshSite? l.input.mark l.site }

/-- Gives up the innermost site. -/
def dropSite? (l : Lexer) : Option Lexer :=
  match l.site with
  | some s => if s.required then none else some { l with site := none }
  | none => some l

/-- Notes that a key may start here. -/
def saveSite? (l : Lexer) : Option Lexer :=
  if l.keyAllowed then do
    let l ← l.dropSite?
    let required := !l.inFlow && l.indent == some l.column
    return { l with site := some ⟨required, l.tokens.size, l.input.mark⟩ }
  else some l

/-- Opens a block collection at a column if it is further in than the one around it. The
token that opens it goes before the token with the given number. -/
def openBlock (l : Lexer) (column number : Nat) (token : Token) : Lexer :=
  if !l.inFlow && l.indent.all (· < column) then
    { l with
      tokens := l.tokens.insertIdxIfInBounds number token
      indent := some column
      indents := l.indent :: l.indents }
  else l

/-- The number of block collections that end before a column, and what is left of the
columns. -/
def endedBlocks (column : Option Nat) : Option Nat → List (Option Nat) →
    Nat × Option Nat × List (Option Nat)
  | some n, outer :: rest =>
    if column.all (· < n) then
      let (count, indent, indents) := endedBlocks column outer rest
      (count + 1, indent, indents)
    else (0, some n, outer :: rest)
  | indent, indents => (0, indent, indents)

/-- Closes the block collections that end before a column, or all of them. -/
def closeBlocks (l : Lexer) (column : Option Nat) : Lexer :=
  if l.inFlow then l
  else
    let (count, indent, indents) := endedBlocks column l.indent l.indents
    { l with tokens := l.tokens ++ Array.replicate count Token.blockEnd, indent, indents }

/-- Skips gaps, comments and line breaks before the next token. A line may start with a byte
order mark, which takes a column. A tab does not count as a gap
where a key may start in a block collection; a line break outside flow collections lets a
key start. -/
def skipToToken (flow : Bool) : Nat → Bool → Input → Bool × Input
  | 0, keyAllowed, i => (keyAllowed, i)
  | fuel + 1, keyAllowed, i =>
    let i := i.skipByteOrderMark.skipWhile fun c => c == ' ' || ((flow || !keyAllowed) && c == '\t')
    let i := i.skipComment
    if i.peek.any isBreak then skipToToken flow fuel (!flow || keyAllowed) i.skipBreak
    else (keyAllowed, i)

/-- The end of the text. -/
def finish? (l : Lexer) : Option Lexer := do
  let l ← (l.closeBlocks none).dropSite?
  return { l with keyAllowed := false }.emit .streamEnd

/-- A line that belongs to no document: a directive, or a document marker. -/
def betweenDocuments? (l : Lexer) : Option Lexer := do
  let l ← (l.closeBlocks none).dropSite?
  return { l with keyAllowed := false }

/-- The start of a flow collection. -/
def openFlow? (l : Lexer) (token : Token) : Option Lexer := do
  let l ← l.saveSite?
  return { l with
    site := none, outerSites := l.site :: l.outerSites, keyAllowed := true }.emitSkip token 1

/-- The end of a flow collection. -/
def closeFlow? (l : Lexer) (token : Token) : Option Lexer := do
  let l ← l.dropSite?
  let l := { l with keyAllowed := false }
  match l.outerSites with
  | site :: outerSites => return { l with site, outerSites }.emitSkip token 1
  | [] => return l.emitSkip token 1

/-- A comma. -/
def flowEntry? (l : Lexer) : Option Lexer := do
  let l ← l.dropSite?
  return { l with keyAllowed := true }.emitSkip .flowEntry 1

/-- A hyphen that starts an entry of a block sequence. -/
def blockEntry? (l : Lexer) : Option Lexer := do
  guard (l.inFlow || l.keyAllowed)
  let l ← (l.openBlock l.column l.tokens.size .blockSequenceStart).dropSite?
  return { l with keyAllowed := true }.emitSkip .blockEntry 1

/-- A question mark that starts a key. -/
def key? (l : Lexer) : Option Lexer := do
  guard (l.inFlow || l.keyAllowed)
  let l ← (l.openBlock l.column l.tokens.size .blockMappingStart).dropSite?
  return { l with keyAllowed := !l.inFlow }.emitSkip .key 1

/-- A colon that starts a value. -/
def value? (l : Lexer) : Option Lexer :=
  match l.site with
  | some s =>
    let l := { l with tokens := l.tokens.insertIdxIfInBounds s.token .key, site := none }
    let l := l.openBlock s.mark.column s.token .blockMappingStart
    some ({ l with keyAllowed := false }.emitSkip .value 1)
  | none => do
    guard (l.inFlow || l.keyAllowed)
    let l := l.openBlock l.column l.tokens.size .blockMappingStart
    return { l with keyAllowed := !l.inFlow }.emitSkip .value 1

/-- An anchor or an alias. -/
def name? (l : Lexer) (token : String → Token) : Option Lexer := do
  let l ← l.saveSite?
  let (name, input) ← anchor? l.input
  return { l with keyAllowed := false, input }.emit (token name)

/-- A tag. -/
def tagged? (l : Lexer) : Option Lexer := do
  let l ← l.saveSite?
  let (token, input) ← tag? l.inFlow l.input
  return { l with keyAllowed := false, input }.emit token

/-- A block scalar. -/
def blockScalar? (l : Lexer) (literal : Bool) : Option Lexer := do
  let l ← l.dropSite?
  let (scalar, input) ← block? literal l.indent l.input
  return { l with keyAllowed := true, input }.emit (.scalar scalar)

/-- A quoted scalar. -/
def quotedScalar? (l : Lexer) (quote : Char) : Option Lexer := do
  let l ← l.saveSite?
  let (scalar, input) ← quoted? quote l.input
  return { l with keyAllowed := false, input }.emit (.scalar scalar)

/-- A plain scalar. After a line break a key may start again. -/
def plainScalar? (l : Lexer) : Option Lexer := do
  let l ← l.saveSite?
  let indent := (l.indent.map (· + 1)).getD 0
  let (scalar, broken, input) ← plain? l.inFlow indent l.input
  return { l with keyAllowed := broken, input }.emit (.scalar scalar)

/-- Whether a plain scalar can start with `c` before `next`. -/
def startsPlain (flow : Bool) (c : Char) (next : Option Char) : Bool :=
  !(isGap c || "-?:,[]\x7b\x7d#&*!|>'\x22%@\x60".toList.contains c) ||
    (c == '-' && !next.any isGap) ||
    (!flow && (c == '?' || c == ':') && !endsWord next)

/-- Reads the token that starts with `c`. -/
def tokenAt? (l : Lexer) (c : Char) : Option Lexer :=
  let next := l.input.peekAt 1
  if l.column == 0 && c == '%' then do
    let l ← l.betweenDocuments?
    let (token, input) ← directive? l.input
    return { l with input }.emit token
  else if l.input.atMarker '-' then l.betweenDocuments?.map (·.emitSkip .documentStart 3)
  else if l.input.atMarker '.' then l.betweenDocuments?.map (·.emitSkip .documentEnd 3)
  else if c == '[' then l.openFlow? .flowSequenceStart
  else if c == '\x7b' then l.openFlow? .flowMappingStart
  else if c == ']' then l.closeFlow? .flowSequenceEnd
  else if c == '\x7d' then l.closeFlow? .flowMappingEnd
  else if c == ',' then l.flowEntry?
  else if c == '-' && endsWord next then l.blockEntry?
  else if c == '?' && (l.inFlow || endsWord next) then l.key?
  else if c == ':' && (l.inFlow || endsWord next) then l.value?
  else if c == '*' then l.name? .alias
  else if c == '&' then l.name? .anchor
  else if c == '!' then l.tagged?
  else if (c == '|' || c == '>') && !l.inFlow then l.blockScalar? (c == '|')
  else if c == '\'' || c == '\x22' then l.quotedScalar? c
  else if startsPlain l.inFlow c next then l.plainScalar?
  else none

/-- Reads tokens up to the end of the text. Each takes at least one character. -/
def run? : Nat → Lexer → Option (Array Token)
  | 0, _ => none
  | fuel + 1, l => do
    let (keyAllowed, input) :=
      skipToToken l.inFlow (l.input.length + 1) l.keyAllowed l.input
    let l ← { l with keyAllowed, input }.refreshSite?
    let l := l.closeBlocks (some l.column)
    match l.input.peek with
    | none => (← l.finish?).tokens
    | some c => run? fuel (← l.tokenAt? c)

end Lexer

/-- The tokens of a text, if it is made of tokens throughout. -/
def tokens? (text : List Char) : Option (List Token) := do
  guard (text.all isAllowed)
  let tokens ← Lexer.run? (text.length + 1) { input := .ofText text }
  return tokens.toList

end GrammarLayers.Yaml
