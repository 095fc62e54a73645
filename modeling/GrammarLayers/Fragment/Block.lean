import GrammarLayers.Fragment.Token

/-!
# Brace blocks

A block runs from an opening brace to the brace that closes it. Braces inside string and
character literals and inside comments do not count. A tracker is fed the tokens of one
block and says when the block has closed.

## Main definitions

* `Context` — what the text at a place is inside of
* `Context.next` — the context after a token
* `BlockTracker` — context, open braces and pending escape
* `BlockTracker.feed` — the tracker after a token
* `BlockTracker.isClosed` — whether the block has closed
-/

namespace GrammarLayers

/-- What the text at a place is inside of. -/
inductive Context where
  | code
  /-- Between double quotes. -/
  | string
  /-- Between single quotes. -/
  | character
  /-- From a line comment marker to the end of the line. -/
  | lineComment
  | blockComment
  deriving DecidableEq, Repr

/-- The context after a token. A quote that is `escaped` closes nothing. -/
def Context.next (kind : Token.Kind) (escaped : Bool) : Context → Context
  | .code =>
    match kind with
    | .doubleQuote => .string
    | .singleQuote => .character
    | .lineComment => .lineComment
    | .blockCommentStart => .blockComment
    | _ => .code
  | .string => if kind = .doubleQuote ∧ ¬escaped then .code else .string
  | .character => if kind = .singleQuote ∧ ¬escaped then .code else .character
  | .lineComment => if kind = .newline then .code else .lineComment
  | .blockComment => if kind = .blockCommentEnd then .code else .blockComment

/-- Whether a text ends in an odd run of backslashes, so that a quote right after it is
escaped. -/
def escapesNext (text : List Char) : Bool :=
  (text.reverse.takeWhile (· == '\\')).length % 2 == 1

/-- What has been seen of one block. -/
structure BlockTracker where
  context : Context := .code
  /-- Braces that are open and not yet closed. -/
  depth : Nat := 0
  /-- Whether a brace was opened at all. -/
  opened : Bool := false
  /-- Whether the last token ends in an escape. -/
  escaping : Bool := false
  deriving DecidableEq, Repr

namespace BlockTracker

/-- Whether the outermost brace has been closed. -/
def isClosed (t : BlockTracker) : Bool := t.opened && t.depth == 0

/-- The tracker after one more token. Braces count in code only; a closing brace that
matches nothing is passed over. -/
def feed (t : BlockTracker) (token : Token) : BlockTracker :=
  let context := t.context.next token.kind t.escaping
  let escaping := escapesNext token.text
  match token.kind, t.context with
  | .openBrace, .code => ⟨context, t.depth + 1, true, escaping⟩
  | .closeBrace, .code => ⟨context, t.depth - 1, t.opened, escaping⟩
  | _, _ => ⟨context, t.depth, t.opened, escaping⟩

/-- After each of the tokens, whether the block has closed by then. -/
def trace (t : BlockTracker) : List Token → List Bool
  | [] => []
  | token :: rest => (t.feed token).isClosed :: trace (t.feed token) rest

/-- The tracker after all of the tokens. -/
def feedAll (t : BlockTracker) (tokens : List Token) : BlockTracker :=
  tokens.foldl feed t

end BlockTracker

end GrammarLayers
