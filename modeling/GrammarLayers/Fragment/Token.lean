import GrammarLayers.Text.Position

/-!
# Tokens of fragment text

Fragment text is split into the delimiters that matter for following a block — blanks,
quotes, comment markers and braces — and runs of everything else. At each place the longest
delimiter is taken, and neighbouring pieces of other text form one token.

## Main definitions

* `Token.Kind` — what a token is, by its literal text
* `Token` — a piece of the text with its kind and its byte offset
* `tokensOf` — the tokens of a text, in order
-/

namespace GrammarLayers

/-- What a token is. A slash or star that opens or closes no comment is ordinary text. -/
inductive Token.Kind where
  | space
  | newline
  /-- A tab, carriage return, vertical tab or form feed. -/
  | otherBlank
  | doubleQuote
  | singleQuote
  | lineComment
  | blockCommentStart
  | blockCommentEnd
  | openBrace
  | closeBrace
  /-- Anything else. -/
  | text
  deriving DecidableEq, Repr

namespace Token.Kind

/-- Whether tokens of this kind are blank. -/
def isBlank : Token.Kind → Bool
  | space | newline | otherBlank => true
  | _ => false

/-- The kind of a delimiter that is one character long. -/
def ofChar? (c : Char) : Option Token.Kind :=
  match c with
  | ' ' => some space
  | '\n' => some newline
  | '\t' | '\r' | '\x0b' | '\x0c' => some otherBlank
  | '\x22' => some doubleQuote
  | '\'' => some singleQuote
  | '\x7b' => some openBrace
  | '\x7d' => some closeBrace
  | _ => none

end Token.Kind

/-- A piece of a text. -/
structure Token where
  kind : Token.Kind
  text : List Char
  /-- Bytes before the piece. -/
  offset : Nat
  deriving DecidableEq, Repr

namespace Token

/-- Bytes up to the end of the token. -/
def stop (t : Token) : Nat := t.offset + byteSize t.text

/-- Whether the token is blank. -/
def isBlank (t : Token) : Bool := t.kind.isBlank

/-- Puts one character of ordinary text, found at `offset`, before the tokens that follow
it: it extends a text token and otherwise forms one of its own. -/
def consText (c : Char) (offset : Nat) : List Token → List Token
  | ⟨.text, text, _⟩ :: rest => ⟨.text, c :: text, offset⟩ :: rest
  | tokens => ⟨.text, [c], offset⟩ :: tokens

/-- The tokens of a text whose first character stands at `offset`. -/
def scan (offset : Nat) : List Char → List Token
  | [] => []
  | '/' :: '/' :: rest => ⟨.lineComment, ['/', '/'], offset⟩ :: scan (offset + 2) rest
  | '/' :: '*' :: rest => ⟨.blockCommentStart, ['/', '*'], offset⟩ :: scan (offset + 2) rest
  | '*' :: '/' :: rest => ⟨.blockCommentEnd, ['*', '/'], offset⟩ :: scan (offset + 2) rest
  | c :: rest =>
    let following := scan (offset + c.utf8Size) rest
    match Token.Kind.ofChar? c with
    | some kind => ⟨kind, [c], offset⟩ :: following
    | none => consText c offset following

end Token

/-- The tokens of a text, in order. -/
def tokensOf (text : List Char) : List Token := Token.scan 0 text

end GrammarLayers
