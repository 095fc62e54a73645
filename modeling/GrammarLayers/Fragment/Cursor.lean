import GrammarLayers.Fragment.Token

/-!
# Reading tokens up to a place

A cursor moves forward over the tokens of a text. It can look at the next token without
taking it, and it can stop inside a token: the token is split there, and its second half is
the next token.

## Main definitions

* `Cursor` — the tokens not taken yet, and the place they start at
* `Cursor.peek`, `Cursor.next?`, `Cursor.nextIf?` — look at or take the next token
* `Cursor.takeTo` — take everything before a place

## Main results

* `unread_peek` — looking ahead takes nothing
* `length_unread_next?` — taking a token leaves fewer
-/

namespace GrammarLayers

/-- What is still to be read of a text. -/
structure Cursor where
  /-- The next token, when it has been looked at or is the second half of a split one. -/
  pending : Option Token
  /-- The tokens after it. -/
  upcoming : List Token
  /-- The bytes taken so far. -/
  offset : Nat
  deriving DecidableEq, Repr

namespace Cursor

/-- A cursor before the first token of a text. -/
def ofText (text : List Char) : Cursor := ⟨none, tokensOf text, 0⟩

/-- The tokens not taken yet, in order. -/
def unread (c : Cursor) : List Token := c.pending.toList ++ c.upcoming

/-- The next token; it becomes the pending one. -/
def peek (c : Cursor) : Option Token × Cursor :=
  match c.pending, c.upcoming with
  | some token, _ => (some token, c)
  | none, token :: rest => (some token, ⟨some token, rest, c.offset⟩)
  | none, [] => (none, c)

/-- Takes the next token. -/
def next? (c : Cursor) : Option (Token × Cursor) :=
  match c.pending, c.upcoming with
  | some token, rest => some (token, ⟨none, rest, token.stop⟩)
  | none, token :: rest => some (token, ⟨none, rest, token.stop⟩)
  | none, [] => none

/-- Takes the next token if it satisfies `p`. -/
def nextIf? (p : Token → Bool) (c : Cursor) : Option (Token × Cursor) :=
  match c.peek with
  | (some token, c') => if p token then c'.next? else none
  | (none, _) => none

@[simp] theorem unread_peek (c : Cursor) : c.peek.2.unread = c.unread := by
  rcases c with ⟨_ | token, _ | ⟨next, rest⟩, offset⟩ <;> simp [peek, unread]

theorem unread_next? {c c' : Cursor} {token : Token} (h : c.next? = some (token, c')) :
    c.unread = token :: c'.unread := by
  rcases c with ⟨_ | token, _ | ⟨next, rest⟩, offset⟩ <;>
    simp only [next?, Option.some.injEq, Prod.mk.injEq, reduceCtorEq] at h <;>
    obtain ⟨rfl, rfl⟩ := h <;> simp [unread]

theorem length_unread_next? {c c' : Cursor} {token : Token}
    (h : c.next? = some (token, c')) : c'.unread.length < c.unread.length := by
  simp [unread_next? h]

theorem unread_nextIf? {p : Token → Bool} {c c' : Cursor} {token : Token}
    (h : c.nextIf? p = some (token, c')) : c.unread = token :: c'.unread := by
  unfold nextIf? at h
  split at h
  · next token' c₁ hc =>
    split at h
    · have hu : c₁.unread = c.unread := by rw [← unread_peek c, hc]
      rw [← hu]
      exact unread_next? h
    · simp at h
  · simp at h

theorem length_unread_nextIf? {p : Token → Bool} {c c' : Cursor} {token : Token}
    (h : c.nextIf? p = some (token, c')) : c'.unread.length < c.unread.length := by
  simp [unread_nextIf? h]

/-- Takes everything before the place `target`, and returns its text. A token that goes
beyond `target` is split there. -/
def takeTo (target : Nat) (c : Cursor) : List Char × Cursor :=
  if c.offset < target then
    match _h : c.next? with
    | none => ([], c)
    | some (token, c') =>
      if target < token.stop then
        let (before, after) := splitAtByte (target - token.offset) token.text
        (before, ⟨some ⟨token.kind, after, target⟩, c'.upcoming, target⟩)
      else
        let (text, c'') := takeTo target c'
        (token.text ++ text, c'')
  else ([], c)
termination_by c.unread.length
decreasing_by exact length_unread_next? _h

/-- Takes blank tokens, and returns their text. -/
def skipBlanks (c : Cursor) : List Char × Cursor :=
  match _h : c.nextIf? Token.isBlank with
  | some (token, c') =>
    let (text, c'') := skipBlanks c'
    (token.text ++ text, c'')
  | none => ([], c)
termination_by c.unread.length
decreasing_by exact length_unread_nextIf? _h

end Cursor

end GrammarLayers
