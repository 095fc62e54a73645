import GrammarLayers.Text.Position

/-!
# Production signatures

A signature has the form `kind name ( kind argument , … ) :` and takes in a newline right
after the colon. Words and blanks are ASCII only. It is matched on the characters of the
text, wherever a word starts.

## Main definitions

* `Signature` — kind, name and place of a signature
* `Signature.match?` — the signature a text starts with, and what follows it
* `Signature.findAll` — the signatures of a text, in order

Each reader returns what is left of the text, and a lemma `…_length` says that it is no
longer than before.
-/

namespace GrammarLayers

/-- A character of a word: an ASCII letter or digit, or an underscore. -/
def isWordChar (c : Char) : Bool := c.isAlphanum || c == '_'

/-- A blank of fragment text. -/
def isSpaceChar (c : Char) : Bool :=
  c == ' ' || c == '\t' || c == '\n' || c == '\x0b' || c == '\x0c' || c == '\r'

/-- What `match?` finds: the two words of a signature, its whole text, and the text after
it. -/
structure Signature.Match where
  kind : List Char
  name : List Char
  text : List Char
  rest : List Char

/-- A signature found in a text. -/
structure Signature where
  name : String
  kind : String
  /-- From the start of the kind to the colon, or the newline right after it. -/
  span : Span
  deriving DecidableEq, Repr

namespace Signature

/-- The word a text starts with, and the rest. -/
def word? (s : List Char) : Option (List Char × List Char) :=
  match s.takeWhile isWordChar with
  | [] => none
  | w => some (w, s.dropWhile isWordChar)

/-- The text after any blanks. -/
def skipBlanks (s : List Char) : List Char := s.dropWhile isSpaceChar

/-- The text after one or more blanks. -/
def skipSomeBlanks? : List Char → Option (List Char)
  | c :: s => if isSpaceChar c then some (skipBlanks s) else none
  | [] => none

/-- The text after the character `c`. -/
def skipChar? (c : Char) : List Char → Option (List Char)
  | d :: s => if d = c then some s else none
  | [] => none

/-- The text after a word, blanks, and another word. -/
def skipPair? (s : List Char) : Option (List Char) := do
  let (_, s) ← word? s
  let s ← skipSomeBlanks? s
  let (_, s) ← word? s
  return s

theorem length_dropWhile_le (p : Char → Bool) (s : List Char) :
    (s.dropWhile p).length ≤ s.length :=
  (List.dropWhile_sublist p).length_le

theorem skipBlanks_length (s : List Char) : (skipBlanks s).length ≤ s.length :=
  length_dropWhile_le _ s

theorem word?_length {s w r : List Char} (h : word? s = some (w, r)) :
    r.length ≤ s.length := by
  unfold word? at h
  split at h
  · simp at h
  · simp only [Option.some.injEq, Prod.mk.injEq] at h
    exact h.2 ▸ length_dropWhile_le _ s

theorem skipSomeBlanks?_length {s r : List Char} (h : skipSomeBlanks? s = some r) :
    r.length < s.length := by
  unfold skipSomeBlanks? at h
  split at h
  · split at h
    · simp only [Option.some.injEq] at h
      exact h ▸ Nat.lt_succ_of_le (skipBlanks_length _)
    · simp at h
  · simp at h

theorem skipChar?_length {c : Char} {s r : List Char} (h : skipChar? c s = some r) :
    r.length < s.length := by
  unfold skipChar? at h
  split at h
  · split at h
    · simp only [Option.some.injEq] at h
      simp [h]
    · simp at h
  · simp at h

theorem skipPair?_length {s r : List Char} (h : skipPair? s = some r) :
    r.length < s.length := by
  simp only [skipPair?, Option.bind_eq_bind, Option.bind_eq_some_iff, Prod.exists] at h
  obtain ⟨_, s₁, h₁, s₂, h₂, _, s₃, h₃, h₄⟩ := h
  have := word?_length h₁
  have := skipSomeBlanks?_length h₂
  have := word?_length h₃
  simp only [Option.pure_def, Option.some.injEq] at h₄
  subst h₄
  omega

/-- The text after the rest of an argument list: a closing parenthesis, or a comma, another
pair of words and again the rest. -/
def skipMoreArguments? (s : List Char) : Option (List Char) :=
  match skipChar? ')' s with
  | some r => some r
  | none =>
    match _h : skipChar? ',' s with
    | none => none
    | some afterComma =>
      match _h : skipPair? (skipBlanks afterComma) with
      | none => none
      | some afterPair => skipMoreArguments? (skipBlanks afterPair)
termination_by s.length
decreasing_by
  have := skipChar?_length ‹skipChar? ',' s = some afterComma›
  have := skipPair?_length ‹skipPair? (skipBlanks afterComma) = some afterPair›
  have := skipBlanks_length afterComma
  have := skipBlanks_length afterPair
  omega

/-- The text after an argument list that has been opened: pairs of words with commas
between them, or nothing, then a closing parenthesis. -/
def skipArguments? (s : List Char) : Option (List Char) :=
  match skipPair? (skipBlanks s) with
  | some r => skipMoreArguments? (skipBlanks r)
  | none => skipChar? ')' (skipBlanks s)

/-- The text after one newline, if it starts with one. -/
def skipNewline : List Char → List Char
  | '\n' :: s => s
  | s => s

/-- The signature that a text starts with. -/
def match? (s : List Char) : Option Match := do
  let (kind, r) ← word? s
  let r ← skipSomeBlanks? r
  let (name, r) ← word? r
  let r ← skipChar? '(' (skipBlanks r)
  let r ← skipArguments? r
  let r ← skipChar? ':' (skipBlanks r)
  let rest := skipNewline r
  return { kind, name, text := s.take (s.length - rest.length), rest }

theorem skipMoreArguments?_length {s r : List Char} (h : skipMoreArguments? s = some r) :
    r.length < s.length := by
  fun_induction skipMoreArguments? s with
  | case1 s r' h' =>
    simp only [Option.some.injEq] at h
    exact h ▸ skipChar?_length h'
  | case2 => simp at h
  | case3 => simp at h
  | case4 s _ afterComma hc afterPair hp ih =>
    have := ih h
    have := skipChar?_length hc
    have := skipPair?_length hp
    have := skipBlanks_length afterComma
    have := skipBlanks_length afterPair
    omega

theorem skipArguments?_length {s r : List Char} (h : skipArguments? s = some r) :
    r.length < s.length := by
  have hs := skipBlanks_length s
  unfold skipArguments? at h
  split at h
  · next r' hp =>
    have := skipMoreArguments?_length h
    have := skipPair?_length hp
    have := skipBlanks_length r'
    omega
  · have := skipChar?_length h
    omega

theorem skipNewline_length (s : List Char) : (skipNewline s).length ≤ s.length := by
  unfold skipNewline
  split <;> simp

theorem match?_length {s : List Char} {m : Match} (h : match? s = some m) :
    m.rest.length < s.length := by
  simp only [match?, Option.bind_eq_bind, Option.bind_eq_some_iff, Prod.exists] at h
  obtain ⟨_, s₁, h₁, s₂, h₂, _, s₃, h₃, s₄, h₄, s₅, h₅, s₆, h₆, h₇⟩ := h
  have := word?_length h₁
  have := skipSomeBlanks?_length h₂
  have := word?_length h₃
  have := skipChar?_length h₄
  have := skipBlanks_length s₃
  have := skipArguments?_length h₅
  have := skipChar?_length h₆
  have := skipBlanks_length s₅
  have := skipNewline_length s₆
  simp only [Option.pure_def, Option.some.injEq] at h₇
  subst h₇
  simp only
  omega

/-- The signatures of a text whose first character stands at `offset`. A signature starts
where a word does: `inWord` says whether the character before the text belongs to a word. -/
def findFrom (offset : Nat) (inWord : Bool) (s : List Char) : List Signature :=
  match s with
  | [] => []
  | c :: rest =>
    match _h : if inWord then none else match? (c :: rest) with
    | some m =>
      let stop := offset + byteSize m.text
      ⟨String.ofList m.name, String.ofList m.kind, ⟨offset, stop⟩⟩ ::
        findFrom stop false m.rest
    | none => findFrom (offset + c.utf8Size) (isWordChar c) rest
termination_by s.length
decreasing_by
  · have : match? (c :: rest) = some m := by
      cases inWord <;> simp_all
    have := match?_length this
    simpa using this
  · simp

/-- The signatures of a text, in order; none overlaps another. -/
def findAll (text : List Char) : List Signature := findFrom 0 false text

end Signature

end GrammarLayers
