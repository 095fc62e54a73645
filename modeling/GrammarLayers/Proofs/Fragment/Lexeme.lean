import GrammarLayers.Fragment.Token
import Mathlib.Data.List.Basic

/-!
# The token a text starts with

Tokens are read off a text one at a time: each is either a comment marker, a delimiter of one
character, or a run of ordinary text that stops where the next marker or delimiter begins.
Whether a run may stop depends on at most two characters of what follows it, and never on what
stands before it. So a text may be cut between two tokens, and a run may be cut anywhere, and
the parts have the tokens that the whole has there.

## Main definitions

* `Token.Kind.ofPair?` — the comment marker that two characters form
* `startsOrdinary` — whether a text starts with a character of ordinary text
* `Lexeme` — the kind and the text of the token a text starts with
* `textOf` — the text that some tokens cover

## Main results

* `scan_lexeme` — the first token, and the tokens of what follows it
* `induction_on_lexemes` — induction on a text, one token at a time
* `textOf_scan` — the tokens of a text cover it
* `scan_add` — the tokens of a text that stands further on
* `scan_eq_append` — a text cut between two of its tokens
-/

namespace GrammarLayers

/-- The comment marker that two characters form. -/
def Token.Kind.ofPair? (c d : Char) : Option Token.Kind :=
  match c, d with
  | '/', '/' => some lineComment
  | '/', '*' => some blockCommentStart
  | '*', '/' => some blockCommentEnd
  | _, _ => none

theorem Token.Kind.ofPair?_eq_some_iff {c d : Char} {kind : Token.Kind} :
    Token.Kind.ofPair? c d = some kind ↔
      c = '/' ∧ d = '/' ∧ kind = .lineComment ∨ c = '/' ∧ d = '*' ∧ kind = .blockCommentStart ∨
        c = '*' ∧ d = '/' ∧ kind = .blockCommentEnd := by
  constructor
  · intro h
    unfold Token.Kind.ofPair? at h
    split at h <;> simp_all
  · rintro (⟨rfl, rfl, rfl⟩ | ⟨rfl, rfl, rfl⟩ | ⟨rfl, rfl, rfl⟩) <;> rfl

/-- A delimiter of one character is no part of a comment marker. -/
theorem Token.Kind.ofChar?_ne_marker {c : Char} {kind : Token.Kind}
    (h : Token.Kind.ofChar? c = some kind) : c ≠ '/' ∧ c ≠ '*' := by
  constructor <;> rintro rfl <;> simp [Token.Kind.ofChar?] at h

theorem Token.Kind.ofChar?_ne_backslash {c : Char} {kind : Token.Kind}
    (h : Token.Kind.ofChar? c = some kind) : c ≠ '\\' := by
  rintro rfl
  simp [Token.Kind.ofChar?] at h

/-- The delimiters that matter inside of something, by their characters. -/
theorem Token.Kind.ofChar?_kind_iff {c : Char} {kind : Token.Kind}
    (h : Token.Kind.ofChar? c = some kind) :
    (kind = .doubleQuote ↔ c = '\x22') ∧ (kind = .singleQuote ↔ c = '\'') ∧
      (kind = .newline ↔ c = '\n') ∧ (kind = .openBrace ↔ c = '\x7b') ∧
      (kind = .closeBrace ↔ c = '\x7d') := by
  unfold Token.Kind.ofChar? at h
  split at h <;> cases h <;> simp

theorem Token.Kind.ofChar?_kind_ne {c : Char} {kind : Token.Kind}
    (h : Token.Kind.ofChar? c = some kind) :
    kind ≠ .lineComment ∧ kind ≠ .blockCommentStart ∧ kind ≠ .blockCommentEnd := by
  unfold Token.Kind.ofChar? at h
  split at h <;> cases h <;> simp

theorem Token.Kind.ofChar?_ne_text {c : Char} {kind : Token.Kind}
    (h : Token.Kind.ofChar? c = some kind) : kind ≠ .text := by
  rintro rfl
  unfold Token.Kind.ofChar? at h
  split at h <;> simp at h

theorem Token.Kind.ofPair?_ne_text {c d : Char} {kind : Token.Kind}
    (h : Token.Kind.ofPair? c d = some kind) : kind ≠ .text := by
  rintro rfl
  simp [Token.Kind.ofPair?_eq_some_iff] at h

/-- Whether a text starts with a character of ordinary text: one that is no delimiter and does
not form a comment marker with the next. -/
def startsOrdinary : List Char → Bool
  | [] => false
  | [c] => (Token.Kind.ofChar? c).isNone
  | c :: d :: _ => (Token.Kind.ofChar? c).isNone && (Token.Kind.ofPair? c d).isNone

theorem startsOrdinary_cons_iff {c : Char} {rest : List Char} :
    startsOrdinary (c :: rest) ↔
      Token.Kind.ofChar? c = none ∧ ∀ d ∈ rest.head?, Token.Kind.ofPair? c d = none := by
  cases rest <;> simp [startsOrdinary]

/-- A text that does not start with ordinary text is empty or starts with a delimiter or a
marker. -/
theorem not_startsOrdinary_cases {s : List Char} (h : ¬ startsOrdinary s) :
    s = [] ∨ (∃ c rest kind, s = c :: rest ∧ Token.Kind.ofChar? c = some kind) ∨
      ∃ c d rest kind, s = c :: d :: rest ∧ Token.Kind.ofPair? c d = some kind := by
  cases s with
  | nil => exact .inl rfl
  | cons c rest =>
    right
    cases hc : Token.Kind.ofChar? c with
    | some kind => exact .inl ⟨c, rest, kind, rfl, hc⟩
    | none =>
      -- no delimiter and yet not ordinary: a marker with the next character
      rw [startsOrdinary_cons_iff] at h
      obtain ⟨d, hd, hpair⟩ : ∃ d ∈ rest.head?, Token.Kind.ofPair? c d ≠ none := by
        by_contra hnone
        exact h ⟨hc, fun d hd => by_contra fun hpair => hnone ⟨d, hd, hpair⟩⟩
      obtain ⟨kind, hkind⟩ := Option.ne_none_iff_exists'.mp hpair
      obtain ⟨rest', rfl⟩ := List.head?_eq_some_iff.mp hd
      exact .inr ⟨c, d, rest', kind, rfl, hkind⟩

/-- The text `w ++ rest` starts with a token of this kind, whose text is `w`. -/
inductive Lexeme : Token.Kind → List Char → List Char → Prop
  | marker {c d : Char} {kind : Token.Kind} {rest : List Char} :
    Token.Kind.ofPair? c d = some kind → Lexeme kind [c, d] rest
  | delimiter {c : Char} {kind : Token.Kind} {rest : List Char} :
    Token.Kind.ofChar? c = some kind → Lexeme kind [c] rest
  | last {c : Char} {rest : List Char} :
    startsOrdinary (c :: rest) → ¬ startsOrdinary rest → Lexeme .text [c] rest
  | more {c : Char} {w rest : List Char} :
    startsOrdinary (c :: (w ++ rest)) → Lexeme .text w rest → Lexeme .text (c :: w) rest

namespace Token

theorem scan_marker {c d : Char} {kind : Token.Kind} (offset : Nat) (rest : List Char)
    (h : Token.Kind.ofPair? c d = some kind) :
    scan offset (c :: d :: rest) = ⟨kind, [c, d], offset⟩ :: scan (offset + 2) rest := by
  have hcd := Token.Kind.ofPair?_eq_some_iff.mp h
  rcases hcd with ⟨rfl, rfl, rfl⟩ | ⟨rfl, rfl, rfl⟩ | ⟨rfl, rfl, rfl⟩ <;> simp [scan]

theorem scan_delimiter {c : Char} {kind : Token.Kind} (offset : Nat) (rest : List Char)
    (h : Token.Kind.ofChar? c = some kind) :
    scan offset (c :: rest) =
      ⟨kind, [c], offset⟩ :: scan (offset + c.utf8Size) rest := by
  have hc := Token.Kind.ofChar?_ne_marker h
  rw [scan.eq_5 _ _ _ (by simp [hc.1]) (by simp [hc.1]) (by simp [hc.2]), h]

theorem scan_ordinary {c : Char} (offset : Nat) {rest : List Char}
    (h : startsOrdinary (c :: rest)) :
    scan offset (c :: rest) = consText c offset (scan (offset + c.utf8Size) rest) := by
  obtain ⟨hc, hpair⟩ := startsOrdinary_cons_iff.mp h
  rw [scan.eq_5, hc]
  all_goals
    rintro tail rfl rfl
    simp [Token.Kind.ofPair?] at hpair

/-- Ordinary text before anything else forms a token of its own. -/
theorem consText_scan_of_not_startsOrdinary (c : Char) (offset offset' : Nat) {s : List Char}
    (h : ¬ startsOrdinary s) :
    consText c offset (scan offset' s) = ⟨.text, [c], offset⟩ :: scan offset' s := by
  rcases not_startsOrdinary_cases h with
    rfl | ⟨d, rest, kind, rfl, hd⟩ | ⟨d, e, rest, kind, rfl, hd⟩
  · rfl
  · rw [scan_delimiter _ _ hd, consText]
    rintro _ _ _ ⟨⟩
    exact Token.Kind.ofChar?_ne_text hd rfl
  · rw [scan_marker _ _ hd, consText]
    rintro _ _ _ ⟨⟩
    exact Token.Kind.ofPair?_ne_text hd rfl

/-- The first token of a text, and the tokens of what follows it. -/
theorem scan_lexeme {kind : Token.Kind} {w rest : List Char} (h : Lexeme kind w rest)
    (offset : Nat) :
    scan offset (w ++ rest) = ⟨kind, w, offset⟩ :: scan (offset + byteSize w) rest := by
  induction h generalizing offset with
  | @marker c d kind rest hpair =>
    have hsize : byteSize [c, d] = 2 := by
      have hcd := Token.Kind.ofPair?_eq_some_iff.mp hpair
      rcases hcd with ⟨rfl, rfl, -⟩ | ⟨rfl, rfl, -⟩ | ⟨rfl, rfl, -⟩ <;> rfl
    rw [hsize]
    exact scan_marker offset rest hpair
  | delimiter hc => exact scan_delimiter offset _ hc
  | last hc hrest =>
    rw [List.singleton_append, scan_ordinary _ hc, consText_scan_of_not_startsOrdinary _ _ _ hrest]
    rfl
  | more hc _ ih =>
    -- the token of the rest of the run takes in one more character
    rw [List.cons_append, scan_ordinary _ hc, ih, consText, byteSize_cons, Nat.add_assoc]

end Token

namespace Lexeme

theorem ne_nil {kind : Token.Kind} {w rest : List Char} (h : Lexeme kind w rest) : w ≠ [] := by
  cases h <;> simp

/-- Tokens of ordinary text are those that start with ordinary text. -/
theorem kind_eq_text_iff {kind : Token.Kind} {w rest : List Char} (h : Lexeme kind w rest) :
    kind = .text ↔ startsOrdinary (w ++ rest) := by
  cases h with
  | marker hpair =>
    have hcd := Token.Kind.ofPair?_eq_some_iff.mp hpair
    rcases hcd with ⟨rfl, rfl, rfl⟩ | ⟨rfl, rfl, rfl⟩ | ⟨rfl, rfl, rfl⟩ <;>
      simp [startsOrdinary, Token.Kind.ofPair?]
  | delimiter hc =>
    rw [List.singleton_append, startsOrdinary_cons_iff, hc]
    simpa using Token.Kind.ofChar?_ne_text hc
  | last hc _ => simpa using hc
  | more hc _ => simpa using hc

/-- Every text but the empty one starts with a token. -/
theorem exists_of_ne_nil {s : List Char} (h : s ≠ []) :
    ∃ kind w rest, s = w ++ rest ∧ Lexeme kind w rest := by
  induction s with
  | nil => exact absurd rfl h
  | cons c s ih =>
    by_cases hc : startsOrdinary (c :: s)
    -- a run goes on as long as what follows is ordinary
    · by_cases hs : startsOrdinary s
      · obtain ⟨kind, w, rest, rfl, hw⟩ := ih (by rintro rfl; simp [startsOrdinary] at hs)
        obtain rfl := hw.kind_eq_text_iff.mpr hs
        exact ⟨.text, c :: w, rest, rfl, .more hc hw⟩
      · exact ⟨.text, [c], s, rfl, .last hc hs⟩
    · rcases not_startsOrdinary_cases hc with
        h | ⟨d, rest, kind, h, hd⟩ | ⟨d, e, rest, kind, h, hd⟩
      · simp at h
      · exact ⟨kind, [d], rest, h, .delimiter hd⟩
      · exact ⟨kind, [d, e], rest, h, .marker hd⟩

/-- A run of ordinary text takes in all the ordinary text there is. -/
theorem not_startsOrdinary {w rest : List Char} (h : Lexeme .text w rest) :
    ¬ startsOrdinary rest := by
  generalize hkind : Token.Kind.text = kind at h
  induction h with
  | marker hpair => exact absurd hkind.symm (Token.Kind.ofPair?_ne_text hpair)
  | delimiter hc => exact absurd hkind.symm (Token.Kind.ofChar?_ne_text hc)
  | last _ hrest => exact hrest
  | more _ _ ih => exact ih rfl

/-- What follows a token matters to it only in what it starts with. -/
theorem of_startsOrdinary {kind : Token.Kind} {w rest rest' : List Char} (h : Lexeme kind w rest)
    (hhead : ∀ d ∈ rest'.head?, rest.head? = some d)
    (hord : startsOrdinary rest' → startsOrdinary rest) : Lexeme kind w rest' := by
  induction h with
  | marker hpair => exact .marker hpair
  | delimiter hc => exact .delimiter hc
  | last hc hrest =>
    rw [startsOrdinary_cons_iff] at hc
    refine .last (startsOrdinary_cons_iff.mpr ⟨hc.1, fun d hd => hc.2 d (hhead d hd)⟩) ?_
    exact fun h => hrest (hord h)
  | @more c w rest hc hw ih =>
    refine .more ?_ (ih hhead hord)
    cases w with
    | nil => exact absurd rfl hw.ne_nil
    | cons d w => simpa [startsOrdinary] using hc

/-- The second half of a run of ordinary text is such a run. -/
theorem drop_text {a w rest : List Char} (h : Lexeme .text (a ++ w) rest) (hw : w ≠ []) :
    Lexeme .text w rest := by
  induction a with
  | nil => exact h
  | cons c a ih =>
    rw [List.cons_append] at h
    generalize hv : a ++ w = v at h
    cases h with
    | marker hpair => exact absurd rfl (Token.Kind.ofPair?_ne_text hpair)
    | delimiter hc => exact absurd rfl (Token.Kind.ofChar?_ne_text hc)
    | last => exact absurd hv (by simp [hw])
    | more _ hrest => exact ih (hv ▸ hrest)

/-- Only a run of ordinary text can be cut without cutting a marker, and it can be cut anywhere. -/
theorem of_cut {kind : Token.Kind} {a w rest : List Char} (h : Lexeme kind (a ++ w) rest)
    (ha : a ≠ []) (hw : w ≠ [])
    (hcut : ∀ x ∈ a.getLast?, ∀ y ∈ w.head?, Token.Kind.ofPair? x y = none) :
    kind = .text ∧ Lexeme .text w rest := by
  suffices hkind : kind = .text by
    subst hkind
    exact ⟨rfl, h.drop_text hw⟩
  obtain ⟨c, a, rfl⟩ := List.exists_cons_of_ne_nil ha
  obtain ⟨d, w, rfl⟩ := List.exists_cons_of_ne_nil hw
  generalize hv : c :: a ++ d :: w = v at h
  cases h with
  | marker hpair =>
    -- a marker is cut between its two characters or not at all
    cases a with
    | nil =>
      obtain ⟨rfl, hrest⟩ := List.cons.inj hv
      obtain ⟨rfl, -⟩ := List.cons.inj hrest
      have hnone : Token.Kind.ofPair? c d = none := hcut c rfl d rfl
      rw [hnone] at hpair
      cases hpair
    | cons e a => simp at hv
  | delimiter => simp at hv
  | last | more => rfl

/-- A brace is a token of one character. -/
theorem exists_brace {kind : Token.Kind} {w rest : List Char} (h : Lexeme kind w rest)
    (hkind : kind = .openBrace ∨ kind = .closeBrace) :
    ∃ c, w = [c] ∧ Token.Kind.ofChar? c = some kind := by
  cases h with
  | delimiter hc => exact ⟨_, rfl, hc⟩
  | marker hpair =>
    have hcd := Token.Kind.ofPair?_eq_some_iff.mp hpair
    rcases hcd with ⟨-, -, rfl⟩ | ⟨-, -, rfl⟩ | ⟨-, -, rfl⟩ <;> simp at hkind
  | last | more => simp at hkind

end Lexeme

/-- Induction on a text, one token at a time. -/
@[elab_as_elim]
theorem induction_on_lexemes {motive : List Char → Prop} (s : List Char) (nil : motive [])
    (lexeme : ∀ kind w rest, Lexeme kind w rest → motive rest → motive (w ++ rest)) :
    motive s := by
  by_cases hs : s = []
  · exact hs ▸ nil
  · obtain ⟨kind, w, rest, rfl, hw⟩ := Lexeme.exists_of_ne_nil hs
    have hshorter : rest.length < (w ++ rest).length := by
      have := List.length_pos_iff.mpr hw.ne_nil
      rw [List.length_append]
      omega
    exact lexeme kind w rest hw (induction_on_lexemes rest nil lexeme)
termination_by s.length

/-- The text that some tokens cover. -/
def textOf (tokens : List Token) : List Char := tokens.flatMap Token.text

@[simp] theorem textOf_nil : textOf [] = [] := rfl

@[simp] theorem textOf_cons (t : Token) (tokens : List Token) :
    textOf (t :: tokens) = t.text ++ textOf tokens := rfl

@[simp] theorem textOf_append (a b : List Token) : textOf (a ++ b) = textOf a ++ textOf b :=
  List.flatMap_append

namespace Token

/-- The tokens of a text cover it. -/
@[simp] theorem textOf_scan (offset : Nat) (s : List Char) : textOf (scan offset s) = s := by
  induction s using induction_on_lexemes generalizing offset with
  | nil => rfl
  | lexeme kind w rest hw ih => rw [scan_lexeme hw, textOf_cons, ih]

/-- The token, so many bytes further on. -/
def shift (n : Nat) (t : Token) : Token := ⟨t.kind, t.text, n + t.offset⟩

theorem textOf_map_shift (n : Nat) (tokens : List Token) :
    textOf (tokens.map (shift n)) = textOf tokens := by
  induction tokens with
  | nil => rfl
  | cons t tokens ih => rw [List.map_cons, textOf_cons, textOf_cons, ih, shift]

/-- Where a text stands moves its tokens and changes nothing else. -/
theorem scan_add (n offset : Nat) (s : List Char) :
    scan (n + offset) s = (scan offset s).map (shift n) := by
  induction s using induction_on_lexemes generalizing offset with
  | nil => rfl
  | lexeme kind w rest hw ih =>
    rw [scan_lexeme hw, scan_lexeme hw, List.map_cons, ← ih, shift, Nat.add_assoc]

/-- The first token of a text is the one that the text starts with. -/
theorem scan_eq_cons {offset : Nat} {s : List Char} {t : Token} {tokens : List Token}
    (h : scan offset s = t :: tokens) :
    ∃ rest, s = t.text ++ rest ∧ Lexeme t.kind t.text rest ∧ t.offset = offset ∧
      tokens = scan t.stop rest := by
  have hs : s ≠ [] := by
    rintro rfl
    simp [scan] at h
  obtain ⟨kind, w, rest, rfl, hw⟩ := Lexeme.exists_of_ne_nil hs
  rw [scan_lexeme hw, List.cons.injEq] at h
  obtain ⟨rfl, rfl⟩ := h
  exact ⟨rest, rfl, hw, rfl, rfl⟩

theorem startsOrdinary_iff {s : List Char} (offset : Nat) :
    startsOrdinary s ↔ ∃ t ∈ (scan offset s).head?, t.kind = .text := by
  by_cases hs : s = []
  · subst hs
    simp [startsOrdinary, scan]
  · obtain ⟨kind, w, rest, rfl, hw⟩ := Lexeme.exists_of_ne_nil hs
    simp [scan_lexeme hw, hw.kind_eq_text_iff]

/-- A text cut between two of its tokens: each part has the tokens that the whole has there. -/
theorem scan_eq_append {offset : Nat} {s : List Char} {tokens tokens' : List Token}
    (h : scan offset s = tokens ++ tokens') :
    ∃ rest, s = textOf tokens ++ rest ∧ scan offset (textOf tokens) = tokens ∧
      scan (offset + byteSize (textOf tokens)) rest = tokens' := by
  induction tokens generalizing offset s with
  | nil => exact ⟨s, rfl, rfl, h⟩
  | cons t tokens ih =>
    obtain ⟨rest₁, rfl, hlex, rfl, htail⟩ := scan_eq_cons h
    obtain ⟨rest, rfl, hcut, hrest⟩ := ih htail.symm
    refine ⟨rest, by simp, ?_, ?_⟩
    · have hlex' : Lexeme t.kind t.text (textOf tokens) := by
        apply hlex.of_startsOrdinary
        · intro d hd
          rw [List.head?_append, Option.mem_def.mp hd, Option.some_or]
        · -- the next token, if there is one, is whole on both sides of the cut
          rw [startsOrdinary_iff t.stop, startsOrdinary_iff t.stop, hcut, ← htail]
          rintro ⟨next, hnext, hkind⟩
          refine ⟨next, ?_, hkind⟩
          rw [List.append_eq, List.head?_append, Option.mem_def.mp hnext]
          rfl
      rw [textOf_cons, scan_lexeme hlex']
      exact congrArg (t :: ·) hcut
    · rw [← hrest, textOf_cons, byteSize_append, stop, Nat.add_assoc]

end Token

end GrammarLayers
