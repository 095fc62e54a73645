import GrammarLayers.Proofs.Fragment.Lexeme
import Mathlib.Data.List.Chain

/-!
# The one way to cut a text into tokens

A text can be cut into delimiters and runs of ordinary text in several ways, since the markers of
comments share characters. What leaves one way only is a condition on the runs: no two of them
stand side by side, and a run takes in no marker, not even one that the character after it would
complete. The tokens of a text are the pieces of this cut, and every such cut is theirs.

## Main definitions

* `Token.Kind.delimiters` — the texts that delimiters of a kind have
* `Token.markers` — the delimiters that are made of characters of ordinary text
* `IsOrdinaryRun` — a run of ordinary text, with the text after it
* `IsTokenization` — a text cut into tokens

## Main results

* `lexeme_iff` — the token that a text starts with, without reference to how it is found
* `isTokenizationFrom_cons_iff` — a cut is one token, and a cut of the rest
* `tokensOf_eq_iff` — the tokens of a text are its one cut
-/

namespace GrammarLayers

/-- The texts that delimiters of a kind have. -/
def Token.Kind.delimiters : Token.Kind → List (List Char)
  | space => [[' ']]
  | newline => [['\n']]
  | otherBlank => [['\t'], ['\r'], ['\x0b'], ['\x0c']]
  | doubleQuote => [['\x22']]
  | singleQuote => [['\'']]
  | lineComment => [['/', '/']]
  | blockCommentStart => [['/', '*']]
  | blockCommentEnd => [['*', '/']]
  | openBrace => [['\x7b']]
  | closeBrace => [['\x7d']]
  | text => []

/-- The delimiters that are made of characters of ordinary text. -/
def Token.markers : List (List Char) := [['/', '/'], ['/', '*'], ['*', '/']]

/-- A run of ordinary text before `rest`: no character of it is a delimiter, and there is no marker
in it, not even with the character that follows it. -/
structure IsOrdinaryRun (run rest : List Char) : Prop where
  ne_nil : run ≠ []
  no_delimiter : ∀ c ∈ run, ∀ kind : Token.Kind, [c] ∉ kind.delimiters
  no_marker : ∀ marker ∈ Token.markers, ¬ marker <:+: run ++ rest.take 1

/-- The tokens cut a text whose first character stands at `offset` into delimiters and runs of
ordinary text. -/
structure IsTokenizationFrom (offset : Nat) (text : List Char) (tokens : List Token) : Prop where
  textOf_eq : textOf tokens = text
  offset_eq : ∀ before t after, tokens = before ++ t :: after →
    t.offset = offset + byteSize (textOf before)
  delimiter : ∀ t ∈ tokens, t.kind ≠ .text → t.text ∈ t.kind.delimiters
  ordinary : ∀ before t after, tokens = before ++ t :: after → t.kind = .text →
    IsOrdinaryRun t.text (textOf after)
  apart : tokens.IsChain fun t u => ¬ (t.kind = .text ∧ u.kind = .text)

/-- The tokens cut the text into delimiters and runs of ordinary text. -/
def IsTokenization (text : List Char) (tokens : List Token) : Prop :=
  IsTokenizationFrom 0 text tokens

/-! ### One token -/

variable {c d : Char} {kind : Token.Kind} {w rest s run : List Char} {t : Token}
  {tokens : List Token} {offset : Nat}

theorem Token.Kind.ofChar?_eq_some_iff :
    Token.Kind.ofChar? c = some kind ↔ [c] ∈ kind.delimiters := by
  constructor
  · intro h
    unfold Token.Kind.ofChar? at h
    split at h <;> cases h <;> decide
  · intro h
    cases kind <;> simp only [delimiters, List.mem_cons, List.cons.injEq, and_true, reduceCtorEq,
      and_false, List.not_mem_nil, or_false] at h
    case otherBlank => rcases h with rfl | rfl | rfl | rfl <;> rfl
    all_goals
      subst h
      rfl

theorem Token.Kind.ofChar?_eq_none_iff :
    Token.Kind.ofChar? c = none ↔ ∀ kind : Token.Kind, [c] ∉ kind.delimiters := by
  rw [Option.eq_none_iff_forall_ne_some]
  exact forall_congr' fun kind => not_congr ofChar?_eq_some_iff

theorem Token.Kind.ofPair?_eq_some_iff_mem :
    Token.Kind.ofPair? c d = some kind ↔ [c, d] ∈ kind.delimiters := by
  rw [ofPair?_eq_some_iff]
  cases kind <;> simp [delimiters]

theorem Token.Kind.ofPair?_eq_none_iff :
    Token.Kind.ofPair? c d = none ↔ [c, d] ∉ Token.markers := by
  rw [Option.eq_none_iff_forall_ne_some]
  simp only [Ne, ofPair?_eq_some_iff, Token.markers, List.mem_cons, List.cons.injEq, and_true,
    List.not_mem_nil, or_false]
  constructor
  · rintro h (⟨rfl, rfl⟩ | ⟨rfl, rfl⟩ | ⟨rfl, rfl⟩)
    · exact h .lineComment (by simp)
    · exact h .blockCommentStart (by simp)
    · exact h .blockCommentEnd (by simp)
  · rintro h kind (⟨rfl, rfl, -⟩ | ⟨rfl, rfl, -⟩ | ⟨rfl, rfl, -⟩) <;> exact h (by simp)

/-- A text that is a delimiter is one character or a marker. -/
theorem Token.Kind.mem_delimiters_cases (h : w ∈ kind.delimiters) :
    (∃ c, w = [c] ∧ Token.Kind.ofChar? c = some kind) ∨
      ∃ c d, w = [c, d] ∧ Token.Kind.ofPair? c d = some kind := by
  cases kind <;> simp only [delimiters, List.mem_cons, List.not_mem_nil, or_false] at h
  case otherBlank => rcases h with rfl | rfl | rfl | rfl <;> exact .inl ⟨_, rfl, rfl⟩
  case lineComment | blockCommentStart | blockCommentEnd => exact .inr ⟨_, _, h, rfl⟩
  all_goals exact .inl ⟨_, h, rfl⟩

/-- Markers have two characters, and so stand either at the start of a text or after it. -/
theorem forall_markers_not_infix_cons_iff :
    (∀ marker ∈ Token.markers, ¬ marker <:+: c :: s) ↔
      (∀ d ∈ s.head?, Token.Kind.ofPair? c d = none) ∧
        ∀ marker ∈ Token.markers, ¬ marker <:+: s := by
  simp only [List.infix_cons_iff, not_or]
  rw [forall₂_and]
  refine and_congr_left fun _ => ?_
  simp only [Token.Kind.ofPair?_eq_none_iff]
  cases s with
  | nil => simp [Token.markers]
  | cons d s => simp [Token.markers, eq_comm]

theorem head?_append_take_one (run rest : List Char) :
    (run ++ rest.take 1).head? = (run ++ rest).head? := by
  cases run with
  | nil => cases rest <;> rfl
  | cons c run => rfl

/-- There is no marker in a single character. -/
theorem not_infix_take_one (rest : List Char) :
    ∀ marker ∈ Token.markers, ¬ marker <:+: rest.take 1 := by
  intro marker hmarker hinfix
  have htwo : marker.length = 2 := by
    simp only [Token.markers, List.mem_cons, List.not_mem_nil, or_false] at hmarker
    rcases hmarker with rfl | rfl | rfl <;> rfl
  have hle := hinfix.length_le
  rw [List.length_take] at hle
  omega

theorem isOrdinaryRun_cons_iff :
    IsOrdinaryRun (c :: run) rest ↔
      startsOrdinary (c :: (run ++ rest)) ∧ (run = [] ∨ IsOrdinaryRun run rest) := by
  rw [startsOrdinary_cons_iff, ← head?_append_take_one]
  constructor
  · rintro ⟨-, hdelimiter, hmarker⟩
    obtain ⟨hc, hrun⟩ := List.forall_mem_cons.mp hdelimiter
    rw [List.cons_append, forall_markers_not_infix_cons_iff] at hmarker
    refine ⟨⟨Token.Kind.ofChar?_eq_none_iff.mpr hc, hmarker.1⟩, ?_⟩
    by_cases hnil : run = []
    · exact .inl hnil
    · exact .inr ⟨hnil, hrun, hmarker.2⟩
  · rintro ⟨⟨hc, hpair⟩, hrun⟩
    rw [Token.Kind.ofChar?_eq_none_iff] at hc
    -- after the first character there is nothing but the next one, or a run of its own
    rcases hrun with rfl | ⟨-, hdelimiter, hmarker⟩
    · refine ⟨by simp, by simpa using hc, ?_⟩
      rw [List.cons_append, forall_markers_not_infix_cons_iff]
      exact ⟨hpair, not_infix_take_one rest⟩
    · refine ⟨by simp, List.forall_mem_cons.mpr ⟨hc, hdelimiter⟩, ?_⟩
      rw [List.cons_append, forall_markers_not_infix_cons_iff]
      exact ⟨hpair, hmarker⟩

/-- The token that a text starts with is a delimiter, or a run of ordinary text that takes in all
the ordinary text there is. -/
theorem lexeme_iff :
    Lexeme kind w rest ↔
      (kind ≠ .text ∧ w ∈ kind.delimiters) ∨
        (kind = .text ∧ IsOrdinaryRun w rest ∧ ¬ startsOrdinary rest) := by
  constructor
  · intro h
    -- a run is one character after another, and so the two grow alike
    induction h with
    | marker hpair =>
      have hmem := Token.Kind.ofPair?_eq_some_iff_mem.mp hpair
      exact .inl ⟨Token.Kind.ofPair?_ne_text hpair, hmem⟩
    | delimiter hc =>
      have hmem := Token.Kind.ofChar?_eq_some_iff.mp hc
      exact .inl ⟨Token.Kind.ofChar?_ne_text hc, hmem⟩
    | last hc hrest => exact .inr ⟨rfl, isOrdinaryRun_cons_iff.mpr ⟨hc, .inl rfl⟩, hrest⟩
    | more hc _ ih =>
      rcases ih with ⟨hne, -⟩ | ⟨-, hrun, hrest⟩
      · exact absurd rfl hne
      · exact .inr ⟨rfl, isOrdinaryRun_cons_iff.mpr ⟨hc, .inr hrun⟩, hrest⟩
  · rintro (⟨-, hmem⟩ | ⟨rfl, hrun, hrest⟩)
    · rcases Token.Kind.mem_delimiters_cases hmem with ⟨c, rfl, hc⟩ | ⟨c, d, rfl, hpair⟩
      · exact .delimiter hc
      · exact .marker hpair
    · induction w with
      | nil => exact absurd rfl hrun.ne_nil
      | cons c w ih =>
        obtain ⟨hc, hw⟩ := isOrdinaryRun_cons_iff.mp hrun
        rcases hw with rfl | hw
        · exact .last hc hrest
        · exact .more hc (ih hw)

/-! ### All tokens -/

/-- What holds of every item of a list, with the items before and after it, holds of the first one
and of those after it. -/
theorem forall_eq_append_cons_iff {α : Type} {P : List α → α → List α → Prop} {x : α}
    {xs : List α} :
    (∀ before y after, x :: xs = before ++ y :: after → P before y after) ↔
      P [] x xs ∧ ∀ before y after, xs = before ++ y :: after → P (x :: before) y after := by
  constructor
  · intro h
    refine ⟨h [] x xs rfl, ?_⟩
    rintro before y after rfl
    exact h (x :: before) y after rfl
  · rintro ⟨hfirst, hrest⟩ before y after h
    cases before with
    | nil =>
      obtain ⟨rfl, rfl⟩ := List.cons.inj h
      exact hfirst
    | cons z before =>
      obtain ⟨rfl, heq⟩ := List.cons.inj h
      exact hrest before y after heq

theorem isTokenizationFrom_nil_iff : IsTokenizationFrom offset s [] ↔ s = [] := by
  constructor
  · intro h
    exact h.textOf_eq.symm
  · rintro rfl
    exact ⟨rfl, by simp, by simp, by simp, .nil⟩

/-- A text is cut by one token that stands at its start, and by the tokens of the rest. -/
theorem isTokenizationFrom_cons_iff :
    IsTokenizationFrom offset s (t :: tokens) ↔
      ∃ rest, s = t.text ++ rest ∧ t.offset = offset ∧
        (t.kind ≠ .text ∧ t.text ∈ t.kind.delimiters ∨
          t.kind = .text ∧ IsOrdinaryRun t.text rest ∧ ∀ u ∈ tokens.head?, u.kind ≠ .text) ∧
        IsTokenizationFrom t.stop rest tokens := by
  constructor
  · intro h
    obtain ⟨hoffset, hoffsets⟩ := forall_eq_append_cons_iff.mp h.offset_eq
    obtain ⟨hordinary, hordinaries⟩ := forall_eq_append_cons_iff.mp h.ordinary
    obtain ⟨hdelimiter, hdelimiters⟩ := List.forall_mem_cons.mp h.delimiter
    obtain ⟨hapart, haparts⟩ := List.isChain_cons.mp h.apart
    rw [textOf_nil, byteSize_nil, Nat.add_zero] at hoffset
    refine ⟨textOf tokens, h.textOf_eq.symm, hoffset, ?_, ⟨rfl, ?_, hdelimiters, hordinaries,
      haparts⟩⟩
    · by_cases hkind : t.kind = .text
      · exact .inr ⟨hkind, hordinary hkind, fun u hu hu' => hapart u hu ⟨hkind, hu'⟩⟩
      · exact .inl ⟨hkind, hdelimiter hkind⟩
    · intro before u after htokens
      -- places count from the start of the text on one side, and from its second token on the other
      have hu := hoffsets before u after htokens
      rw [textOf_cons, byteSize_append] at hu
      rw [Token.stop]
      omega
  · rintro ⟨rest, rfl, rfl, hfirst, hrest⟩
    obtain rfl := hrest.textOf_eq
    refine ⟨rfl, forall_eq_append_cons_iff.mpr ⟨rfl, ?_⟩,
      List.forall_mem_cons.mpr ⟨?_, hrest.delimiter⟩,
      forall_eq_append_cons_iff.mpr ⟨?_, hrest.ordinary⟩,
      List.isChain_cons.mpr ⟨?_, hrest.apart⟩⟩
    · intro before u after htokens
      have hu := hrest.offset_eq before u after htokens
      rw [Token.stop] at hu
      rw [textOf_cons, byteSize_append]
      omega
    · intro hkind
      rcases hfirst with ⟨-, hmem⟩ | ⟨htext, -⟩
      · exact hmem
      · exact absurd htext hkind
    · intro hkind
      rcases hfirst with ⟨hne, -⟩ | ⟨-, hrun, -⟩
      · exact absurd hkind hne
      · exact hrun
    · rintro u hu ⟨hkind, hu'⟩
      rcases hfirst with ⟨hne, -⟩ | ⟨-, -, hnext⟩
      · exact hne hkind
      · exact hnext u hu hu'

theorem scan_eq_nil_iff : Token.scan offset s = [] ↔ s = [] := by
  constructor
  · intro h
    rw [← Token.textOf_scan offset s, h, textOf_nil]
  · rintro rfl
    rfl

theorem scan_eq_cons_iff :
    Token.scan offset s = t :: tokens ↔
      ∃ rest, s = t.text ++ rest ∧ t.offset = offset ∧ Lexeme t.kind t.text rest ∧
        Token.scan t.stop rest = tokens := by
  constructor
  · intro h
    obtain ⟨rest, hs, hlex, hoffset, htokens⟩ := Token.scan_eq_cons h
    exact ⟨rest, hs, hoffset, hlex, htokens.symm⟩
  · rintro ⟨rest, rfl, rfl, hlex, rfl⟩
    exact Token.scan_lexeme hlex t.offset

/-- Wherever a text stands, its tokens are its one cut. -/
theorem scan_eq_iff : Token.scan offset s = tokens ↔ IsTokenizationFrom offset s tokens := by
  induction tokens generalizing offset s with
  | nil => rw [scan_eq_nil_iff, isTokenizationFrom_nil_iff]
  | cons t tokens ih =>
    rw [scan_eq_cons_iff, isTokenizationFrom_cons_iff]
    refine exists_congr fun rest => and_congr_right fun _ => and_congr_right fun _ => ?_
    rw [← ih, and_congr_left_iff]
    rintro rfl
    -- whether the rest starts with ordinary text is seen from its first token
    rw [lexeme_iff, Token.startsOrdinary_iff t.stop]
    simp only [not_exists, not_and, Ne]

/-- The tokens of a text are the one way to cut it into delimiters, each with a text of its kind,
and runs of ordinary text that are not empty, have no delimiter of one character in them, do not
stand side by side, and have no marker in them even together with the next character. -/
theorem tokensOf_eq_iff (text : List Char) (tokens : List Token) :
    tokensOf text = tokens ↔ IsTokenization text tokens :=
  scan_eq_iff

/-- Of `*//` the first two characters are a marker: with a run of ordinary text in their place, the
next character would complete one. -/
example : tokensOf ['*', '/', '/'] =
    [⟨.blockCommentEnd, ['*', '/'], 0⟩, ⟨.text, ['/'], 2⟩] := by decide

end GrammarLayers
