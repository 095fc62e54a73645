import GrammarLayers.Proofs.Fragment.BlockGrammar

/-!
# Blocks read by characters

The block that a text starts with can be found without cutting the text into tokens first, by
going through its characters and minding where each one stands. A literal runs to the next quote
of its kind that no odd run of backslashes stands before, a line comment to the next newline, a
block comment from its marker to the first end marker after that; every other character is code,
and only braces in code count.

Tokens are cut without minding where they stand, and so markers that share a character are told
apart differently. A star of code right before a comment marker takes the slash of that marker,
and the comment goes unnoticed; a slash of a block comment takes the star of the end marker after
it, and the end goes unnoticed. The two readings find the same block unless one of these occurs
before the end of the block, and this is the only way in which they can come to differ.

## Main definitions

* `CharContext` — what a place is inside of, and the characters read there
* `CharTracker` — such a context, with the number of open braces
* `blockOfChars?` — the block that a text starts with, by its characters
* `blockOfTokens?` — the block that a text starts with, by its tokens
* `hasOverlap` — whether markers share a character before the end of that block
* `CharContext.Settled` — between two tokens, what the readers of characters and of tokens agree on

## Main results

* `exists_reads`, `CharContext.step` — how the characters of one token are read
* `block?_eq_of_not_overlapsIn` — without overlaps, both find the same block
* `exists_block?_ne_of_overlapsIn` — an overlap can be continued so that the blocks differ
* `blockOfTokens?_eq_blockOfChars?_iff` — both, for a text
-/

namespace GrammarLayers

/-- Whether some characters, the latest first, end in an odd run of `c`. -/
def oddRun (c : Char) (recent : List Char) : Bool :=
  (recent.takeWhile (· == c)).length % 2 == 1

/-- What a place in a text is inside of, with the characters read there so far, the latest
first. -/
inductive CharContext where
  | code (recent : List Char)
  | literal (quote : Char) (recent : List Char)
  | lineComment
  | blockComment (recent : List Char)
  deriving DecidableEq, Repr

namespace CharContext

/-- What the place after one more character is inside of. -/
def next (c : Char) : CharContext → CharContext
  | code recent =>
    if recent.head? = some '/' ∧ c = '/' then lineComment
    else if recent.head? = some '/' ∧ c = '*' then blockComment []
    else if c = '\x22' ∨ c = '\'' then literal c []
    else code (c :: recent)
  | literal quote recent =>
    if c = quote ∧ ¬ oddRun '\\' recent then code [] else literal quote (c :: recent)
  | lineComment => if c = '\n' then code [] else lineComment
  | blockComment recent =>
    if c = '/' ∧ recent.head? = some '*' then code [] else blockComment (c :: recent)

/-- Whether a character completes a marker that tokens do not see: a comment marker right after
a star of code, or the end of a block comment after an odd run of slashes. -/
def overlaps (c : Char) : CharContext → Bool
  | code ('/' :: '*' :: _) => c == '/' || c == '*'
  | blockComment ('*' :: before) => c == '/' && oddRun '/' before
  | _ => false

/-- The context of a place, by tokens. -/
def context : CharContext → Context
  | code _ => .code
  | literal quote _ => if quote = '\x22' then .string else .character
  | lineComment => .lineComment
  | blockComment _ => .blockComment

end CharContext

/-- What has been read of a block by its characters. -/
structure CharTracker where
  inside : CharContext
  /-- Braces that are open and not yet closed. -/
  depth : Nat
  deriving DecidableEq, Repr

namespace CharTracker

/-- The tracker after one more character. Braces count in code only. -/
def feed (t : CharTracker) (c : Char) : CharTracker :=
  match t.inside with
  | .code _ =>
    ⟨t.inside.next c,
      if c = '\x7b' then t.depth + 1 else if c = '\x7d' then t.depth - 1 else t.depth⟩
  | _ => ⟨t.inside.next c, t.depth⟩

/-- The characters up to and including the one that closes the last open brace. -/
def block? (t : CharTracker) : List Char → Option (List Char)
  | [] => none
  | c :: rest =>
    if (t.feed c).depth = 0 then some [c] else (block? (t.feed c) rest).map (c :: ·)

/-- Whether markers overlap before the last open brace is closed. -/
def overlapsIn (t : CharTracker) : List Char → Bool
  | [] => false
  | c :: rest =>
    t.inside.overlaps c || ((t.feed c).depth != 0 && overlapsIn (t.feed c) rest)

end CharTracker

/-- The block that a text starts with, read by its characters. -/
def blockOfChars? : List Char → Option (List Char)
  | '\x7b' :: rest => (CharTracker.block? ⟨.code [], 1⟩ rest).map ('\x7b' :: ·)
  | _ => none

/-- The block that a text starts with, read by its tokens. -/
def blockOfTokens? (text : List Char) : Option (List Char) := ({} : BlockTracker).blockText? text

/-- Whether markers overlap in the block that a text starts with. -/
def hasOverlap : List Char → Bool
  | '\x7b' :: rest => CharTracker.overlapsIn ⟨.code [], 1⟩ rest
  | _ => false

/-! ### Reading some characters without closing the block -/

/-- Reading the characters `w` leads from one tracker to another, with no overlap and with braces
open all the way. -/
inductive CharTracker.Reads : CharTracker → List Char → CharTracker → Prop
  | nil {t : CharTracker} : Reads t [] t
  | cons {t t' : CharTracker} {c : Char} {w : List Char} :
    t.inside.overlaps c = false → (t.feed c).depth ≠ 0 → Reads (t.feed c) w t' → Reads t (c :: w) t'

namespace CharTracker

theorem Reads.block?_append {t t' : CharTracker} {w : List Char} (h : Reads t w t')
    (rest : List Char) : t.block? (w ++ rest) = (t'.block? rest).map (w ++ ·) := by
  induction h with
  | nil => simp
  | cons _ hdepth _ ih => simp [block?, hdepth, ih, Function.comp_def]

theorem Reads.overlapsIn_append {t t' : CharTracker} {w : List Char} (h : Reads t w t')
    (rest : List Char) : t.overlapsIn (w ++ rest) = t'.overlapsIn rest := by
  induction h with
  | nil => rfl
  | cons hoverlaps hdepth _ ih => simp [overlapsIn, hoverlaps, hdepth, ih]

theorem Reads.append {t t' t'' : CharTracker} {w v : List Char} (h : Reads t w t')
    (h' : Reads t' v t'') : Reads t (w ++ v) t'' := by
  induction h with
  | nil => exact h'
  | cons hoverlaps hdepth _ ih => exact .cons hoverlaps hdepth (ih h')

/-- Away from the braces of code, only the context changes. -/
theorem feed_of_not_brace {inside : CharContext} {c : Char}
    (h : inside.context = .code → c ≠ '\x7b' ∧ c ≠ '\x7d') (depth : Nat) :
    feed ⟨inside, depth⟩ c = ⟨inside.next c, depth⟩ := by
  cases inside with
  | code recent =>
    obtain ⟨hopen, hclose⟩ := h rfl
    simp [feed, hopen, hclose]
  | literal | lineComment | blockComment => rfl

/-- One character that is no brace in code. -/
theorem reads_singleton {inside : CharContext} {depth : Nat} {c : Char}
    (hoverlaps : inside.overlaps c = false)
    (hbrace : inside.context = .code → c ≠ '\x7b' ∧ c ≠ '\x7d') (hdepth : depth ≠ 0) :
    Reads ⟨inside, depth⟩ [c] ⟨inside.next c, depth⟩ := by
  have hfeed := feed_of_not_brace hbrace depth
  refine .cons hoverlaps ?_ ?_
  · rw [hfeed]
    exact hdepth
  · rw [hfeed]
    exact .nil

end CharTracker

theorem oddRun_cons_of_ne {c d : Char} (h : d ≠ c) (recent : List Char) :
    oddRun c (d :: recent) = false := by
  simp [oddRun, h]

theorem oddRun_cons_self (c : Char) (recent : List Char) :
    oddRun c (c :: recent) = !oddRun c recent := by
  unfold oddRun
  rw [List.takeWhile_cons_of_pos (by simp), List.length_cons]
  rcases Nat.mod_two_eq_zero_or_one (recent.takeWhile (· == c)).length with h | h <;>
    simp [Nat.add_mod, h]

theorem oddRun_append {c : Char} {w recent : List Char} (h : recent.head? ≠ some c) :
    oddRun c (w ++ recent) = oddRun c w := by
  have hrecent : recent.takeWhile (· == c) = [] := by
    cases recent with
    | nil => rfl
    | cons d recent =>
      have hd : d ≠ c := by simpa using h
      simp [hd]
  unfold oddRun
  rw [List.takeWhile_append, hrecent, List.append_nil]
  split
  · next hlength => rw [hlength]
  · rfl

namespace CharContext

/-- The last character and the next form no marker, and in a block comment there is an even run
of slashes before one. -/
def Apart (rest : List Char) : CharContext → Prop
  | code recent => ∀ a ∈ recent.head?, ∀ b ∈ rest.head?, Token.Kind.ofPair? a b = none
  | literal quote _ => quote = '\x22' ∨ quote = '\''
  | lineComment => True
  | blockComment recent =>
    ∀ b ∈ rest.head?, (b = '/' → recent.head? ≠ some '*') ∧
      (b = '/' ∨ b = '*' → oddRun '/' recent = false)

/-- Between two tokens: nothing is left that would form a marker with what follows, and inside
a literal readers of characters and of tokens see the same escape. -/
structure Settled (rest : List Char) (escaping : Bool) (inside : CharContext) : Prop where
  apart : inside.Apart rest
  escaping_eq : ∀ quote recent, inside = literal quote recent → escaping = oddRun '\\' recent
  no_escape : ∀ quote recent, inside = literal quote recent → startsOrdinary rest →
    recent.head? ≠ some '\\'

/-- The character is one more of what the place is inside of. -/
def push (c : Char) : CharContext → CharContext
  | code recent => code (c :: recent)
  | literal quote recent => literal quote (c :: recent)
  | lineComment => lineComment
  | blockComment recent => blockComment (c :: recent)

theorem overlaps_of_ne {c : Char} (hslash : c ≠ '/') (hstar : c ≠ '*') (inside : CharContext) :
    inside.overlaps c = false := by
  unfold overlaps
  split <;> simp [hslash, hstar]

/-! ### Ordinary text -/

theorem next_ordinary {inside : CharContext} {c : Char} {rest : List Char}
    (hc : Token.Kind.ofChar? c = none) (h : inside.Apart (c :: rest)) :
    inside.next c = inside.push c ∧ inside.overlaps c = false := by
  have hdouble : c ≠ '\x22' := by rintro rfl; simp [Token.Kind.ofChar?] at hc
  have hsingle : c ≠ '\'' := by rintro rfl; simp [Token.Kind.ofChar?] at hc
  have hnewline : c ≠ '\n' := by rintro rfl; simp [Token.Kind.ofChar?] at hc
  cases inside with
  | code recent =>
    -- with a slash before it, the character would form a marker
    have hopens : recent.head? = some '/' → c ≠ '/' ∧ c ≠ '*' := fun hslash => by
      have hpair := h '/' hslash c rfl
      constructor <;> rintro rfl <;> simp [Token.Kind.ofPair?] at hpair
    constructor
    · simp only [next, push, hdouble, hsingle, or_self, if_false]
      rw [if_neg fun h => (hopens h.1).1 h.2, if_neg fun h => (hopens h.1).2 h.2]
    · unfold overlaps
      split <;> simp_all
  | literal quote recent =>
    have hquote : c ≠ quote := by
      rcases h with rfl | rfl
      · exact hdouble
      · exact hsingle
    simp [next, push, overlaps, hquote]
  | lineComment => simp [next, push, overlaps, hnewline]
  | blockComment recent =>
    have hends := (h c rfl).1
    constructor
    · simp only [next, push]
      rw [if_neg fun h => hends h.1 h.2]
    · unfold overlaps
      split <;> simp_all

theorem apart_push {inside : CharContext} {c : Char} {rest : List Char}
    (hc : startsOrdinary (c :: rest)) (h : inside.Apart (c :: rest)) :
    (inside.push c).Apart rest := by
  have hpair := (startsOrdinary_cons_iff.mp hc).2
  cases inside with
  | code recent => simpa [push, Apart] using hpair
  | literal quote recent => exact h
  | lineComment => trivial
  | blockComment recent =>
    intro b hb
    have hnone := hpair b hb
    constructor
    · rintro rfl hhead
      obtain rfl : c = '*' := by simpa using hhead
      simp [Token.Kind.ofPair?] at hnone
    · intro hmarker
      apply oddRun_cons_of_ne
      rintro rfl
      rcases hmarker with rfl | rfl <;> simp [Token.Kind.ofPair?] at hnone

@[simp] theorem context_push (c : Char) (inside : CharContext) :
    (inside.push c).context = inside.context := by
  cases inside <;> rfl

/-- All of the characters are pushed, the first one first. -/
def pushAll (w : List Char) (inside : CharContext) : CharContext :=
  w.foldl (fun inside c => inside.push c) inside

@[simp] theorem context_pushAll (w : List Char) (inside : CharContext) :
    (inside.pushAll w).context = inside.context := by
  induction w generalizing inside with
  | nil => rfl
  | cons c w ih => exact (ih (inside.push c)).trans (context_push c inside)

theorem eq_literal_of_pushAll {w recent : List Char} {quote : Char} {inside : CharContext}
    (h : inside.pushAll w = literal quote recent) :
    ∃ before, inside = literal quote before ∧ recent = w.reverse ++ before := by
  induction w generalizing inside with
  | nil => exact ⟨recent, h, rfl⟩
  | cons c w ih =>
    have hrest : (inside.push c).pushAll w = literal quote recent := h
    obtain ⟨before, hpush, rfl⟩ := ih hrest
    cases inside with
    | literal quote' before' =>
      obtain ⟨rfl, rfl⟩ := literal.inj hpush
      exact ⟨before', rfl, by simp⟩
    | code | lineComment | blockComment => simp [push] at hpush

theorem reads_text {kind : Token.Kind} {w rest : List Char} (h : Lexeme kind w rest)
    (hkind : kind = .text) {inside : CharContext} (hinside : inside.Apart (w ++ rest))
    {depth : Nat} (hdepth : depth ≠ 0) :
    CharTracker.Reads ⟨inside, depth⟩ w ⟨inside.pushAll w, depth⟩ ∧
      (inside.pushAll w).Apart rest := by
  -- one ordinary character, whatever follows it
  have hchar : ∀ {c : Char} {rest : List Char} {inside : CharContext},
      startsOrdinary (c :: rest) → inside.Apart (c :: rest) →
        CharTracker.Reads ⟨inside, depth⟩ [c] ⟨inside.push c, depth⟩ := by
    intro c rest inside hc hinside
    have hordinary := (startsOrdinary_cons_iff.mp hc).1
    obtain ⟨hnext, hoverlaps⟩ := next_ordinary hordinary hinside
    rw [← hnext]
    refine CharTracker.reads_singleton hoverlaps (fun _ => ⟨?_, ?_⟩) hdepth <;>
      (rintro rfl; simp [Token.Kind.ofChar?] at hordinary)
  induction h generalizing inside with
  | marker hpair => exact absurd hkind (Token.Kind.ofPair?_ne_text hpair)
  | delimiter hc => exact absurd hkind (Token.Kind.ofChar?_ne_text hc)
  | last hc _ => exact ⟨hchar hc hinside, apart_push hc hinside⟩
  | more hc _ ih =>
    obtain ⟨hreads, hapart⟩ := ih rfl (apart_push hc hinside)
    exact ⟨(hchar hc hinside).append hreads, hapart⟩

theorem settled_text {w rest : List Char} {inside : CharContext} {escaping : Bool}
    (hlex : Lexeme .text w rest) (h : inside.Settled (w ++ rest) escaping) :
    (inside.pushAll w).Settled rest (escapesNext w) := by
  refine ⟨(reads_text hlex rfl h.apart Nat.one_ne_zero).2, fun quote recent heq => ?_,
    fun _ _ _ hord => absurd hord hlex.not_startsOrdinary⟩
  obtain ⟨before, rfl, rfl⟩ := eq_literal_of_pushAll heq
  have hbefore := h.no_escape quote before rfl (hlex.kind_eq_text_iff.mp rfl)
  exact (oddRun_append hbefore).symm

/-! ### Delimiters of one character -/

/-- Outside of literals, escapes do not matter. -/
theorem Apart.settled {inside : CharContext} {rest : List Char} (h : inside.Apart rest)
    (hliteral : ∀ quote recent, inside ≠ literal quote recent) (escaping : Bool) :
    inside.Settled rest escaping where
  apart := h
  escaping_eq quote recent heq := absurd heq (hliteral quote recent)
  no_escape quote recent heq := absurd heq (hliteral quote recent)

theorem settled_code_nil (rest : List Char) (escaping : Bool) :
    (code []).Settled rest escaping := by
  apply Apart.settled <;> simp [Apart]

theorem settled_literal_nil {quote : Char} (hquote : quote = '\x22' ∨ quote = '\'')
    (rest : List Char) : (literal quote []).Settled rest false := by
  refine ⟨hquote, ?_, ?_⟩ <;> rintro quote recent ⟨⟩
  · rfl
  · simp

theorem settled_blockComment_nil (rest : List Char) (escaping : Bool) :
    (blockComment []).Settled rest escaping := by
  apply Apart.settled <;> simp [Apart, oddRun]

theorem settled_lineComment (rest : List Char) (escaping : Bool) :
    lineComment.Settled rest escaping := by
  apply Apart.settled <;> simp [Apart]

/-- After a character that belongs to no marker and is no backslash, nothing is left open. -/
theorem settled_push {inside : CharContext} {c : Char} {rest rest' : List Char}
    (hslash : c ≠ '/') (hstar : c ≠ '*') (hbackslash : c ≠ '\\') (h : inside.Apart rest) :
    (inside.push c).Settled rest' false := by
  cases inside with
  | code recent =>
    apply Apart.settled
    · simp [push, Apart, Token.Kind.ofPair?, hslash, hstar]
    · simp [push]
  | literal quote recent =>
    refine ⟨h, ?_, ?_⟩ <;> rintro quote recent' ⟨⟩
    · exact (oddRun_cons_of_ne hbackslash recent).symm
    · simp [hbackslash]
  | lineComment => exact settled_lineComment rest' false
  | blockComment recent =>
    apply Apart.settled
    · exact fun b _ => ⟨by simp [hstar], fun _ => oddRun_cons_of_ne hslash recent⟩
    · simp [push]

theorem next_delimiter {inside : CharContext} {c : Char} {kind : Token.Kind} {rest : List Char}
    {escaping : Bool} (hc : Token.Kind.ofChar? c = some kind)
    (h : inside.Settled (c :: rest) escaping) :
    (inside.next c).context = inside.context.next kind escaping ∧
      (inside.next c).Settled rest (escapesNext [c]) := by
  obtain ⟨hslash, hstar⟩ := Token.Kind.ofChar?_ne_marker hc
  have hbackslash := Token.Kind.ofChar?_ne_backslash hc
  obtain ⟨hdouble, hsingle, hnewline, -, -⟩ := Token.Kind.ofChar?_kind_iff hc
  obtain ⟨hline, hstart, hend⟩ := Token.Kind.ofChar?_kind_ne hc
  have hescape : escapesNext [c] = false := oddRun_cons_of_ne hbackslash []
  have hpush : (inside.push c).Settled rest false := settled_push hslash hstar hbackslash h.apart
  rw [hescape]
  cases inside with
  | code recent =>
    -- of the delimiters, code minds only quotes
    by_cases hquote : c = '\x22' ∨ c = '\''
    · have hnext : (code recent).next c = literal c [] := by simp [next, hslash, hstar, hquote]
      rw [hnext]
      refine ⟨?_, settled_literal_nil hquote rest⟩
      rcases hquote with rfl | rfl
      · simp [context, Context.next, hdouble.mpr rfl]
      · simp [context, Context.next, hsingle.mpr rfl]
    · have hnext : (code recent).next c = (code recent).push c := by
        simp [next, push, hslash, hstar, hquote]
      rw [hnext, context_push]
      refine ⟨?_, hpush⟩
      rw [not_or, ← hdouble, ← hsingle] at hquote
      cases kind <;> simp_all [context, Context.next]
  | literal quote recent =>
    have hescaping := h.escaping_eq quote recent rfl
    by_cases hcloses : c = quote ∧ ¬ oddRun '\\' recent
    · have hnext : (literal quote recent).next c = code [] := by simp [next, hcloses]
      rw [hnext]
      refine ⟨?_, settled_code_nil rest false⟩
      rcases h.apart with rfl | rfl <;> simp_all [context, Context.next]
    · have hnext : (literal quote recent).next c = (literal quote recent).push c := by
        simp only [next, push, if_neg hcloses]
      rw [hnext, context_push]
      refine ⟨?_, hpush⟩
      rcases h.apart with rfl | rfl <;> simp_all [context, Context.next]
  | lineComment =>
    by_cases hcloses : c = '\n'
    · simp [next, context, Context.next, hnewline, hcloses, settled_code_nil]
    · simp [next, context, Context.next, hnewline, hcloses, settled_lineComment]
  | blockComment recent =>
    have hnext : (blockComment recent).next c = (blockComment recent).push c := by
      simp [next, push, hslash]
    rw [hnext, context_push]
    exact ⟨by simp [context, Context.next, hend], hpush⟩

/-! ### Comment markers -/

theorem overlaps_code_of_ne {recent : List Char} (h : recent.head? ≠ some '*') (a b : Char) :
    (code (a :: recent)).overlaps b = false := by
  unfold overlaps
  split <;> simp_all

/-- In code, markers that open a comment do so, and a star with a slash means nothing. -/
theorem next_marker_code {recent rest : List Char} {a b : Char} {kind : Token.Kind}
    {escaping : Bool} (hpair : Token.Kind.ofPair? a b = some kind)
    (h : (code recent).Settled (a :: b :: rest) escaping) :
    (code (a :: recent)).overlaps b = false ∧
      ((code (a :: recent)).next b).context = Context.code.next kind escaping ∧
        (((code (a :: recent)).next b).Settled rest false ∨
          ∃ c ∈ rest.head?, ((code (a :: recent)).next b).overlaps c) := by
  have hapart : ∀ d ∈ recent.head?, Token.Kind.ofPair? d a = none :=
    fun d hd => h.apart d hd a rfl
  rcases Token.Kind.ofPair?_eq_some_iff.mp hpair with
    ⟨rfl, rfl, rfl⟩ | ⟨rfl, rfl, rfl⟩ | ⟨rfl, rfl, rfl⟩
  · refine ⟨overlaps_code_of_ne ?_ _ _, rfl, .inl (settled_lineComment rest false)⟩
    exact fun hstar => absurd (hapart '*' hstar) (by decide)
  · refine ⟨overlaps_code_of_ne ?_ _ _, rfl, .inl (settled_blockComment_nil rest false)⟩
    exact fun hstar => absurd (hapart '*' hstar) (by decide)
  · -- a star of code: the next character decides whether its slash belongs to a marker
    refine ⟨by simp [overlaps], rfl, ?_⟩
    have hnext : (code ('*' :: recent)).next '/' = code ('/' :: '*' :: recent) := rfl
    rw [hnext]
    by_cases hrest : ∃ c ∈ rest.head?, c = '/' ∨ c = '*'
    · obtain ⟨c, hc, hmarker⟩ := hrest
      exact .inr ⟨c, hc, by simpa [overlaps] using hmarker⟩
    · refine .inl (Apart.settled ?_ (by simp) false)
      intro d hd c hc
      obtain rfl : '/' = d := by simpa using hd
      have hc' : ¬ (c = '/' ∨ c = '*') := fun hmarker => hrest ⟨c, hc, hmarker⟩
      rw [not_or] at hc'
      simp [Token.Kind.ofPair?, hc']

/-- In a literal, markers are text that closes and escapes nothing. -/
theorem next_marker_literal {quote : Char} {recent rest : List Char} {a b : Char}
    {kind : Token.Kind} {escaping : Bool} (hpair : Token.Kind.ofPair? a b = some kind)
    (h : (literal quote recent).Settled (a :: b :: rest) escaping) :
    ((literal quote (a :: recent)).next b).context =
        (literal quote recent).context.next kind escaping ∧
      ((literal quote (a :: recent)).next b).Settled rest false := by
  have hab := Token.Kind.ofPair?_eq_some_iff.mp hpair
  -- no marker has a quote or a backslash in it
  have hquote : b ≠ quote := by
    rcases h.apart with rfl | rfl <;>
      rcases hab with ⟨rfl, rfl, rfl⟩ | ⟨rfl, rfl, rfl⟩ | ⟨rfl, rfl, rfl⟩ <;> decide
  have hbackslash : b ≠ '\\' := by
    rcases hab with ⟨rfl, rfl, rfl⟩ | ⟨rfl, rfl, rfl⟩ | ⟨rfl, rfl, rfl⟩ <;> decide
  have hnext : (literal quote (a :: recent)).next b = literal quote (b :: a :: recent) := by
    simp [next, hquote]
  rw [hnext]
  refine ⟨?_, h.apart, ?_, ?_⟩
  · rcases h.apart with rfl | rfl <;>
      rcases hab with ⟨rfl, rfl, rfl⟩ | ⟨rfl, rfl, rfl⟩ | ⟨rfl, rfl, rfl⟩ <;> rfl
  · rintro quote recent' ⟨⟩
    exact (oddRun_cons_of_ne hbackslash _).symm
  · rintro quote recent' ⟨⟩ -
    simpa using hbackslash

/-- In a comment, only a star with a slash means something. -/
theorem next_marker_blockComment {recent rest : List Char} {a b : Char} {kind : Token.Kind}
    {escaping : Bool} (hpair : Token.Kind.ofPair? a b = some kind)
    (h : (blockComment recent).Settled (a :: b :: rest) escaping) :
    (blockComment (a :: recent)).overlaps b = false ∧
      ((blockComment (a :: recent)).next b).context = Context.blockComment.next kind escaping ∧
        (((blockComment (a :: recent)).next b).Settled rest false ∨
          ∃ c ∈ rest.head?, ((blockComment (a :: recent)).next b).overlaps c) := by
  have hab := Token.Kind.ofPair?_eq_some_iff.mp hpair
  have heven : oddRun '/' recent = false :=
    (h.apart a rfl).2 (by rcases hab with ⟨rfl, -⟩ | ⟨rfl, -⟩ | ⟨rfl, -⟩ <;> simp)
  rcases hab with ⟨rfl, rfl, rfl⟩ | ⟨rfl, rfl, rfl⟩ | ⟨rfl, rfl, rfl⟩
  · refine ⟨rfl, rfl, .inl (Apart.settled ?_ (by simp [next]) false)⟩
    intro c _
    refine ⟨fun _ => by simp, fun _ => ?_⟩
    rw [oddRun_cons_self, oddRun_cons_self, heven]
    rfl
  · -- a slash of the comment and a star: a slash next to them ends the comment
    refine ⟨rfl, rfl, ?_⟩
    have hnext : (blockComment ('/' :: recent)).next '*' =
        blockComment ('*' :: '/' :: recent) := rfl
    rw [hnext]
    by_cases hrest : rest.head? = some '/'
    · refine .inr ⟨'/', hrest, ?_⟩
      simp [overlaps, oddRun_cons_self, heven]
    · refine .inl (Apart.settled ?_ (by simp) false)
      intro c hc
      refine ⟨?_, fun _ => oddRun_cons_of_ne (by decide) _⟩
      rintro rfl
      exact absurd hc hrest
  · refine ⟨?_, rfl, .inl (settled_code_nil rest false)⟩
    simp [overlaps, heven]

/-- What is left after a comment marker: nothing that forms a marker with what follows, unless
that overlaps. -/
theorem next_marker {inside : CharContext} {a b : Char} {kind : Token.Kind} {rest : List Char}
    {escaping : Bool} (hpair : Token.Kind.ofPair? a b = some kind)
    (h : inside.Settled (a :: b :: rest) escaping) :
    (inside.push a).overlaps b = false ∧
      ((inside.push a).next b).context = inside.context.next kind escaping ∧
        (((inside.push a).next b).Settled rest false ∨
          ∃ c ∈ rest.head?, ((inside.push a).next b).overlaps c) := by
  cases inside with
  | code recent => exact next_marker_code hpair h
  | literal quote recent =>
    obtain ⟨hcontext, hsettled⟩ := next_marker_literal hpair h
    exact ⟨rfl, hcontext, .inl hsettled⟩
  | lineComment =>
    -- only a newline ends it, and none is in a marker
    have hab := Token.Kind.ofPair?_eq_some_iff.mp hpair
    refine ⟨rfl, ?_, .inl ?_⟩ <;>
      rcases hab with ⟨rfl, rfl, rfl⟩ | ⟨rfl, rfl, rfl⟩ | ⟨rfl, rfl, rfl⟩ <;>
        first | rfl | exact settled_lineComment rest false
  | blockComment recent => exact next_marker_blockComment hpair h

/-! ### One token, whatever it is -/

/-- The place after a token is one where both readers agree, unless the token is a marker and
overlaps with the next character. -/
def SettledOrOverlaps (kind : Token.Kind) (w rest : List Char) (inside : CharContext) : Prop :=
  inside.Settled rest (escapesNext w) ∨
    (∃ c ∈ rest.head?, inside.overlaps c) ∧ ∀ rest', Lexeme kind w rest'

/-- The characters of a token that is no brace of code are read without closing anything, and
lead to the context that the token leads to. -/
theorem exists_reads {kind : Token.Kind} {w rest : List Char} {inside : CharContext}
    {escaping : Bool} {depth : Nat} (hlex : Lexeme kind w rest)
    (h : inside.Settled (w ++ rest) escaping) (hdepth : depth ≠ 0)
    (hbrace : inside.context = .code → kind ≠ .openBrace ∧ kind ≠ .closeBrace) :
    ∃ inside', CharTracker.Reads ⟨inside, depth⟩ w ⟨inside', depth⟩ ∧
      inside'.context = inside.context.next kind escaping ∧
        inside'.SettledOrOverlaps kind w rest := by
  by_cases hkind : kind = .text
  · subst hkind
    refine ⟨inside.pushAll w, (reads_text hlex rfl h.apart hdepth).1, ?_,
      .inl (settled_text hlex h)⟩
    rw [context_pushAll]
    cases inside.context <;> rfl
  · cases hlex with
    | @delimiter c _ _ hc =>
      obtain ⟨hslash, hstar⟩ := Token.Kind.ofChar?_ne_marker hc
      obtain ⟨-, -, -, hopen, hclose⟩ := Token.Kind.ofChar?_kind_iff hc
      obtain ⟨hcontext, hsettled⟩ := next_delimiter hc h
      refine ⟨inside.next c, ?_, hcontext, .inl hsettled⟩
      apply CharTracker.reads_singleton (overlaps_of_ne hslash hstar inside) _ hdepth
      intro hcode
      obtain ⟨hnotOpen, hnotClose⟩ := hbrace hcode
      exact ⟨fun hc => hnotOpen (hopen.mpr hc), fun hc => hnotClose (hclose.mpr hc)⟩
    | @marker a b _ _ hpair =>
      have hab := Token.Kind.ofPair?_eq_some_iff.mp hpair
      have ha : Token.Kind.ofChar? a = none := by
        rcases hab with ⟨rfl, -⟩ | ⟨rfl, -⟩ | ⟨rfl, -⟩ <;> rfl
      -- the first character of a marker is still ordinary, the second completes the marker
      obtain ⟨hpush, hoverlaps⟩ := next_ordinary ha h.apart
      obtain ⟨hoverlaps', hcontext, hsettled⟩ := next_marker hpair h
      have hescape : escapesNext [a, b] = false := by
        rcases hab with ⟨rfl, rfl, -⟩ | ⟨rfl, rfl, -⟩ | ⟨rfl, rfl, -⟩ <;> rfl
      have hnobrace : (a ≠ '\x7b' ∧ a ≠ '\x7d') ∧ b ≠ '\x7b' ∧ b ≠ '\x7d' := by
        rcases hab with ⟨rfl, rfl, -⟩ | ⟨rfl, rfl, -⟩ | ⟨rfl, rfl, -⟩ <;> decide
      refine ⟨(inside.push a).next b, ?_, hcontext, ?_⟩
      · have hfirst := CharTracker.reads_singleton hoverlaps
          (fun _ => hnobrace.1) hdepth
        rw [hpush] at hfirst
        exact hfirst.append (CharTracker.reads_singleton hoverlaps'
          (fun _ => hnobrace.2) hdepth)
      · rw [SettledOrOverlaps, hescape]
        exact hsettled.imp_right fun hnext => ⟨hnext, fun _ => .marker hpair⟩
    | last => exact absurd rfl hkind
    | more => exact absurd rfl hkind

end CharContext

/-! ### A whole block -/

theorem CharContext.context_eq_code {inside : CharContext} (h : inside.context = .code) :
    ∃ recent, inside = .code recent := by
  cases inside with
  | code recent => exact ⟨recent, rfl⟩
  | literal quote _ => by_cases hquote : quote = '\x22' <;> simp [context, hquote] at h
  | lineComment | blockComment => simp [context] at h

theorem CharTracker.feed_openBrace (recent : List Char) (depth : Nat) :
    feed ⟨.code recent, depth⟩ '\x7b' = ⟨.code ('\x7b' :: recent), depth + 1⟩ := by
  simp [feed, CharContext.next]

theorem CharTracker.feed_closeBrace (recent : List Char) (depth : Nat) :
    feed ⟨.code recent, depth⟩ '\x7d' = ⟨.code ('\x7d' :: recent), depth - 1⟩ := by
  simp [feed, CharContext.next]

/-- Both readers find that the characters `w` close the block. -/
structure BothClose (inside : CharContext) (escaping : Bool) (depth : Nat) (w rest : List Char) :
    Prop where
  tokens : BlockTracker.blockText? ⟨inside.context, depth + 1, true, escaping⟩ (w ++ rest) = some w
  chars : CharTracker.block? ⟨inside, depth + 1⟩ (w ++ rest) = some w
  overlaps : CharTracker.overlapsIn ⟨inside, depth + 1⟩ (w ++ rest) = false

/-- Both readers pass over the characters `w`, and go on from another place. -/
structure BothPass (inside : CharContext) (escaping : Bool) (depth : Nat) (w : List Char)
    (inside' : CharContext) (depth' : Nat) (rest : List Char) : Prop where
  tokens : BlockTracker.blockText? ⟨inside.context, depth + 1, true, escaping⟩ (w ++ rest) =
    (BlockTracker.blockText? ⟨inside'.context, depth' + 1, true, escapesNext w⟩ rest).map (w ++ ·)
  chars : CharTracker.block? ⟨inside, depth + 1⟩ (w ++ rest) =
    (CharTracker.block? ⟨inside', depth' + 1⟩ rest).map (w ++ ·)
  overlaps : CharTracker.overlapsIn ⟨inside, depth + 1⟩ (w ++ rest) =
    CharTracker.overlapsIn ⟨inside', depth' + 1⟩ rest

/-- One token read by both: either it closes the block for both, or both go on from places that
agree again, with the same braces open. -/
theorem CharContext.step {kind : Token.Kind} {w rest : List Char} {inside : CharContext}
    {escaping : Bool} (hlex : Lexeme kind w rest) (h : inside.Settled (w ++ rest) escaping)
    (depth : Nat) :
    (∀ rest', Lexeme kind w rest' → BothClose inside escaping depth w rest') ∨
      ∃ inside' depth', inside'.SettledOrOverlaps kind w rest ∧
        ∀ rest', Lexeme kind w rest' → BothPass inside escaping depth w inside' depth' rest' := by
  by_cases hbrace : inside.context = .code ∧ (kind = .openBrace ∨ kind = .closeBrace)
  · obtain ⟨hcode, hkind⟩ := hbrace
    obtain ⟨recent, rfl⟩ := context_eq_code hcode
    obtain ⟨c, rfl, hc⟩ := hlex.exists_brace hkind
    have hsettled : ((code recent).push c).Settled rest (escapesNext [c]) := by
      obtain ⟨hslash, hstar⟩ := Token.Kind.ofChar?_ne_marker hc
      have hbackslash := Token.Kind.ofChar?_ne_backslash hc
      have hescape : escapesNext [c] = false := oddRun_cons_of_ne hbackslash []
      rw [hescape]
      exact settled_push hslash hstar hbackslash h.apart
    rcases hkind with rfl | rfl
    · obtain rfl : c = '\x7b' := (Token.Kind.ofChar?_kind_iff hc).2.2.2.1.mp rfl
      refine .inr ⟨code ('\x7b' :: recent), depth + 1, .inl hsettled, ?_⟩
      intro rest' hlex'
      constructor
      · rw [BlockTracker.blockText?_lexeme hlex', context, BlockTracker.feed_openBrace rfl,
          if_neg (by simp [BlockTracker.isClosed_iff])]
        rfl
      · simp [CharTracker.block?, CharTracker.feed_openBrace]
      · simp [CharTracker.overlapsIn, CharTracker.feed_openBrace, overlaps_of_ne]
    · obtain rfl : c = '\x7d' := (Token.Kind.ofChar?_kind_iff hc).2.2.2.2.mp rfl
      cases depth with
      | zero =>
        -- the last open brace
        refine .inl ?_
        intro rest' hlex'
        constructor
        · rw [BlockTracker.blockText?_lexeme hlex', context, BlockTracker.feed_closeBrace rfl,
            if_pos (by simp [BlockTracker.isClosed_iff])]
        · simp [CharTracker.block?, CharTracker.feed_closeBrace]
        · simp [CharTracker.overlapsIn, CharTracker.feed_closeBrace, overlaps_of_ne]
      | succ depth =>
        refine .inr ⟨code ('\x7d' :: recent), depth, .inl hsettled, ?_⟩
        intro rest' hlex'
        constructor
        · rw [BlockTracker.blockText?_lexeme hlex', context, BlockTracker.feed_closeBrace rfl,
            if_neg (by simp [BlockTracker.isClosed_iff])]
          rfl
        · simp [CharTracker.block?, CharTracker.feed_closeBrace]
        · simp [CharTracker.overlapsIn, CharTracker.feed_closeBrace, overlaps_of_ne]
  · -- all other tokens leave the braces alone
    have hnobrace : inside.context = .code → kind ≠ .openBrace ∧ kind ≠ .closeBrace :=
      fun hcode => not_or.mp fun hkind => hbrace ⟨hcode, hkind⟩
    obtain ⟨inside', hreads, hcontext, hsettled⟩ := exists_reads hlex h depth.succ_ne_zero hnobrace
    refine .inr ⟨inside', depth, hsettled, ?_⟩
    intro rest' hlex'
    refine ⟨?_, hreads.block?_append rest', hreads.overlapsIn_append rest'⟩
    rw [BlockTracker.blockText?_lexeme hlex', BlockTracker.feed_of_not_brace hnobrace,
      if_neg (by simp [BlockTracker.isClosed_iff]), hcontext]

/-- As long as no markers overlap, both readers find the same block. -/
theorem block?_eq_of_not_overlapsIn (s : List Char) {inside : CharContext} {escaping : Bool}
    {depth : Nat} (h : inside.Settled s escaping)
    (hoverlaps : CharTracker.overlapsIn ⟨inside, depth + 1⟩ s = false) :
    BlockTracker.blockText? ⟨inside.context, depth + 1, true, escaping⟩ s =
      CharTracker.block? ⟨inside, depth + 1⟩ s := by
  induction s using induction_on_lexemes generalizing inside escaping depth with
  | nil => rfl
  | lexeme kind w rest hlex ih =>
    rcases CharContext.step hlex h depth with hcloses | ⟨inside', depth', hnext, hpass⟩
    · rw [(hcloses rest hlex).tokens, (hcloses rest hlex).chars]
    · rw [(hpass rest hlex).overlaps] at hoverlaps
      rw [(hpass rest hlex).tokens, (hpass rest hlex).chars]
      rcases hnext with hsettled | ⟨⟨c, hc, hmarker⟩, -⟩
      · rw [ih hsettled hoverlaps]
      · -- the token would overlap with the next character
        obtain ⟨rest', rfl⟩ := List.head?_eq_some_iff.mp hc
        simp [CharTracker.overlapsIn, hmarker] at hoverlaps

/-! ### Telling the two apart

After an overlap, closing braces close the block for one of the readers, and for the other stand
in a comment. -/

theorem BlockTracker.blockText?_closeBrace_cons (t : BlockTracker) (rest : List Char) :
    t.blockText? ('\x7d' :: rest) =
      if (t.feed ⟨.closeBrace, ['\x7d'], 0⟩).isClosed then some ['\x7d']
      else ((t.feed ⟨.closeBrace, ['\x7d'], 0⟩).blockText? rest).map ('\x7d' :: ·) :=
  BlockTracker.blockText?_lexeme (w := ['\x7d']) (.delimiter rfl) t

theorem BlockTracker.blockText?_closers_isSome (depth : Nat) (escaping : Bool) :
    (BlockTracker.blockText? ⟨.code, depth + 1, true, escaping⟩
      (List.replicate (depth + 1) '\x7d')).isSome := by
  induction depth generalizing escaping with
  | zero => rfl
  | succ depth ih =>
    rw [List.replicate_succ, blockText?_closeBrace_cons, BlockTracker.feed_closeBrace rfl,
      if_neg (by simp [BlockTracker.isClosed_iff]), Option.isSome_map]
    exact ih _

theorem BlockTracker.blockText?_closers_blockComment (n depth : Nat) (escaping : Bool) :
    BlockTracker.blockText? ⟨.blockComment, depth + 1, true, escaping⟩ (List.replicate n '\x7d') =
      none := by
  induction n generalizing escaping with
  | zero => rfl
  | succ n ih =>
    have hfeed : BlockTracker.feed ⟨.blockComment, depth + 1, true, escaping⟩
        ⟨.closeBrace, ['\x7d'], 0⟩ = ⟨.blockComment, depth + 1, true, false⟩ := rfl
    rw [List.replicate_succ, blockText?_closeBrace_cons, hfeed,
      if_neg (by simp [BlockTracker.isClosed_iff]), ih]
    rfl

theorem CharTracker.block?_closers_isSome (depth : Nat) (recent : List Char) :
    (CharTracker.block? ⟨.code recent, depth + 1⟩ (List.replicate (depth + 1) '\x7d')).isSome := by
  induction depth generalizing recent with
  | zero => simp [block?, CharTracker.feed_closeBrace]
  | succ depth ih =>
    rw [List.replicate_succ, block?, CharTracker.feed_closeBrace, if_neg (by simp),
      Option.isSome_map]
    exact ih _

theorem CharTracker.block?_closers_comment {inside : CharContext} (n depth : Nat)
    (h : inside = .lineComment ∨ ∃ recent, inside = .blockComment recent) :
    CharTracker.block? ⟨inside, depth + 1⟩ (List.replicate n '\x7d') = none := by
  induction n generalizing inside with
  | zero => rfl
  | succ n ih =>
    rcases h with rfl | ⟨recent, rfl⟩
    · simp [List.replicate_succ, block?, feed, CharContext.next, ih (.inl rfl)]
    · simp [List.replicate_succ, block?, feed, CharContext.next, ih (.inr ⟨_, rfl⟩)]

/-- A lone slash or star before closing braces is ordinary text. -/
theorem lexeme_before_closers {c : Char} (hc : c = '/' ∨ c = '*') (n : Nat) :
    Lexeme .text [c] (List.replicate n '\x7d') := by
  refine .last (startsOrdinary_cons_iff.mpr ⟨?_, fun d hd => ?_⟩) ?_
  · rcases hc with rfl | rfl <;> rfl
  · obtain rfl := List.eq_of_mem_replicate (List.mem_of_mem_head? hd)
    rcases hc with rfl | rfl <;> rfl
  · cases n with
    | zero => simp [startsOrdinary]
    | succ n => simp [List.replicate_succ, startsOrdinary_cons_iff, Token.Kind.ofChar?]

/-- Right after an overlap, enough closing braces tell the two readers apart. -/
theorem block?_ne_of_overlaps {inside : CharContext} {c : Char} (h : inside.overlaps c)
    (depth : Nat) (escaping : Bool) :
    BlockTracker.blockText? ⟨inside.context, depth + 1, true, escaping⟩
        (c :: List.replicate (depth + 1) '\x7d') ≠
      CharTracker.block? ⟨inside, depth + 1⟩ (c :: List.replicate (depth + 1) '\x7d') := by
  unfold CharContext.overlaps at h
  split at h
  · -- a comment for the characters, code for the tokens
    next before =>
    have hc : c = '/' ∨ c = '*' := by simpa using h
    have htokens : (BlockTracker.blockText? ⟨.code, depth + 1, true, escaping⟩
        ([c] ++ List.replicate (depth + 1) '\x7d')).isSome := by
      have hfeed : BlockTracker.feed ⟨.code, depth + 1, true, escaping⟩ ⟨.text, [c], 0⟩ =
          ⟨.code, depth + 1, true, escapesNext [c]⟩ := rfl
      rw [BlockTracker.blockText?_lexeme (lexeme_before_closers hc _), hfeed,
        if_neg (by simp [BlockTracker.isClosed_iff]), Option.isSome_map]
      exact BlockTracker.blockText?_closers_isSome depth _
    have hchars : CharTracker.block? ⟨.code ('/' :: '*' :: before), depth + 1⟩
        (c :: List.replicate (depth + 1) '\x7d') = none := by
      rcases hc with rfl | rfl
      · simp [CharTracker.block?, CharTracker.feed, CharContext.next,
          CharTracker.block?_closers_comment _ _ (.inl rfl)]
      · simp [CharTracker.block?, CharTracker.feed, CharContext.next,
          CharTracker.block?_closers_comment _ _ (.inr ⟨_, rfl⟩)]
    rw [hchars]
    exact Option.isSome_iff_ne_none.mp htokens
  · -- code for the characters, still the comment for the tokens
    next before =>
    obtain ⟨rfl, -⟩ : c = '/' ∧ oddRun '/' before := by simpa using h
    have htokens : BlockTracker.blockText? ⟨.blockComment, depth + 1, true, escaping⟩
        (['/'] ++ List.replicate (depth + 1) '\x7d') = none := by
      have hfeed : BlockTracker.feed ⟨.blockComment, depth + 1, true, escaping⟩ ⟨.text, ['/'], 0⟩ =
          ⟨.blockComment, depth + 1, true, false⟩ := rfl
      rw [BlockTracker.blockText?_lexeme (lexeme_before_closers (.inl rfl) _), hfeed,
        if_neg (by simp [BlockTracker.isClosed_iff]),
        BlockTracker.blockText?_closers_blockComment]
      rfl
    have hchars : (CharTracker.block? ⟨.blockComment ('*' :: before), depth + 1⟩
        ('/' :: List.replicate (depth + 1) '\x7d')).isSome := by
      have hfeed : CharTracker.feed ⟨.blockComment ('*' :: before), depth + 1⟩ '/' =
          ⟨.code [], depth + 1⟩ := rfl
      rw [CharTracker.block?, hfeed, if_neg (by simp), Option.isSome_map]
      exact CharTracker.block?_closers_isSome depth []
    intro heq
    have hnone : CharTracker.block? ⟨.blockComment ('*' :: before), depth + 1⟩
        ('/' :: List.replicate (depth + 1) '\x7d') = none := heq.symm.trans htokens
    simp [hnone] at hchars
  · simp at h

/-- An overlap can be followed by closing braces so that the two readers find different blocks. -/
theorem exists_block?_ne_of_overlapsIn (s : List Char) {inside : CharContext} {escaping : Bool}
    {depth : Nat} (h : inside.Settled s escaping)
    (hoverlaps : CharTracker.overlapsIn ⟨inside, depth + 1⟩ s) :
    ∃ u n, u <+: s ∧ 2 ≤ u.length ∧
      BlockTracker.blockText? ⟨inside.context, depth + 1, true, escaping⟩
          (u ++ List.replicate n '\x7d') ≠
        CharTracker.block? ⟨inside, depth + 1⟩ (u ++ List.replicate n '\x7d') := by
  induction s using induction_on_lexemes generalizing inside escaping depth with
  | nil => simp [CharTracker.overlapsIn] at hoverlaps
  | lexeme kind w rest hlex ih =>
    have hw := List.length_pos_iff.mpr hlex.ne_nil
    have hinj : Function.Injective (Option.map (w ++ ·)) :=
      Option.map_injective (List.append_right_injective w)
    rcases CharContext.step hlex h depth with hcloses | ⟨inside', depth', hnext, hpass⟩
    · rw [(hcloses rest hlex).overlaps] at hoverlaps
      simp at hoverlaps
    · rw [(hpass rest hlex).overlaps] at hoverlaps
      rcases hnext with hsettled | ⟨⟨c, hc, hmarker⟩, hlex'⟩
      · obtain ⟨u, n, hu, hlength, hne⟩ := ih hsettled hoverlaps
        -- the token is the same before `u`, which shares two characters with what followed it
        have hlexu : Lexeme kind w (u ++ List.replicate n '\x7d') := by
          obtain ⟨tail, rfl⟩ := hu
          match u, hlength with
          | a :: b :: u, _ => exact hlex.of_startsOrdinary (fun d hd => hd) (fun hord => hord)
        have hboth := hpass _ hlexu
        refine ⟨w ++ u, n, (List.prefix_append_right_inj w).mpr hu, ?_, ?_⟩
        · rw [List.length_append]
          omega
        · rw [List.append_assoc, hboth.tokens, hboth.chars]
          exact fun heq => hne (hinj heq)
      · -- the overlap is here: the next character and closing braces tell the readers apart
        obtain ⟨rest', rfl⟩ := List.head?_eq_some_iff.mp hc
        have hboth := hpass _ (hlex' (c :: List.replicate (depth' + 1) '\x7d'))
        refine ⟨w ++ [c], depth' + 1, ⟨rest', by simp⟩, ?_, ?_⟩
        · rw [List.length_append, List.length_singleton]
          omega
        · rw [List.append_assoc, List.singleton_append, hboth.tokens, hboth.chars]
          exact fun heq => block?_ne_of_overlaps hmarker depth' _ (hinj heq)

/-! ### The block that a text starts with -/

theorem blockOfTokens?_openBrace (rest : List Char) :
    blockOfTokens? ('\x7b' :: rest) =
      (BlockTracker.blockText? ⟨.code, 1, true, false⟩ rest).map ('\x7b' :: ·) := by
  have hfeed : ({} : BlockTracker).feed ⟨.openBrace, ['\x7b'], 0⟩ = ⟨.code, 1, true, false⟩ := rfl
  have hlex : Lexeme .openBrace ['\x7b'] rest := .delimiter rfl
  rw [blockOfTokens?, ← List.singleton_append, BlockTracker.blockText?_lexeme hlex, hfeed,
    if_neg (by simp [BlockTracker.isClosed_iff])]
  rfl

/-- Before any brace is opened, closing braces close nothing. -/
theorem blockOfTokens?_closers (n : Nat) : blockOfTokens? (List.replicate n '\x7d') = none := by
  suffices h : ∀ escaping, BlockTracker.blockText? ⟨.code, 0, false, escaping⟩
      (List.replicate n '\x7d') = none from h false
  induction n with
  | zero => exact fun _ => rfl
  | succ n ih =>
    intro escaping
    have hfeed : BlockTracker.feed ⟨.code, 0, false, escaping⟩ ⟨.closeBrace, ['\x7d'], 0⟩ =
        ⟨.code, 0, false, false⟩ := rfl
    rw [List.replicate_succ, BlockTracker.blockText?_closeBrace_cons, hfeed,
      if_neg (by simp [BlockTracker.isClosed]), ih]
    rfl

theorem CharTracker.overlapsIn_append_of_overlapsIn {t : CharTracker} {u : List Char}
    (h : t.overlapsIn u) (v : List Char) : t.overlapsIn (u ++ v) := by
  induction u generalizing t with
  | nil => simp [overlapsIn] at h
  | cons c u ih =>
    simp only [overlapsIn, List.cons_append, Bool.or_eq_true, Bool.and_eq_true] at h ⊢
    exact h.imp_right fun hrest => ⟨hrest.1, ih hrest.2⟩

theorem CharTracker.overlapsIn_append_closers (t : CharTracker) (u : List Char) (n : Nat) :
    t.overlapsIn (u ++ List.replicate n '\x7d') = t.overlapsIn u := by
  induction u generalizing t with
  | nil =>
    induction n generalizing t with
    | zero => rfl
    | succ n ih =>
      have hrest := ih (t.feed '\x7d')
      rw [List.nil_append] at hrest
      simp [overlapsIn, List.replicate_succ, CharContext.overlaps_of_ne, hrest]
  | cons c u ih => rw [List.cons_append, overlapsIn, overlapsIn, ih]

/-- Tokens and characters give the same block where no markers overlap before its end. And only
there: with an overlap, the text up to some place can be continued by closing braces so that the
two blocks differ. -/
theorem blockOfTokens?_eq_blockOfChars?_iff (text : List Char) (h : text.head? = some '\x7b') :
    (hasOverlap text = false → blockOfTokens? text = blockOfChars? text) ∧
    (hasOverlap text = false ↔
      ∀ u n, u <+: text → blockOfTokens? (u ++ List.replicate n '\x7d') =
        blockOfChars? (u ++ List.replicate n '\x7d')) := by
  obtain ⟨rest, rfl⟩ := List.head?_eq_some_iff.mp h
  have hsettled : ∀ s, (CharContext.code []).Settled s false :=
    fun s => CharContext.settled_code_nil s false
  have hequal : ∀ s, CharTracker.overlapsIn ⟨.code [], 1⟩ s = false →
      blockOfTokens? ('\x7b' :: s) = blockOfChars? ('\x7b' :: s) := by
    intro s hs
    have heq : BlockTracker.blockText? ⟨.code, 1, true, false⟩ s =
        CharTracker.block? ⟨.code [], 1⟩ s := block?_eq_of_not_overlapsIn s (hsettled s) hs
    rw [blockOfTokens?_openBrace, blockOfChars?, heq]
  refine ⟨hequal rest, ?_, ?_⟩
  · intro hfree u n hu
    cases u with
    | nil =>
      rw [List.nil_append, blockOfTokens?_closers]
      cases n <;> rfl
    | cons c u =>
      obtain ⟨rfl, v, rfl⟩ := List.cons_prefix_cons.mp hu
      -- an overlap before the closing braces would be one in the text itself
      have hu' : CharTracker.overlapsIn ⟨.code [], 1⟩ u = false := by
        by_contra hoverlaps
        have hrest := CharTracker.overlapsIn_append_of_overlapsIn
          (Bool.not_eq_false _ ▸ hoverlaps) v
        simp [hasOverlap, hrest] at hfree
      rw [List.cons_append]
      refine hequal _ ?_
      rw [CharTracker.overlapsIn_append_closers, hu']
  · intro hall
    by_contra hoverlaps
    rw [Bool.not_eq_false] at hoverlaps
    obtain ⟨u, n, hu, -, hne⟩ := exists_block?_ne_of_overlapsIn rest (hsettled rest) hoverlaps
    have heq := hall ('\x7b' :: u) n (List.cons_prefix_cons.mpr ⟨rfl, hu⟩)
    rw [List.cons_append, blockOfTokens?_openBrace, blockOfChars?] at heq
    exact hne (Option.map_injective List.cons_injective heq)

/-- Slashes in pairs before the end of a comment, a stray end marker, an escaped quote and a brace
in a literal. -/
def pairedMarkers : String := "\x7b/*//*/*/\x22\\\x22\x7d\x22\x7d\x7d"

/-- The markers do not overlap, and there is one block. -/
theorem blockOfTokens?_eq_blockOfChars?_of_pairs :
    let text := pairedMarkers.toList
    text.head? = some '\x7b' ∧ hasOverlap text = false ∧
      blockOfTokens? text = some (text.take 15) ∧ blockOfTokens? text = blockOfChars? text := by
  intro text
  have hopen : text.head? = some '\x7b' := by decide
  have hfree : hasOverlap text = false := by decide
  have hblock : blockOfTokens? text = some (text.take 15) := by decide
  exact ⟨hopen, hfree, hblock, (blockOfTokens?_eq_blockOfChars?_iff text hopen).1 hfree⟩

/-- A block with a comment after a star, and a brace in that comment. -/
def starBeforeComment : String := "\x7b*//\x7d\n\x7d"

/-- A block with a comment that ends after a slash. -/
def slashBeforeEnd : String := "\x7b/*/*/\x7d"

/-- A comment after a star goes unnoticed by tokens, and so does the end of a comment after a
slash. -/
theorem blockOfTokens?_ne_blockOfChars? :
    ¬ (∀ text : List Char, text.head? = some '\x7b' → blockOfTokens? text = blockOfChars? text) ∧
      blockOfTokens? starBeforeComment.toList = some "\x7b*//\x7d".toList ∧
      blockOfChars? starBeforeComment.toList = some starBeforeComment.toList ∧
      blockOfTokens? slashBeforeEnd.toList = none ∧
      blockOfChars? slashBeforeEnd.toList = some slashBeforeEnd.toList := by
  have htokens : blockOfTokens? slashBeforeEnd.toList = none := by decide
  have hchars : blockOfChars? slashBeforeEnd.toList = some slashBeforeEnd.toList := by
    decide
  refine ⟨fun hall => ?_, by decide, by decide, htokens, hchars⟩
  have hends := hall slashBeforeEnd.toList (by decide)
  rw [htokens, hchars] at hends
  cases hends

end GrammarLayers
