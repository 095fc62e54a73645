import GrammarLayers.Fragment.Block
import GrammarLayers.Proofs.Fragment.Lexeme
import Mathlib.Data.List.Infix

/-!
# The grammar of brace blocks

A block is an opening brace, items and a closing brace. An item is a block, a literal or comment
with everything in it, or any other single token. A tracker that is fed the tokens of a text
which starts with an opening brace says that the block has closed at the end of the one prefix
of the tokens that is a block of this grammar, and never if no prefix is one.

## Main definitions

* `BlockTracker.block?` — the tokens up to the one that first closes the block
* `BlockTracker.blockText?` — the text of these tokens, at the start of a text
* `BlockTracker.ClosesFirstAt` — at which token the tracker first says that the block has closed
* `UpTo` — tokens up to and including the first that ends something
* `IsPiece`, `IsItems`, `IsBlock` — the grammar

## Main results

* `block?_eq_some_iff` — the tracker delimits exactly the prefix that is a block
* `closesFirstAt_iff` — the same, said of what the tracker answers after each token
* `feedAll_depth_le` — braces that are open were opened by tokens
* `closes_first_at_block_end` — all of it, for the tokens of a text
-/

namespace GrammarLayers

namespace BlockTracker

/-- The tokens up to and including the first one at which the tracked block has closed; none if
it never does. -/
def block? (t : BlockTracker) : List Token → Option (List Token)
  | [] => none
  | token :: rest =>
    if (t.feed token).isClosed then some [token]
    else (block? (t.feed token) rest).map (token :: ·)

/-- Token number `i` is the first one after which the tracker says that the block has closed. -/
def ClosesFirstAt (t : BlockTracker) (tokens : List Token) (i : Nat) : Prop :=
  (t.trace tokens)[i]? = some true ∧ ∀ j < i, (t.trace tokens)[j]? = some false

/-- A tracker in the code of a block, with this many open braces. -/
def inCode (depth : Nat) : BlockTracker := ⟨.code, depth, true, false⟩

end BlockTracker

namespace Context

/-- What a token opens when it stands in code. -/
def ofOpening? : Token.Kind → Option Context
  | .doubleQuote => some .string
  | .singleQuote => some .character
  | .lineComment => some .lineComment
  | .blockCommentStart => some .blockComment
  | _ => none

/-- Whether a token that stands right after `before` is the last one of a literal or comment: the
same quote again, unless the token before it ends in an escape; a newline; the end marker. -/
def Ends (before t : Token) : Context → Prop
  | .code => False
  | .string => t.kind = .doubleQuote ∧ ¬ escapesNext before.text
  | .character => t.kind = .singleQuote ∧ ¬ escapesNext before.text
  | .lineComment => t.kind = .newline
  | .blockComment => t.kind = .blockCommentEnd

end Context

/-- The tokens that come after `before`, up to and including the first one that ends something.
Whether a token does may depend on the one before it. -/
inductive UpTo (ends : Token → Token → Prop) : Token → List Token → Prop
  | last {before t : Token} : ends before t → UpTo ends before [t]
  | skip {before t : Token} {rest : List Token} :
    ¬ ends before t → UpTo ends t rest → UpTo ends before (t :: rest)

/-- An item of a block that is not itself a block. -/
inductive IsPiece : List Token → Prop
  /-- A literal or comment: what opens it, and everything up to its end. -/
  | enclosed {context : Context} {opening : Token} {rest : List Token} :
    Context.ofOpening? opening.kind = some context →
      UpTo (fun before t => context.Ends before t) opening rest → IsPiece (opening :: rest)
  /-- Any other token but a brace. -/
  | single {t : Token} :
    Context.ofOpening? t.kind = none → t.kind ≠ .openBrace → t.kind ≠ .closeBrace → IsPiece [t]

/-- The items between the braces of a block. -/
inductive IsItems : List Token → Prop
  | nil : IsItems []
  | piece {piece rest : List Token} : IsPiece piece → IsItems rest → IsItems (piece ++ rest)
  | block {opening closing : Token} {inner rest : List Token} :
    opening.kind = .openBrace → IsItems inner → closing.kind = .closeBrace → IsItems rest →
      IsItems (opening :: (inner ++ closing :: rest))

/-- A block: an opening brace, items, and the closing brace. -/
def IsBlock (tokens : List Token) : Prop :=
  ∃ opening inner closing, opening.kind = .openBrace ∧ IsItems inner ∧
    closing.kind = .closeBrace ∧ tokens = opening :: (inner ++ [closing])

/-! ### What a token does to a tracker -/

theorem Context.next_code (kind : Token.Kind) (escaped : Bool) :
    Context.code.next kind escaped = (Context.ofOpening? kind).getD .code := by
  cases kind <;> rfl

theorem Context.ofOpening?_ne_code {kind : Token.Kind} {context : Context}
    (h : Context.ofOpening? kind = some context) : context ≠ .code := by
  rintro rfl
  cases kind <;> simp [Context.ofOpening?] at h

theorem Context.next_of_ends {context : Context} {before t : Token} (h : context.Ends before t) :
    context.next t.kind (escapesNext before.text) = .code := by
  cases context <;> simp_all [Context.Ends, Context.next]

theorem Context.next_of_not_ends {context : Context} {before t : Token} (hcode : context ≠ .code)
    (h : ¬ context.Ends before t) :
    context.next t.kind (escapesNext before.text) = context := by
  cases context with
  | code => exact absurd rfl hcode
  | string | character | lineComment | blockComment => simp only [Context.next]; exact if_neg h

namespace BlockTracker

/-- A token that is no brace in code moves the context on and leaves the braces. -/
theorem feed_of_not_brace {context : Context} {t : Token}
    (h : context = .code → t.kind ≠ .openBrace ∧ t.kind ≠ .closeBrace) (depth : Nat)
    (opened escaping : Bool) :
    feed ⟨context, depth, opened, escaping⟩ t =
      ⟨context.next t.kind escaping, depth, opened, escapesNext t.text⟩ := by
  unfold feed
  split
  · next hkind hcode => exact absurd hkind (h hcode).1
  · next hkind hcode => exact absurd hkind (h hcode).2
  · rfl

theorem feed_openBrace {depth : Nat} {opened escaping : Bool} {t : Token}
    (h : t.kind = .openBrace) :
    feed ⟨.code, depth, opened, escaping⟩ t = ⟨.code, depth + 1, true, escapesNext t.text⟩ := by
  simp [feed, h, Context.next]

theorem feed_closeBrace {depth : Nat} {opened escaping : Bool} {t : Token}
    (h : t.kind = .closeBrace) :
    feed ⟨.code, depth, opened, escaping⟩ t = ⟨.code, depth - 1, opened, escapesNext t.text⟩ := by
  simp [feed, h, Context.next]

theorem isClosed_iff {context : Context} {depth : Nat} {escaping : Bool} :
    isClosed ⟨context, depth, true, escaping⟩ ↔ depth = 0 := by
  simp [isClosed]

/-- In code it does not matter whether the last token ends in an escape. -/
theorem block?_code (depth : Nat) (escaping : Bool) (tokens : List Token) :
    block? ⟨.code, depth, true, escaping⟩ tokens = (inCode depth).block? tokens := by
  cases tokens with
  | nil => rfl
  | cons t rest =>
    have hfeed : feed ⟨.code, depth, true, escaping⟩ t = (inCode depth).feed t := by
      unfold feed inCode
      simp only [Context.next_code]
    simp only [block?, hfeed]

/-- As long as braces are open, the block goes on. -/
theorem block?_cons_of_feed {t : BlockTracker} {token : Token} {context : Context} {depth : Nat}
    {escaping : Bool} (h : t.feed token = ⟨context, depth + 1, true, escaping⟩)
    (rest : List Token) :
    t.block? (token :: rest) =
      (block? ⟨context, depth + 1, true, escaping⟩ rest).map (token :: ·) := by
  rw [block?, h, if_neg (by simp [isClosed_iff])]

/-- The block ends with the token that closes its last brace. -/
theorem block?_cons_of_closed {t : BlockTracker} {token : Token} {context : Context}
    {escaping : Bool} (h : t.feed token = ⟨context, 0, true, escaping⟩) (rest : List Token) :
    t.block? (token :: rest) = some [token] := by
  rw [block?, h, if_pos (by simp [isClosed_iff])]

theorem block?_isPrefix {t : BlockTracker} {tokens block : List Token}
    (h : t.block? tokens = some block) : block <+: tokens := by
  induction tokens generalizing t block with
  | nil => simp [block?] at h
  | cons token rest ih =>
    rw [block?] at h
    split at h
    · obtain rfl := Option.some.inj h
      exact ⟨rest, rfl⟩
    · obtain ⟨block', hblock, rfl⟩ := Option.map_eq_some_iff.mp h
      exact List.cons_prefix_cons.mpr ⟨rfl, ih hblock⟩

/-! ### The text of a block -/

/-- The text of the block that the tracker delimits at the start of a text. -/
def blockText? (t : BlockTracker) (text : List Char) : Option (List Char) :=
  (t.block? (tokensOf text)).map textOf

theorem block?_map_shift (t : BlockTracker) (n : Nat) (tokens : List Token) :
    t.block? (tokens.map (Token.shift n)) = (t.block? tokens).map (·.map (Token.shift n)) := by
  induction tokens generalizing t with
  | nil => rfl
  | cons token rest ih =>
    have hfeed : t.feed (token.shift n) = t.feed token := rfl
    rw [List.map_cons, block?, block?, hfeed, ih]
    split <;> simp [Function.comp_def]

/-- The text of a block does not depend on where it stands. -/
theorem map_textOf_block?_scan (t : BlockTracker) (offset : Nat) (text : List Char) :
    (t.block? (Token.scan offset text)).map textOf = t.blockText? text := by
  have hscan : Token.scan offset text = (tokensOf text).map (Token.shift offset) :=
    Token.scan_add offset 0 text
  rw [hscan, block?_map_shift, Option.map_map, blockText?]
  congr 1
  funext block
  exact Token.textOf_map_shift offset block

theorem blockText?_lexeme {kind : Token.Kind} {w rest : List Char} (h : Lexeme kind w rest)
    (t : BlockTracker) :
    t.blockText? (w ++ rest) =
      if (t.feed ⟨kind, w, 0⟩).isClosed then some w
      else ((t.feed ⟨kind, w, 0⟩).blockText? rest).map (w ++ ·) := by
  rw [blockText?, tokensOf, Token.scan_lexeme h, block?,
    ← map_textOf_block?_scan _ (0 + byteSize w)]
  split <;> simp [Function.comp_def]

end BlockTracker

/-! ### From the grammar to the tracker

Items leave the tracker where it was, in code and with the same braces open. -/

theorem UpTo.block?_append {context : Context} {before : Token} {tokens : List Token}
    (h : UpTo (fun before t => context.Ends before t) before tokens) (hcode : context ≠ .code)
    (depth : Nat) (rest : List Token) :
    BlockTracker.block? ⟨context, depth + 1, true, escapesNext before.text⟩ (tokens ++ rest) =
      ((BlockTracker.inCode (depth + 1)).block? rest).map (tokens ++ ·) := by
  induction h with
  | @last before t hends =>
    have hfeed := BlockTracker.feed_of_not_brace (t := t) (fun h => absurd h hcode) (depth + 1)
      true (escapesNext before.text)
    rw [Context.next_of_ends hends] at hfeed
    rw [List.singleton_append, BlockTracker.block?_cons_of_feed hfeed, BlockTracker.block?_code]
    rfl
  | @skip before t tokens hends _ ih =>
    have hfeed := BlockTracker.feed_of_not_brace (t := t) (fun h => absurd h hcode) (depth + 1)
      true (escapesNext before.text)
    rw [Context.next_of_not_ends hcode hends] at hfeed
    rw [List.cons_append, BlockTracker.block?_cons_of_feed hfeed, ih, Option.map_map]
    rfl

theorem IsPiece.block?_append {piece : List Token} (h : IsPiece piece) (depth : Nat)
    (rest : List Token) :
    (BlockTracker.inCode (depth + 1)).block? (piece ++ rest) =
      ((BlockTracker.inCode (depth + 1)).block? rest).map (piece ++ ·) := by
  cases h with
  | @enclosed context opening body hopens hbody =>
    -- what opens a context is no brace, and so the depth stays
    have hfeed : (BlockTracker.inCode (depth + 1)).feed opening =
        ⟨context, depth + 1, true, escapesNext opening.text⟩ := by
      rw [BlockTracker.inCode, BlockTracker.feed_of_not_brace, Context.next_code, hopens]
      · rfl
      · rintro -
        constructor <;> intro hbrace <;> simp [hbrace, Context.ofOpening?] at hopens
    rw [List.cons_append, BlockTracker.block?_cons_of_feed hfeed,
      hbody.block?_append (Context.ofOpening?_ne_code hopens), Option.map_map]
    rfl
  | @single t hopens hopen hclose =>
    have hfeed : (BlockTracker.inCode (depth + 1)).feed t =
        ⟨.code, depth + 1, true, escapesNext t.text⟩ := by
      rw [BlockTracker.inCode, BlockTracker.feed_of_not_brace fun _ => ⟨hopen, hclose⟩,
        Context.next_code, hopens]
      rfl
    rw [List.singleton_append, BlockTracker.block?_cons_of_feed hfeed, BlockTracker.block?_code]
    rfl

theorem IsItems.block?_append {items : List Token} (h : IsItems items) (depth : Nat)
    (rest : List Token) :
    (BlockTracker.inCode (depth + 1)).block? (items ++ rest) =
      ((BlockTracker.inCode (depth + 1)).block? rest).map (items ++ ·) := by
  induction h generalizing depth rest with
  | nil => simp
  | piece hpiece _ ih =>
    rw [List.append_assoc, hpiece.block?_append, ih, Option.map_map]
    simp [Function.comp_def]
  | @block opening closing inner tail hopen _ hclose _ ihinner ihtail =>
    -- the inner items are read one level deeper
    have hfeed : (BlockTracker.inCode (depth + 1)).feed opening =
        ⟨.code, depth + 2, true, escapesNext opening.text⟩ := BlockTracker.feed_openBrace hopen
    have hfeed' : (BlockTracker.inCode (depth + 2)).feed closing =
        ⟨.code, depth + 1, true, escapesNext closing.text⟩ := BlockTracker.feed_closeBrace hclose
    rw [List.cons_append, BlockTracker.block?_cons_of_feed hfeed, BlockTracker.block?_code,
      List.append_assoc, ihinner, List.cons_append, BlockTracker.block?_cons_of_feed hfeed',
      BlockTracker.block?_code, ihtail]
    simp [Function.comp_def]

theorem IsBlock.block?_append {block : List Token} (h : IsBlock block) (rest : List Token) :
    ({} : BlockTracker).block? (block ++ rest) = some block := by
  obtain ⟨opening, inner, closing, hopen, hinner, hclose, rfl⟩ := h
  have hfeed : ({} : BlockTracker).feed opening =
      ⟨.code, 1, true, escapesNext opening.text⟩ := BlockTracker.feed_openBrace hopen
  have hfeed' : (BlockTracker.inCode 1).feed closing =
      ⟨.code, 0, true, escapesNext closing.text⟩ := BlockTracker.feed_closeBrace hclose
  rw [List.cons_append, BlockTracker.block?_cons_of_feed hfeed, BlockTracker.block?_code,
    List.append_assoc, hinner.block?_append 0, List.singleton_append,
    BlockTracker.block?_cons_of_closed hfeed']
  rfl

/-! ### From the tracker to the grammar

With several braces open, the tokens up to the end of the block are as many times items and a
closing brace. -/

/-- Items and a closing brace, as many times as braces are open. -/
inductive ClosesLevels : Nat → List Token → Prop
  | nil : ClosesLevels 0 []
  | level {depth : Nat} {items rest : List Token} {closing : Token} :
    IsItems items → closing.kind = .closeBrace → ClosesLevels depth rest →
      ClosesLevels (depth + 1) (items ++ closing :: rest)

theorem IsPiece.closesLevels_append {piece tokens : List Token} {depth : Nat} (h : IsPiece piece)
    (htokens : ClosesLevels (depth + 1) tokens) : ClosesLevels (depth + 1) (piece ++ tokens) := by
  cases htokens with
  | level hitems hclose hrest =>
    rw [← List.append_assoc]
    exact .level (.piece h hitems) hclose hrest

theorem ClosesLevels.cons_openBrace {opening : Token} {tokens : List Token} {depth : Nat}
    (hopen : opening.kind = .openBrace) (h : ClosesLevels (depth + 2) tokens) :
    ClosesLevels (depth + 1) (opening :: tokens) := by
  cases h with
  | level hinner hclose hrest =>
    cases hrest with
    | @level _ items rest closing hitems hclose' hrest' =>
      have := ClosesLevels.level (IsItems.block hopen hinner hclose hitems) hclose' hrest'
      simpa using this

/-- What a tracker delimits inside a literal or comment is the rest of that, and then what it
delimits in code. -/
theorem closesLevels_of_block? (tokens : List Token) :
    (∀ depth block, (BlockTracker.inCode (depth + 1)).block? tokens = some block →
      ClosesLevels (depth + 1) block) ∧
    ∀ context before depth block, context ≠ .code →
      BlockTracker.block? ⟨context, depth + 1, true, escapesNext before.text⟩ tokens = some block →
      ∃ enclosed tail, block = enclosed ++ tail ∧
        UpTo (fun before t => context.Ends before t) before enclosed ∧
        ClosesLevels (depth + 1) tail := by
  induction tokens with
  | nil => simp [BlockTracker.block?]
  | cons t rest ih =>
    obtain ⟨ihcode, ihcontext⟩ := ih
    constructor
    · intro depth block h
      by_cases hopen : t.kind = .openBrace
      -- one more level, whose items the rest starts with
      · rw [BlockTracker.inCode,
          BlockTracker.block?_cons_of_feed (BlockTracker.feed_openBrace hopen),
          BlockTracker.block?_code] at h
        obtain ⟨tail, htail, rfl⟩ := Option.map_eq_some_iff.mp h
        exact .cons_openBrace hopen (ihcode _ _ htail)
      by_cases hclose : t.kind = .closeBrace
      -- the end of a level with no items left
      · have hfeed : (BlockTracker.inCode (depth + 1)).feed t =
            ⟨.code, depth, true, escapesNext t.text⟩ := BlockTracker.feed_closeBrace hclose
        cases depth with
        | zero =>
          rw [BlockTracker.block?_cons_of_closed hfeed, Option.some.injEq] at h
          exact h ▸ .level .nil hclose .nil
        | succ depth =>
          rw [BlockTracker.block?_cons_of_feed hfeed, BlockTracker.block?_code] at h
          obtain ⟨tail, htail, rfl⟩ := Option.map_eq_some_iff.mp h
          exact .level .nil hclose (ihcode _ _ htail)
      have hfeed : (BlockTracker.inCode (depth + 1)).feed t =
          ⟨(Context.ofOpening? t.kind).getD .code, depth + 1, true, escapesNext t.text⟩ := by
        rw [BlockTracker.inCode, BlockTracker.feed_of_not_brace fun _ => ⟨hopen, hclose⟩,
          Context.next_code]
      rw [BlockTracker.block?_cons_of_feed hfeed] at h
      obtain ⟨tail, htail, rfl⟩ := Option.map_eq_some_iff.mp h
      -- any other token starts a piece, which the items of the level begin with
      cases hopens : Context.ofOpening? t.kind with
      | none =>
        rw [hopens, Option.getD_none, BlockTracker.block?_code] at htail
        exact (IsPiece.single hopens hopen hclose).closesLevels_append (ihcode _ _ htail)
      | some context =>
        rw [hopens, Option.getD_some] at htail
        obtain ⟨enclosed, tail, rfl, hends, hlevels⟩ :=
          ihcontext context t depth _ (Context.ofOpening?_ne_code hopens) htail
        exact (IsPiece.enclosed hopens hends).closesLevels_append hlevels
    · intro context before depth block hcode h
      have hfeed := BlockTracker.feed_of_not_brace (t := t) (fun h => absurd h hcode) (depth + 1)
        true (escapesNext before.text)
      rw [BlockTracker.block?_cons_of_feed hfeed] at h
      obtain ⟨tail, htail, rfl⟩ := Option.map_eq_some_iff.mp h
      -- whether the token ends what is open depends on the one before it
      by_cases hends : context.Ends before t
      · rw [Context.next_of_ends hends, BlockTracker.block?_code] at htail
        exact ⟨[t], tail, rfl, .last hends, ihcode _ _ htail⟩
      · rw [Context.next_of_not_ends hcode hends] at htail
        obtain ⟨enclosed, tail, rfl, hupto, hlevels⟩ := ihcontext context t depth _ hcode htail
        exact ⟨t :: enclosed, tail, rfl, .skip hends hupto, hlevels⟩

theorem isBlock_of_block? {opening : Token} {rest block : List Token}
    (hopen : opening.kind = .openBrace)
    (h : ({} : BlockTracker).block? (opening :: rest) = some block) : IsBlock block := by
  rw [BlockTracker.block?_cons_of_feed (BlockTracker.feed_openBrace hopen),
    BlockTracker.block?_code] at h
  obtain ⟨tail, htail, rfl⟩ := Option.map_eq_some_iff.mp h
  -- one level is open, and nothing is left after it
  cases (closesLevels_of_block? rest).1 0 tail htail with
  | level hitems hclose hrest =>
    cases hrest
    exact ⟨opening, _, _, hopen, hitems, hclose, rfl⟩

/-- Of tokens that start with an opening brace, the tracker delimits the prefix that is a
block. -/
theorem block?_eq_some_iff {tokens block : List Token}
    (hopen : tokens.head?.map Token.kind = some .openBrace) :
    ({} : BlockTracker).block? tokens = some block ↔ block <+: tokens ∧ IsBlock block := by
  obtain ⟨opening, hhead, hkind⟩ := Option.map_eq_some_iff.mp hopen
  obtain ⟨rest, rfl⟩ := List.head?_eq_some_iff.mp hhead
  constructor
  · intro h
    exact ⟨BlockTracker.block?_isPrefix h, isBlock_of_block? hkind h⟩
  · rintro ⟨⟨tail, htail⟩, hblock⟩
    rw [← htail]
    exact hblock.block?_append tail

/-! ### What the tracker answers after each token -/

namespace BlockTracker

instance (t : BlockTracker) (tokens : List Token) (i : Nat) :
    Decidable (t.ClosesFirstAt tokens i) :=
  inferInstanceAs (Decidable (_ ∧ _))

theorem block?_ne_nil {t : BlockTracker} {tokens : List Token} : t.block? tokens ≠ some [] := by
  cases tokens with
  | nil => simp [block?]
  | cons token rest =>
    rw [block?]
    split <;> simp

theorem closesFirstAt_cons_succ {t : BlockTracker} {token : Token} {rest : List Token} {i : Nat} :
    t.ClosesFirstAt (token :: rest) (i + 1) ↔
      ¬ (t.feed token).isClosed ∧ (t.feed token).ClosesFirstAt rest i := by
  simp only [ClosesFirstAt, trace, List.getElem?_cons_succ, Nat.forall_lt_succ_left,
    List.getElem?_cons_zero, Option.some.injEq, Bool.not_eq_true]
  exact and_left_comm

theorem closesFirstAt_iff {t : BlockTracker} {tokens : List Token} {i : Nat} :
    t.ClosesFirstAt tokens i ↔
      i < tokens.length ∧ t.block? tokens = some (tokens.take (i + 1)) := by
  induction tokens generalizing t i with
  | nil => simp [ClosesFirstAt, trace]
  | cons token rest ih =>
    cases i with
    | zero =>
      by_cases hclosed : (t.feed token).isClosed <;>
        simp [ClosesFirstAt, trace, block?, hclosed, block?_ne_nil]
    | succ i =>
      rw [closesFirstAt_cons_succ, ih, block?]
      by_cases hclosed : (t.feed token).isClosed
      · -- a block of one token is no prefix of two or more
        simp only [hclosed, not_true_eq_false, false_and, false_iff, if_pos, not_and]
        intro hi
        cases rest with
        | nil => simp at hi
        | cons => simp
      · simp [hclosed]

/-- Only tokens that are opening braces open braces. -/
theorem feedAll_depth_le (t : BlockTracker) (tokens : List Token) :
    (t.feedAll tokens).depth ≤ t.depth + tokens.countP (·.kind = .openBrace) := by
  induction tokens generalizing t with
  | nil => simp [feedAll]
  | cons token rest ih =>
    have hfeed : (t.feed token).depth ≤
        t.depth + if token.kind = .openBrace then 1 else 0 := by
      unfold feed
      split <;> simp_all
    have := ih (t.feed token)
    rw [List.countP_cons]
    simp only [feedAll, List.foldl_cons, decide_eq_true_eq] at this ⊢
    omega

end BlockTracker

/-- Of the tokens of a text that starts with an opening brace, the tracker says for the first
time that the block has closed exactly where a block of the grammar ends. There is at most one
such place, and none if the tracker never says so. If the opening braces of the text can be
counted in 32 bits, so can the open ones at any time. -/
theorem closes_first_at_block_end (text : List Char)
    (hopen : (tokensOf text).head?.map Token.kind = some .openBrace)
    (hcount : (tokensOf text).countP (·.kind = .openBrace) < UInt32.size) :
    (∀ i < (tokensOf text).length,
      ({} : BlockTracker).ClosesFirstAt (tokensOf text) i ↔
        IsBlock ((tokensOf text).take (i + 1))) ∧
    (∀ a b, a <+: tokensOf text → b <+: tokensOf text → IsBlock a → IsBlock b → a = b) ∧
    ((∀ closed ∈ ({} : BlockTracker).trace (tokensOf text), closed = false) →
      ∀ a, a <+: tokensOf text → ¬ IsBlock a) ∧
    ∀ i, (({} : BlockTracker).feedAll ((tokensOf text).take i)).depth < UInt32.size := by
  have hblock : ∀ a, a <+: tokensOf text → IsBlock a →
      ({} : BlockTracker).block? (tokensOf text) = some a :=
    fun a hle ha => (block?_eq_some_iff hopen).mpr ⟨hle, ha⟩
  refine ⟨?_, ?_, ?_, ?_⟩
  · intro i hi
    rw [BlockTracker.closesFirstAt_iff, block?_eq_some_iff hopen]
    simp [hi, List.take_prefix]
  · -- the tracker delimits one block only
    intro a b ha hb hblocka hblockb
    exact Option.some.inj ((hblock a ha hblocka).symm.trans (hblock b hb hblockb))
  · -- the block would end at its last token, and the tracker would say so there
    intro hnever a ha hblocka
    have hlength : 0 < a.length := List.length_pos_iff.mpr fun hnil =>
      BlockTracker.block?_ne_nil (hnil ▸ hblock a ha hblocka)
    have hle := ha.length_le
    have htake : (tokensOf text).take (a.length - 1 + 1) = a := by
      rw [Nat.sub_add_cancel hlength]
      exact (List.prefix_iff_eq_take.mp ha).symm
    have hcloses : ({} : BlockTracker).ClosesFirstAt (tokensOf text) (a.length - 1) :=
      BlockTracker.closesFirstAt_iff.mpr ⟨by omega, htake.symm ▸ hblock a ha hblocka⟩
    exact Bool.noConfusion (hnever true (List.mem_of_getElem? hcloses.1))
  · intro i
    -- each level is due to an opening brace
    have hdepth := BlockTracker.feedAll_depth_le {} ((tokensOf text).take i)
    have hsub := (List.take_sublist i (tokensOf text)).countP_le (p := (·.kind = .openBrace))
    simp only [Nat.zero_add] at hdepth
    omega

/-- A block with a quoted brace, a brace in a comment and a nested block, and one brace more. -/
def quotedBraces : String := "\x7b\x22\\\x22\x7d\x22\x7b//\x7d\n\x7d\x7d\x7d"

/-- A quoted brace and one in a comment do not count, one nested in the block does, and the
tokens after the block are passed over. -/
theorem closes_first_at_block_end_quoted :
    let text := quotedBraces.toList
    (tokensOf text).head?.map Token.kind = some .openBrace ∧
      (tokensOf text).countP (·.kind = .openBrace) < UInt32.size ∧
      ({} : BlockTracker).ClosesFirstAt (tokensOf text) 11 ∧
      IsBlock ((tokensOf text).take 12) := by
  intro text
  have hopen : (tokensOf text).head?.map Token.kind = some .openBrace := by decide
  have hcount : (tokensOf text).countP (·.kind = .openBrace) < UInt32.size := by decide
  have hcloses : ({} : BlockTracker).ClosesFirstAt (tokensOf text) 11 := by decide
  have hlength : 11 < (tokensOf text).length := by decide
  exact ⟨hopen, hcount, hcloses,
    ((closes_first_at_block_end text hopen hcount).1 11 hlength).mp hcloses⟩

end GrammarLayers
