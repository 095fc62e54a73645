import GrammarLayers.Fragment.Production
import GrammarLayers.Proofs.Fragment.BlockGrammar
import GrammarLayers.Proofs.Fragment.SignatureForm

/-!
# Where a cursor stands

A cursor that stands between two parts of a text has the tokens of the second part before it.
This stays so when it takes a token, when it passes over blanks, when it takes a block, and when
it moves up to a place inside of a token, because a run of ordinary text may be split anywhere
and no marker is split.

## Main definitions

* `DelimitsBlock` — a block, with what follows it
* `Cursor.StandsAt` — the cursor stands between two parts of a text

## Main results

* `takeTo_eq` — moving up to a place takes the text before it
* `skipBlanks_eq` — passing over blanks
* `takeBlock?_eq_some` — the text that is taken is the block that stands there
* `readBlock_eq_ok` — blanks and a block
-/

namespace GrammarLayers

/-- The text is one block, and the one that a tracker delimits in front of what follows. -/
def DelimitsBlock (block after : List Char) : Prop :=
  IsBlock (tokensOf block) ∧ ({} : BlockTracker).blockText? (block ++ after) = some block

theorem Lexeme.isBlanks {kind : Token.Kind} {w rest : List Char} (h : Lexeme kind w rest)
    (hblank : kind.isBlank) : Signature.IsBlanks w := by
  cases h with
  | marker hpair =>
    have hcd := Token.Kind.ofPair?_eq_some_iff.mp hpair
    rcases hcd with ⟨-, -, rfl⟩ | ⟨-, -, rfl⟩ | ⟨-, -, rfl⟩ <;> exact absurd hblank (by decide)
  | delimiter hd =>
    intro e he
    obtain rfl := List.mem_singleton.mp he
    unfold Token.Kind.ofChar? at hd
    split at hd <;> cases hd <;> first | rfl | exact absurd hblank (by decide)
  | last | more => exact absurd hblank (by decide)

theorem Lexeme.startsOutside {kind : Token.Kind} {w rest : List Char} (h : Lexeme kind w rest)
    (hblank : ¬ kind.isBlank) : StartsOutside isSpaceChar (w ++ rest) := by
  cases h with
  | marker hpair =>
    have hcd := Token.Kind.ofPair?_eq_some_iff.mp hpair
    rcases hcd with ⟨rfl, -, -⟩ | ⟨rfl, -, -⟩ | ⟨rfl, -, -⟩ <;> exact startsOutside_cons_iff.mpr rfl
  | delimiter hd =>
    refine startsOutside_cons_iff.mpr ?_
    unfold Token.Kind.ofChar? at hd
    split at hd <;> cases hd <;> first | rfl | exact absurd rfl hblank
  | last hc | more hc =>
    -- every blank is a delimiter, and so no ordinary text
    refine startsOutside_cons_iff.mpr (Bool.eq_false_iff.mpr fun hspace => ?_)
    have hnone := (startsOrdinary_cons_iff.mp hc).1
    simp only [isSpaceChar, Bool.or_eq_true, beq_iff_eq] at hspace
    rcases hspace with ((((rfl | rfl) | rfl) | rfl) | rfl) | rfl <;>
      simp [Token.Kind.ofChar?] at hnone

namespace Cursor

/-- The cursor stands between two parts of a text: what it has not taken yet are the tokens of
the second one. -/
structure StandsAt (c : Cursor) (before rest : List Char) : Prop where
  offset_eq : c.offset = byteSize before
  unread_eq : c.unread = Token.scan (byteSize before) rest

/-- A cursor between two parts of a text that has not looked ahead. -/
def between (before rest : List Char) : Cursor :=
  ⟨none, Token.scan (byteSize before) rest, byteSize before⟩

variable {c c' : Cursor} {before rest w a b : List Char} {kind : Token.Kind} {t : Token}
  {tokens : List Token} {p : Token → Bool}

theorem standsAt_between (before rest : List Char) : (between before rest).StandsAt before rest :=
  ⟨rfl, rfl⟩

theorem standsAt_ofText (text : List Char) : (ofText text).StandsAt [] text := ⟨rfl, rfl⟩

/-! ### Taking one token -/

theorem next?_of_unread_eq_nil (h : c.unread = []) : c.next? = none := by
  obtain ⟨_ | token, _ | ⟨next, upcoming⟩, offset⟩ := c
  · rfl
  all_goals simp [unread] at h

theorem next?_of_unread_eq_cons (h : c.unread = t :: tokens) :
    c.next? = some (t, ⟨none, tokens, t.stop⟩) := by
  obtain ⟨_ | token, _ | ⟨next, upcoming⟩, offset⟩ := c
  · simp [unread] at h
  all_goals
    obtain ⟨rfl, rfl⟩ := List.cons.inj h
    rfl

theorem peek_fst (c : Cursor) : c.peek.1 = c.unread.head? := by
  obtain ⟨_ | token, _ | ⟨next, upcoming⟩, offset⟩ := c <;> rfl

theorem peek_snd_offset (c : Cursor) : c.peek.2.offset = c.offset := by
  obtain ⟨_ | token, _ | ⟨next, upcoming⟩, offset⟩ := c <;> rfl

theorem StandsAt.peek (h : c.StandsAt before rest) : c.peek.2.StandsAt before rest :=
  ⟨by rw [peek_snd_offset, h.offset_eq], by rw [unread_peek, h.unread_eq]⟩

theorem nextIf?_of_unread_eq_nil (h : c.unread = []) : c.nextIf? p = none := by
  have hpeek := c.peek_fst
  rw [h, List.head?_nil] at hpeek
  unfold nextIf?
  split
  · next hsome => simp [hsome] at hpeek
  · rfl

theorem nextIf?_of_unread_eq_cons (h : c.unread = t :: tokens) :
    c.nextIf? p = if p t then some (t, ⟨none, tokens, t.stop⟩) else none := by
  have hpeek := c.peek_fst
  rw [h, List.head?_cons] at hpeek
  unfold nextIf?
  split
  · next t' c' hsome =>
    obtain rfl : t' = t := by simpa [hsome] using hpeek
    have hunread : c'.unread = t' :: tokens := by rw [← h, ← unread_peek c, hsome]
    rw [next?_of_unread_eq_cons hunread]
  · next hnone => simp [hnone] at hpeek

theorem StandsAt.unread_eq_cons (h : c.StandsAt before (w ++ rest)) (hlex : Lexeme kind w rest) :
    c.unread = ⟨kind, w, byteSize before⟩ :: Token.scan (byteSize (before ++ w)) rest := by
  rw [h.unread_eq, Token.scan_lexeme hlex, byteSize_append]

/-- The token the text starts with is taken, and the cursor stands after it. -/
theorem StandsAt.next?_eq (h : c.StandsAt before (w ++ rest)) (hlex : Lexeme kind w rest) :
    c.next? = some (⟨kind, w, byteSize before⟩, between (before ++ w) rest) := by
  rw [next?_of_unread_eq_cons (h.unread_eq_cons hlex), Token.stop, ← byteSize_append]
  rfl

theorem StandsAt.nextIf?_eq (h : c.StandsAt before (w ++ rest)) (hlex : Lexeme kind w rest) :
    c.nextIf? p =
      if p ⟨kind, w, byteSize before⟩ then
        some (⟨kind, w, byteSize before⟩, between (before ++ w) rest)
      else none := by
  rw [nextIf?_of_unread_eq_cons (h.unread_eq_cons hlex), Token.stop, ← byteSize_append]
  rfl

/-! ### Moving up to a place -/

theorem takeTo_of_le {target : Nat} (h : target ≤ c.offset) : c.takeTo target = ([], c) := by
  rw [takeTo, if_neg (Nat.not_lt.mpr h)]

theorem takeTo_of_next? {target : Nat} (hlt : c.offset < target) (h : c.next? = some (t, c')) :
    c.takeTo target =
      if target < t.stop then
        ((splitAtByte (target - t.offset) t.text).1,
          ⟨some ⟨t.kind, (splitAtByte (target - t.offset) t.text).2, target⟩, c'.upcoming, target⟩)
      else (t.text ++ (c'.takeTo target).1, (c'.takeTo target).2) := by
  rw [takeTo, if_pos hlt]
  split
  · next hnone => simp [h] at hnone
  · next t' c'' hsome =>
    obtain ⟨rfl, rfl⟩ : t = t' ∧ c' = c'' := by simpa [h] using hsome
    rfl

/-- Moving up to a place that does not split a marker takes the text before that place. -/
theorem StandsAt.takeTo_eq (h : c.StandsAt before (a ++ b))
    (hcut : ∀ x ∈ a.getLast?, ∀ y ∈ b.head?, Token.Kind.ofPair? x y = none) :
    ∃ c', c.takeTo (byteSize (before ++ a)) = (a, c') ∧ c'.StandsAt (before ++ a) b := by
  generalize hs : a ++ b = s at h
  induction s using induction_on_lexemes generalizing c before a with
  | nil =>
    obtain ⟨rfl, rfl⟩ := List.append_eq_nil_iff.mp hs
    rw [List.append_nil]
    exact ⟨c, takeTo_of_le (Nat.le_of_eq h.offset_eq.symm), h⟩
  | lexeme kind w rest hlex ih =>
    by_cases ha : a = []
    · subst ha
      obtain rfl : b = w ++ rest := hs
      rw [List.append_nil]
      exact ⟨c, takeTo_of_le (Nat.le_of_eq h.offset_eq.symm), h⟩
    have hpos := byteSize_pos ha
    have hlt : c.offset < byteSize (before ++ a) := by
      rw [h.offset_eq, byteSize_append]
      omega
    have hnext := h.next?_eq hlex
    -- a token before the place is taken whole
    have hwhole : ∀ e, a = w ++ e → rest = e ++ b →
        ∃ c', c.takeTo (byteSize (before ++ a)) = (a, c') ∧ c'.StandsAt (before ++ a) b := by
      rintro e rfl rfl
      have hcut' : ∀ x ∈ e.getLast?, ∀ y ∈ b.head?, Token.Kind.ofPair? x y = none := fun x hx =>
        hcut x (List.mem_getLast?_append_of_mem_getLast? hx)
      obtain ⟨c', htake, hstands⟩ := ih hcut' rfl (standsAt_between (before ++ w) (e ++ b))
      rw [List.append_assoc] at htake hstands
      refine ⟨c', ?_, hstands⟩
      rw [takeTo_of_next? hlt hnext, if_neg, htake]
      simp only [Token.stop, byteSize_append]
      omega
    rcases List.append_eq_append_iff.mp hs with ⟨e, rfl, rfl⟩ | ⟨e, rfl, rfl⟩
    · by_cases he : e = []
      · subst he
        exact hwhole [] (by simp) rfl
      -- the place is inside of the token, which is then ordinary text
      · obtain ⟨rfl, hlex'⟩ := hlex.of_cut ha he fun x hx y hy =>
          hcut x hx y (by rw [List.head?_append, Option.mem_def.mp hy]; rfl)
        have hsize := byteSize_pos he
        refine ⟨⟨some ⟨.text, e, byteSize (before ++ a)⟩,
          Token.scan (byteSize (before ++ (a ++ e))) rest, byteSize (before ++ a)⟩, ?_, rfl, ?_⟩
        · rw [takeTo_of_next? hlt hnext, if_pos]
          · simp only [byteSize_append, Nat.add_sub_cancel_left, splitAtByte_append, between]
          · simp only [Token.stop, byteSize_append]
            omega
        · rw [Token.scan_lexeme hlex', ← byteSize_append, List.append_assoc]
          rfl
    · exact hwhole e rfl rfl

/-! ### Blanks and blocks -/

theorem skipBlanks_of_nextIf?_eq_none (h : c.nextIf? Token.isBlank = none) :
    c.skipBlanks = ([], c) := by
  rw [skipBlanks]
  split
  · next hsome => simp [h] at hsome
  · rfl

theorem skipBlanks_of_nextIf? (h : c.nextIf? Token.isBlank = some (t, c')) :
    c.skipBlanks = (t.text ++ c'.skipBlanks.1, c'.skipBlanks.2) := by
  conv_lhs => rw [skipBlanks]
  split
  · next t' c'' hsome =>
    obtain ⟨rfl, rfl⟩ : t = t' ∧ c' = c'' := by simpa [h] using hsome
    rfl
  · next hnone => simp [h] at hnone

/-- Passing over blanks, the cursor stops where something else begins. -/
theorem StandsAt.skipBlanks_eq (h : c.StandsAt before rest) :
    ∃ blanks rest' c', rest = blanks ++ rest' ∧ Signature.IsBlanks blanks ∧
      StartsOutside isSpaceChar rest' ∧ c.skipBlanks = (blanks, c') ∧
      c'.StandsAt (before ++ blanks) rest' := by
  induction rest using induction_on_lexemes generalizing c before with
  | nil =>
    refine ⟨[], [], c, rfl, by simp [Signature.IsBlanks], by simp [StartsOutside], ?_,
      by rwa [List.append_nil]⟩
    exact skipBlanks_of_nextIf?_eq_none (nextIf?_of_unread_eq_nil h.unread_eq)
  | lexeme kind w rest hlex ih =>
    have hnext := h.nextIf?_eq (p := Token.isBlank) hlex
    -- a token that is not blank ends the run, since it starts with no blank
    split at hnext
    · next hblank =>
      obtain ⟨blanks, rest', c', rfl, hblanks, hstart, hskip, hstands⟩ :=
        ih (standsAt_between (before ++ w) rest)
      refine ⟨w ++ blanks, rest', c', by rw [List.append_assoc], ?_, hstart, ?_, ?_⟩
      · intro e he
        exact (List.mem_append.mp he).elim (hlex.isBlanks hblank e) (hblanks e)
      · rw [skipBlanks_of_nextIf? hnext, hskip]
      · rwa [← List.append_assoc]
    · next hblank =>
      exact ⟨[], w ++ rest, c, rfl, by simp [Signature.IsBlanks], hlex.startsOutside hblank,
        skipBlanks_of_nextIf?_eq_none hnext, by rwa [List.append_nil]⟩

/-- What is taken up to the end of a block is the text of the block. -/
theorem StandsAt.takeBlock?_eq_some {tracker : BlockTracker} {block : List Char}
    (h : c.StandsAt before rest) (hblock : c.takeBlock? tracker = some (block, c')) :
    ∃ rest', rest = block ++ rest' ∧ tracker.blockText? rest = some block ∧
      c'.StandsAt (before ++ block) rest' := by
  induction rest using induction_on_lexemes generalizing c before tracker block with
  | nil =>
    have hnone := next?_of_unread_eq_nil (c := c) h.unread_eq
    rw [takeBlock?] at hblock
    split at hblock
    · cases hblock
    · next hsome => simp [hnone] at hsome
  | lexeme kind w rest hlex ih =>
    have hnext := h.next?_eq hlex
    rw [takeBlock?] at hblock
    split at hblock
    · cases hblock
    · next t c₁ hsome =>
      rw [hnext, Option.some.injEq, Prod.mk.injEq] at hsome
      obtain ⟨rfl, rfl⟩ := hsome
      rw [BlockTracker.blockText?_lexeme hlex]
      -- where the token stands does not matter to the tracker
      have hfeed : tracker.feed ⟨kind, w, byteSize before⟩ = tracker.feed ⟨kind, w, 0⟩ := rfl
      rw [hfeed] at hblock
      split at hblock
      · next hclosed =>
        obtain ⟨rfl, rfl⟩ := Prod.mk.inj (Option.some.inj hblock)
        exact ⟨rest, rfl, if_pos hclosed, standsAt_between _ _⟩
      · next hclosed =>
        simp only [Option.bind_eq_bind, Option.bind_eq_some_iff, Prod.exists, Option.pure_def,
          Option.some.injEq, Prod.mk.injEq] at hblock
        obtain ⟨tail, c₂, htail, rfl, rfl⟩ := hblock
        obtain ⟨rest', rfl, htext, hstands⟩ := ih (standsAt_between (before ++ w) rest) htail
        refine ⟨rest', by rw [List.append_assoc], ?_, by rwa [← List.append_assoc]⟩
        rw [if_neg hclosed, htext]
        rfl

/-- A block that stands there is taken. -/
theorem StandsAt.takeBlock?_ne_none {tracker : BlockTracker} {block : List Char}
    (h : c.StandsAt before rest) (hblock : tracker.blockText? rest = some block) :
    c.takeBlock? tracker ≠ none := by
  induction rest using induction_on_lexemes generalizing c before tracker block with
  | nil => simp [BlockTracker.blockText?, tokensOf, Token.scan, BlockTracker.block?] at hblock
  | lexeme kind w rest hlex ih =>
    have hnext := h.next?_eq hlex
    rw [takeBlock?]
    split
    · next hnone => simp [hnext] at hnone
    · next t c₁ hsome =>
      rw [hnext, Option.some.injEq, Prod.mk.injEq] at hsome
      obtain ⟨rfl, rfl⟩ := hsome
      rw [BlockTracker.blockText?_lexeme hlex] at hblock
      -- a tracker does not mind where a token stands
      have hfeed : tracker.feed ⟨kind, w, byteSize before⟩ = tracker.feed ⟨kind, w, 0⟩ := rfl
      rw [hfeed]
      split at hblock
      · next hclosed => simp [hclosed]
      · next hclosed =>
        obtain ⟨tail, htail, -⟩ := Option.map_eq_some_iff.mp hblock
        have hrest := ih (standsAt_between (before ++ w) rest) htail
        obtain ⟨taken, htaken⟩ := Option.ne_none_iff_exists'.mp hrest
        simp [hclosed, htaken]

end Cursor

/-! ### Delimited blocks -/

variable {block after : List Char}

theorem Token.head?_kind_scan (offset : Nat) (s : List Char) :
    (Token.scan offset s).head?.map Token.kind = (tokensOf s).head?.map Token.kind := by
  have hshift : Token.scan (offset + 0) s = (tokensOf s).map (Token.shift offset) :=
    Token.scan_add offset 0 s
  rw [Nat.add_zero] at hshift
  rw [hshift, List.head?_map, Option.map_map]
  rfl

theorem delimitsBlock_of_blockText?
    (hopen : (tokensOf (block ++ after)).head?.map Token.kind = some .openBrace)
    (h : ({} : BlockTracker).blockText? (block ++ after) = some block) :
    DelimitsBlock block after := by
  obtain ⟨tokens, htokens, htext⟩ := Option.map_eq_some_iff.mp h
  obtain ⟨⟨tokens', happend⟩, hblock⟩ := (block?_eq_some_iff hopen).mp htokens
  -- by itself the block has the same tokens as in front of what follows it
  obtain ⟨-, -, hcut, -⟩ := Token.scan_eq_append happend.symm
  rw [htext] at hcut
  exact ⟨by rw [tokensOf, hcut]; exact hblock, h⟩

theorem Token.exists_lexeme_of_mem_scan {offset : Nat} {s : List Char} {t : Token}
    (h : t ∈ scan offset s) : ∃ rest, Lexeme t.kind t.text rest := by
  induction s using induction_on_lexemes generalizing offset with
  | nil => simp [scan] at h
  | lexeme kind w rest hlex ih =>
    rw [scan_lexeme hlex] at h
    rcases List.mem_cons.mp h with rfl | h
    · exact ⟨rest, hlex⟩
    · exact ih h

theorem DelimitsBlock.exists_concat (h : DelimitsBlock block after) :
    ∃ inner, block = inner ++ ['\x7d'] := by
  obtain ⟨opening, items, closing, -, -, hclose, htokens⟩ := h.1
  have hmem : closing ∈ tokensOf block := by simp [htokens]
  obtain ⟨rest, hlex⟩ := Token.exists_lexeme_of_mem_scan hmem
  obtain ⟨c, htext, hc⟩ := hlex.exists_brace (.inr hclose)
  obtain rfl : c = '\x7d' := (Token.Kind.ofChar?_kind_iff hc).2.2.2.2.mp hclose
  have hblock := Token.textOf_scan 0 block
  rw [← tokensOf, htokens, textOf_cons, textOf_append, textOf_cons, htext, textOf_nil] at hblock
  exact ⟨opening.text ++ textOf items, by rw [← hblock]; simp⟩

theorem DelimitsBlock.exists_cons (h : DelimitsBlock block after) :
    ∃ inner, block = '\x7b' :: inner := by
  obtain ⟨opening, items, closing, hopen, -, -, htokens⟩ := h.1
  obtain ⟨rest, hblock, hlex, -⟩ := Token.scan_eq_cons htokens
  obtain ⟨c, htext, hc⟩ := hlex.exists_brace (.inl hopen)
  obtain rfl : c = '\x7b' := (Token.Kind.ofChar?_kind_iff hc).2.2.2.1.mp hopen
  exact ⟨rest, by rw [hblock, htext]; rfl⟩

/-- What is read for a block are blanks and the block that stands after them. -/
theorem Production.readBlock_eq_ok {source before rest text : List Char} {name : String}
    {c c' : Cursor} (h : c.StandsAt before rest)
    (hread : readBlock source name c = .ok (text, c')) :
    ∃ blanks block after, rest = blanks ++ block ++ after ∧ Signature.IsBlanks blanks ∧
      DelimitsBlock block after ∧ text = blanks ++ block ∧
      c'.StandsAt (before ++ blanks ++ block) after := by
  obtain ⟨blanks, rest', c₁, rfl, hblanks, -, hskip, hstands⟩ := h.skipBlanks_eq
  have hhead := c₁.peek_fst
  rw [hstands.unread_eq] at hhead
  simp only [readBlock, hskip] at hread
  split at hread
  · cases hread
  · next t c₂ hpeek =>
    have hpeeked := hstands.peek
    rw [hpeek] at hhead hpeeked
    split at hread
    · next hkind =>
      split at hread
      · next block c₃ hblock =>
        obtain ⟨rfl, rfl⟩ := Prod.mk.inj (Except.ok.inj hread)
        obtain ⟨after, rfl, htext, hafter⟩ := hpeeked.takeBlock?_eq_some hblock
        -- what was looked at is the first token of the block
        have hopen : (tokensOf (block ++ after)).head?.map Token.kind = some .openBrace := by
          rw [← Token.head?_kind_scan, ← hhead, Option.map_some, hkind]
        refine ⟨blanks, block, after, by rw [List.append_assoc], hblanks, ?_, rfl, hafter⟩
        exact delimitsBlock_of_blockText? hopen htext
      · cases hread
    · cases hread

end GrammarLayers
