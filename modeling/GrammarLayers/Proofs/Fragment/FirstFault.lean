import GrammarLayers.Proofs.Fragment.Capture
import GrammarLayers.Proofs.Text.Place

/-!
# The first signature without its blocks

Reading the productions of a text goes wrong at the first signature that is not inside of a
production captured before it and that is not followed by two blocks. What is reported is what
stands in the place of the first block that is missing, and where it stands.

## Main definitions

* `StartsBlock` — a text starts with blanks and a block
* `StandsForBlock`, `LacksBlock` — what stands in a text in the place of a block
* `Signature.HasFault` — the fault of a signature that is not followed by two blocks
* `Production.Captured` — the productions captured from signatures in order
* `Signature.IsFirstUnfollowed` — the first signature without its blocks

## Main results

* `readBlock_eq_error`, `read_eq_error` — what a block, and a production, is found to lack
* `HasFault.unique`, `HasFault.not_isCapture` — a signature has one fault or two blocks
* `readFrom_captured`, `readFrom_eq_error` — how far the signatures of a text have been captured
* `readAll_fails_at_first_unfollowed` — whether, where and how reading goes wrong
-/

namespace GrammarLayers

/-- The text starts with blanks and a block, and goes on with `after`. -/
structure StartsBlock (rest gap block after : List Char) : Prop where
  eq : rest = gap ++ block ++ after
  isBlanks : Signature.IsBlanks gap
  delimits : DelimitsBlock block after

/-- What a text, which does not start with a blank, has in the place of a block: nothing at all,
some token other than an opening brace, or an opening brace from which on no block is complete.
`before` is the text before it. -/
inductive StandsForBlock (name : String) (before : List Char) : List Char → TextFault → Prop
  | nothing : StandsForBlock name before [] (.missingBlock name .endOfFile (.after before))
  | token {c : Char} {rest : List Char} {t : Token} :
    c ≠ '\x7b' → (tokensOf (c :: rest)).head? = some t →
      StandsForBlock name before (c :: rest) (.missingBlock name (.token t.text) (.after before))
  | unclosed {rest : List Char} :
    (∀ block, block <+: tokensOf ('\x7b' :: rest) → ¬ IsBlock block) →
      StandsForBlock name before ('\x7b' :: rest) (.unclosedBlock name (.after before))

/-- The text has something else than a block after the blanks it starts with. -/
def LacksBlock (name : String) (before rest : List Char) (fault : TextFault) : Prop :=
  ∃ blanks rest', rest = blanks ++ rest' ∧ Signature.IsBlanks blanks ∧
    StartsOutside isSpaceChar rest' ∧ StandsForBlock name (before ++ blanks) rest' fault

namespace Signature

/-- The fault of a signature that lacks its initializer, or lacks its body after a complete
initializer. -/
inductive HasFault (source : List Char) (sig : Signature) (fault : TextFault) : Prop
  | initializer {before head rest : List Char} :
    source = before ++ head ++ rest → sig.span = ⟨byteSize before, byteSize (before ++ head)⟩ →
      LacksBlock sig.name (before ++ head) rest fault → HasFault source sig fault
  | body {before head rest gap block after : List Char} :
    source = before ++ head ++ rest → sig.span = ⟨byteSize before, byteSize (before ++ head)⟩ →
      StartsBlock rest gap block after →
      LacksBlock sig.name (before ++ head ++ (gap ++ block)) after fault →
      HasFault source sig fault

end Signature

namespace Production

/-- The signature lies inside of the production. -/
def Contains (p : Production) (sig : Signature) : Prop :=
  p.span.start ≤ sig.span.start ∧ sig.span.stop ≤ p.span.stop

/-- The productions captured from signatures in order: a signature inside of a production that
was captured before it is passed over, and any other one starts the next production. -/
inductive Captured (source : List Char) : List Signature → List Production → Prop
  | nil : Captured source [] []
  | inside {sigs : List Signature} {ps : List Production} {sig : Signature} :
    Captured source sigs ps → (∃ p ∈ ps, p.Contains sig) → Captured source (sigs ++ [sig]) ps
  | next {sigs : List Signature} {ps : List Production} {sig : Signature} {p : Production} :
    Captured source sigs ps → (∀ q ∈ ps, ¬ q.Contains sig) → p.IsCapture source sig →
      Captured source (sigs ++ [sig]) (ps ++ [p])

end Production

/-- The signature is the first one of the text that is neither inside of a production captured
before it nor followed by two blocks. -/
def Signature.IsFirstUnfollowed (source : List Char) (sig : Signature) : Prop :=
  ∃ sigs rest ps, Signature.findAll source = sigs ++ sig :: rest ∧
    Production.Captured source sigs ps ∧ (∀ p ∈ ps, ¬ p.Contains sig) ∧
    ∀ p : Production, ¬ p.IsCapture source sig

/-! ### One block, or what stands for it -/

variable {source before rest rest' gap block after gap' block' after' : List Char}
  {name : String} {fault fault' : TextFault}

theorem Signature.IsBlanks.append_inj {a b x y : List Char} (ha : IsBlanks a) (hb : IsBlanks b)
    (hx : StartsOutside isSpaceChar x) (hy : StartsOutside isSpaceChar y) (h : a ++ x = b ++ y) :
    a = b ∧ x = y := by
  have hrest : x = y := by
    rw [← skipBlanks_append ha hx, h, skipBlanks_append hb hy]
  subst hrest
  exact ⟨List.append_cancel_right h, rfl⟩

theorem Token.head?_kind_eq_openBrace_iff {c : Char} {s : List Char} :
    (tokensOf (c :: s)).head?.map Token.kind = some .openBrace ↔ c = '\x7b' := by
  constructor
  · intro h
    obtain ⟨t, hhead, hkind⟩ := Option.map_eq_some_iff.mp h
    obtain ⟨tokens, htokens⟩ := List.head?_eq_some_iff.mp hhead
    obtain ⟨rest, hrest, hlex, -⟩ := scan_eq_cons htokens
    obtain ⟨d, htext, hd⟩ := hlex.exists_brace (.inl hkind)
    rw [htext] at hrest
    obtain ⟨rfl, -⟩ := List.cons.inj hrest
    exact (Token.Kind.ofChar?_kind_iff hd).2.2.2.1.mp hkind
  · rintro rfl
    have hkind : Token.Kind.ofChar? '\x7b' = some .openBrace := rfl
    rw [tokensOf, scan_delimiter 0 s hkind]
    rfl

theorem blockText?_eq_none_iff {s : List Char} :
    ({} : BlockTracker).blockText? ('\x7b' :: s) = none ↔
      ∀ block, block <+: tokensOf ('\x7b' :: s) → ¬ IsBlock block := by
  have hopen : (tokensOf ('\x7b' :: s)).head?.map Token.kind = some .openBrace :=
    Token.head?_kind_eq_openBrace_iff.mpr rfl
  rw [BlockTracker.blockText?, Option.map_eq_none_iff, Option.eq_none_iff_forall_ne_some]
  refine forall_congr' fun block => ?_
  rw [Ne, block?_eq_some_iff hopen, not_and]

theorem DelimitsBlock.startsOutside (h : DelimitsBlock block after) (s : List Char) :
    StartsOutside isSpaceChar (block ++ s) := by
  obtain ⟨inner, rfl⟩ := h.exists_cons
  exact startsOutside_cons_iff.mpr rfl

/-- A text starts with blanks and a block in one way at most. -/
theorem StartsBlock.unique (h : StartsBlock rest gap block after)
    (h' : StartsBlock rest gap' block' after') : gap = gap' ∧ block = block' ∧ after = after' := by
  have heq := h.eq.symm.trans h'.eq
  rw [List.append_assoc, List.append_assoc] at heq
  obtain ⟨hgap, hrest⟩ := h.isBlanks.append_inj h'.isBlanks (h.delimits.startsOutside after)
    (h'.delimits.startsOutside after') heq
  have hblock : block = block' := by
    have hdelimits := h'.delimits.2
    rw [← hrest, h.delimits.2] at hdelimits
    exact Option.some.inj hdelimits
  subst hblock
  exact ⟨hgap, rfl, List.append_cancel_left hrest⟩

theorem StandsForBlock.unique (h : StandsForBlock name before rest fault)
    (h' : StandsForBlock name before rest fault') : fault = fault' := by
  cases h with
  | nothing => cases h'; rfl
  | token hne hhead =>
    cases h' with
    | token _ hhead' => rw [Option.some.inj (hhead.symm.trans hhead')]
    | unclosed => exact absurd rfl hne
  | unclosed =>
    cases h' with
    | token hne => exact absurd rfl hne
    | unclosed => rfl

theorem LacksBlock.unique (h : LacksBlock name before rest fault)
    (h' : LacksBlock name before rest fault') : fault = fault' := by
  obtain ⟨blanks, rest₁, hrest, hblanks, houtside, hstands⟩ := h
  obtain ⟨blanks', rest₂, hrest', hblanks', houtside', hstands'⟩ := h'
  obtain ⟨rfl, rfl⟩ :=
    hblanks.append_inj hblanks' houtside houtside' (hrest.symm.trans hrest')
  exact hstands.unique hstands'

/-- Where something stands in the place of a block, there is no block. -/
theorem LacksBlock.not_startsBlock (h : LacksBlock name before rest fault) :
    ¬ StartsBlock rest gap block after := by
  intro hblock
  obtain ⟨blanks, rest', hrest, hblanks, houtside, hstands⟩ := h
  have heq := hrest.symm.trans hblock.eq
  rw [List.append_assoc] at heq
  obtain ⟨-, rfl⟩ := hblanks.append_inj hblock.isBlanks houtside
    (hblock.delimits.startsOutside after) heq
  have hdelimits := hblock.delimits.2
  obtain ⟨inner, rfl⟩ := hblock.delimits.exists_cons
  rw [List.cons_append] at hstands hdelimits
  cases hstands with
  | token hne => exact hne rfl
  | unclosed hnone =>
    rw [blockText?_eq_none_iff.mpr hnone] at hdelimits
    cases hdelimits

/-! ### One fault, or two blocks -/

/-- Where a signature stands in a text, said of the text after it. -/
theorem append_inj_of_span_eq {before head rest before' head' rest' : List Char}
    (h : before ++ head ++ rest = before' ++ head' ++ rest')
    (hspan : (⟨byteSize before, byteSize (before ++ head)⟩ : Span) =
      ⟨byteSize before', byteSize (before' ++ head')⟩) :
    before = before' ∧ head = head' ∧ rest = rest' := by
  obtain ⟨hstart, hstop⟩ := Span.mk.inj hspan
  obtain ⟨hheads, rfl⟩ := append_inj_of_byteSize_eq h hstop
  obtain ⟨rfl, rfl⟩ := append_inj_of_byteSize_eq hheads hstart
  exact ⟨rfl, rfl, rfl⟩

theorem Capture.startsBlock_initializer (k : Capture source) :
    StartsBlock (k.gap ++ k.initializer ++ (k.gap' ++ k.body ++ k.after)) k.gap k.initializer
      (k.gap' ++ k.body ++ k.after) :=
  ⟨rfl, k.isBlanks_gap, k.delimits_initializer⟩

theorem Capture.startsBlock_body (k : Capture source) :
    StartsBlock (k.gap' ++ k.body ++ k.after) k.gap' k.body k.after :=
  ⟨rfl, k.isBlanks_gap', k.delimits_body⟩

theorem Capture.source_eq_head (k : Capture source) :
    source = k.before ++ k.head ++ (k.gap ++ k.initializer ++ (k.gap' ++ k.body ++ k.after)) := by
  have hsource := k.source_eq
  simpa using hsource

/-- A signature starts one production at most. -/
theorem Production.IsCapture.unique {sig : Signature} {p q : Production}
    (hp : p.IsCapture source sig) (hq : q.IsCapture source sig) : p = q := by
  obtain ⟨k, hspan, rfl⟩ := hp
  obtain ⟨k', hspan', rfl⟩ := hq
  obtain ⟨hbefore, hhead, hrest⟩ :=
    append_inj_of_span_eq (k.source_eq_head.symm.trans k'.source_eq_head) (hspan.symm.trans hspan')
  obtain ⟨hgap, hinitializer, hafter⟩ :=
    (hrest ▸ k.startsBlock_initializer).unique k'.startsBlock_initializer
  obtain ⟨hgap', hbody, -⟩ := (hafter ▸ k.startsBlock_body).unique k'.startsBlock_body
  have htext : k.text = k'.text := by
    simp only [Capture.text, hhead, hgap, hinitializer, hgap', hbody]
  simp only [Capture.toProduction, Capture.span, hbefore, htext]

namespace Signature.HasFault

variable {sig : Signature}

theorem unique (h : sig.HasFault source fault) (h' : sig.HasFault source fault') :
    fault = fault' := by
  cases h with
  | initializer hsource hspan hlacks =>
    cases h' with
    | initializer hsource' hspan' hlacks' =>
      obtain ⟨rfl, rfl, rfl⟩ :=
        append_inj_of_span_eq (hsource.symm.trans hsource') (hspan.symm.trans hspan')
      exact hlacks.unique hlacks'
    | body hsource' hspan' hblock =>
      obtain ⟨rfl, rfl, rfl⟩ :=
        append_inj_of_span_eq (hsource.symm.trans hsource') (hspan.symm.trans hspan')
      -- a block cannot both follow the signature and be missing
      exact absurd hblock hlacks.not_startsBlock
  | body hsource hspan hblock hlacks =>
    cases h' with
    | initializer hsource' hspan' hlacks' =>
      obtain ⟨rfl, rfl, rfl⟩ :=
        append_inj_of_span_eq (hsource.symm.trans hsource') (hspan.symm.trans hspan')
      exact absurd hblock hlacks'.not_startsBlock
    | body hsource' hspan' hblock' hlacks' =>
      obtain ⟨rfl, rfl, rfl⟩ :=
        append_inj_of_span_eq (hsource.symm.trans hsource') (hspan.symm.trans hspan')
      obtain ⟨rfl, rfl, rfl⟩ := hblock.unique hblock'
      exact hlacks.unique hlacks'

/-- A signature that has a fault starts no production. -/
theorem not_isCapture (h : sig.HasFault source fault) (p : Production) :
    ¬ p.IsCapture source sig := by
  rintro ⟨k, hspan, -⟩
  cases h with
  | initializer hsource hspan' hlacks =>
    obtain ⟨rfl, rfl, rfl⟩ :=
      append_inj_of_span_eq (k.source_eq_head.symm.trans hsource) (hspan.symm.trans hspan')
    exact hlacks.not_startsBlock k.startsBlock_initializer
  | body hsource hspan' hblock hlacks =>
    obtain ⟨rfl, rfl, rfl⟩ :=
      append_inj_of_span_eq (k.source_eq_head.symm.trans hsource) (hspan.symm.trans hspan')
    obtain ⟨rfl, rfl, rfl⟩ := k.startsBlock_initializer.unique hblock
    exact hlacks.not_startsBlock k.startsBlock_body

end Signature.HasFault

/-! ### What is read at a signature -/

namespace Production

variable {c c' : Cursor} {sig sig' : Signature} {sigs : List Signature} {p q : Production}
  {ps qs : List Production}

/-- What is reported for a block is what stands there instead. -/
theorem readBlock_eq_error (h : c.StandsAt before rest) (hsource : source = before ++ rest)
    (hread : readBlock source name c = .error fault) : LacksBlock name before rest fault := by
  obtain ⟨blanks, rest', c₁, rfl, hblanks, houtside, hskip, hstands⟩ := h.skipBlanks_eq
  refine ⟨blanks, rest', rfl, hblanks, houtside, ?_⟩
  have hhead := c₁.peek_fst
  rw [hstands.unread_eq] at hhead
  simp only [readBlock, hskip] at hread
  rw [← List.append_assoc] at hsource
  split at hread
  · next hpeek =>
    rw [hpeek] at hhead
    have hnil : rest' = [] := by
      rw [← Token.textOf_scan (byteSize (before ++ blanks)) rest',
        List.head?_eq_none_iff.mp hhead.symm, textOf_nil]
    subst hnil
    rw [List.append_nil] at hsource
    obtain rfl := Except.error.inj hread
    rw [hsource, Position.find_byteSize]
    exact .nothing
  · next t c₂ hpeek =>
    have hpeeked := hstands.peek
    rw [hpeek] at hhead hpeeked
    obtain ⟨tokens, htokens⟩ := List.head?_eq_some_iff.mp hhead.symm
    obtain ⟨rest₁, hrest, hlex, hoffset, -⟩ := Token.scan_eq_cons htokens
    obtain ⟨d, s, rfl⟩ : ∃ d s, rest' = d :: s := by
      refine List.exists_cons_of_ne_nil ?_
      rw [hrest]
      exact List.append_ne_nil_of_left_ne_nil hlex.ne_nil rest₁
    -- the same token is read when the text stands by itself
    have htoken : (tokensOf (d :: s)).head? = some ⟨t.kind, t.text, 0⟩ := by
      rw [hrest, tokensOf, Token.scan_lexeme hlex]
      rfl
    have hplace : Position.find source t.offset = .after (before ++ blanks) := by
      rw [hsource, hoffset, Position.find_append]
    rw [hplace] at hread
    have hkind := Token.head?_kind_eq_openBrace_iff (c := d) (s := s)
    rw [htoken, Option.map_some, Option.some.injEq] at hkind
    split at hread
    · next hopen =>
      obtain rfl := hkind.mp hopen
      split at hread
      · cases hread
      · next hnone =>
        obtain rfl := Except.error.inj hread
        refine .unclosed (blockText?_eq_none_iff.mp ?_)
        by_contra hsome
        obtain ⟨block, hblock⟩ := Option.ne_none_iff_exists'.mp hsome
        exact hpeeked.takeBlock?_ne_none hblock hnone
    · next hopen =>
      obtain rfl := Except.error.inj hread
      exact StandsForBlock.token (t := ⟨t.kind, t.text, 0⟩) (fun h => hopen (hkind.mpr h)) htoken

/-- What is reported for a signature is the fault that it has. -/
theorem read_eq_error (hsig : Signature.Occurs source sig) (hsource : source = before ++ rest)
    (hstands : c.StandsAt before rest) (hle : byteSize before ≤ sig.span.start)
    (hread : read source sig c = .error fault) : sig.HasFault source fault := by
  obtain ⟨start, m, htext, hform, -, rfl⟩ := hsig
  obtain ⟨skipped, rfl, rfl⟩ := exists_append_of_byteSize_le (hsource.symm.trans htext) hle
  obtain ⟨c₁, hskip, hstart⟩ := hstands.takeTo_eq fun x _ y hy => hform.ofPair?_start hy x
  obtain ⟨c₂, htake, hstop⟩ := hstart.takeTo_eq fun x hx y _ => hform.ofPair?_stop hx y
  simp only [read, Signature.Match.toSignature, hskip, htake] at hread
  rw [← List.append_assoc] at htext
  -- the first of the two blocks is missing, or it is there and the second one is
  cases hinitializer : readBlock source (String.ofList m.name) c₂ with
  | error fault' =>
    rw [hinitializer] at hread
    obtain rfl := Except.error.inj hread
    exact .initializer htext rfl (readBlock_eq_error hstop htext hinitializer)
  | ok taken =>
    obtain ⟨text, c₃⟩ := taken
    obtain ⟨gap, block, after, hrest, hgap, hblock, rfl, hstands₁⟩ :=
      readBlock_eq_ok hstop hinitializer
    rw [List.append_assoc (before ++ skipped ++ m.text)] at hstands₁
    have hsource' : source = before ++ skipped ++ m.text ++ (gap ++ block) ++ after := by
      rw [htext, hrest]
      simp
    rw [hinitializer] at hread
    cases hbody : readBlock source (String.ofList m.name) c₃ with
    | error fault' =>
      simp only [bind, Except.bind, hbody] at hread
      obtain rfl := Except.error.inj hread
      exact .body htext rfl ⟨hrest, hgap, hblock⟩ (readBlock_eq_error hstands₁ hsource' hbody)
    | ok taken' =>
      simp only [bind, Except.bind, hbody] at hread
      cases hread

/-! ### The productions captured before a signature -/

/-- What has been captured when the cursor stands after some part of a text: all productions end
before the cursor, and a later signature that starts before it lies inside of one of them. -/
structure CapturedTo (source before : List Char) (sigs : List Signature) (ps : List Production) :
    Prop where
  captured : Captured source sigs ps
  stop_le : ∀ p ∈ ps, p.span.stop ≤ byteSize before
  contains : ∀ sig, Signature.Occurs source sig →
    (∀ sig' ∈ sigs, sig'.span.start < sig.span.start) → sig.span.start < byteSize before →
      ∃ p ∈ ps, p.Contains sig

theorem CapturedTo.nil (source : List Char) : CapturedTo source [] [] [] where
  captured := .nil
  stop_le := by simp
  contains _ _ _ hlt := absurd hlt (Nat.not_lt_zero _)

/-- A signature that starts behind the cursor is passed over. -/
theorem CapturedTo.skip (h : CapturedTo source before sigs ps) (hin : ∃ p ∈ ps, p.Contains sig) :
    CapturedTo source before (sigs ++ [sig]) ps where
  captured := .inside h.captured hin
  stop_le := h.stop_le
  contains sig' hsig' hafter :=
    h.contains sig' hsig' fun sig'' hsig'' => hafter sig'' (List.mem_append_left [sig] hsig'')

/-- A signature before the cursor is not inside of what was captured. -/
theorem CapturedTo.not_contains (h : CapturedTo source before sigs ps)
    (hsig : Signature.Occurs source sig) (hle : byteSize before ≤ sig.span.start) :
    ∀ p ∈ ps, ¬ p.Contains sig := by
  rintro p hp ⟨-, hstop⟩
  have hlt := hsig.start_lt_stop
  have hend := h.stop_le p hp
  omega

/-- A signature at the cursor starts the next production. -/
theorem CapturedTo.next {before' : List Char} (h : CapturedTo source before sigs ps)
    (hsig : Signature.Occurs source sig) (hle : byteSize before ≤ sig.span.start)
    (hcapture : p.IsCapture source sig) (hstop : byteSize before' = p.span.stop) :
    CapturedTo source before' (sigs ++ [sig]) (ps ++ [p]) where
  captured := .next h.captured (h.not_contains hsig hle) hcapture
  stop_le := by
    have hlt := hcapture.start_lt_stop
    have hstart := hcapture.start_eq
    intro q hq
    rcases List.mem_append.mp hq with hq | hq
    · have hend := h.stop_le q hq
      omega
    · obtain rfl := List.mem_singleton.mp hq
      exact Nat.le_of_eq hstop.symm
  contains sig' hsig' hafter hlt := by
    -- it starts after this one and before the end of the production, and so ends there too
    have hstart := hafter sig (by simp)
    rw [hstop] at hlt
    refine ⟨p, by simp, ?_, hcapture.stop_le hsig' hlt⟩
    rw [hcapture.start_eq]
    exact Nat.le_of_lt hstart

/-- Reading from some place on either captures productions from all signatures there, or goes
wrong at one of them that is not inside of what was captured before. -/
theorem readFrom_captured_or_error {done : List Signature}
    (hdone : CapturedTo source before done ps)
    (hoccurs : ∀ sig ∈ sigs, Signature.Occurs source sig)
    (hordered : (done ++ sigs).Pairwise fun a b => a.span.start < b.span.start)
    (hsource : source = before ++ rest) (hstands : c.StandsAt before rest) :
    (∃ qs, readFrom source sigs c = .ok qs ∧ Captured source (done ++ sigs) (ps ++ qs)) ∨
      ∃ fault sigs' sig rest' qs, readFrom source sigs c = .error fault ∧
        sigs = sigs' ++ sig :: rest' ∧ Captured source (done ++ sigs') (ps ++ qs) ∧
        (∀ p ∈ ps ++ qs, ¬ p.Contains sig) ∧ sig.HasFault source fault := by
  induction sigs generalizing before rest c done ps with
  | nil => exact .inl ⟨[], rfl, by simpa using hdone.captured⟩
  | cons sig sigs ih =>
    obtain ⟨hsig, hoccurs⟩ := List.forall_mem_cons.mp hoccurs
    have hbefore : ∀ sig' ∈ done, sig'.span.start < sig.span.start := fun sig' hsig' =>
      (List.pairwise_append.mp hordered).2.2 sig' hsig' sig List.mem_cons_self
    rw [List.append_cons] at hordered ⊢
    rw [readFrom]
    split
    · next hbehind =>
      -- the signature lies inside of what has been captured
      rw [hstands.offset_eq] at hbehind
      have hskip := hdone.skip (hdone.contains sig hsig hbefore hbehind)
      rcases ih hskip hoccurs hordered hsource hstands with
        hok | ⟨fault, sigs', sig', rest', qs, hread, rfl, hcaptured, hfault⟩
      · exact .inl hok
      · rw [← List.append_cons] at hcaptured
        exact .inr ⟨fault, sig :: sigs', sig', rest', qs, hread, rfl, hcaptured, hfault⟩
    · next hahead =>
      rw [hstands.offset_eq, Nat.not_lt] at hahead
      cases hone : read source sig c with
      | error fault =>
        refine .inr ⟨fault, [], sig, sigs, [], rfl, rfl, by simpa using hdone.captured, ?_,
          read_eq_error hsig hsource hstands hahead hone⟩
        simpa using hdone.not_contains hsig hahead
      | ok taken =>
        obtain ⟨p, c'⟩ := taken
        simp only [bind, Except.bind]
        obtain ⟨hcapture, before', rest', hsource', hstands', hstop⟩ :=
          read_eq_ok hsig hsource hstands hahead hone
        have hnext := hdone.next hsig hahead hcapture hstop
        rcases ih hnext hoccurs hordered hsource' hstands' with
          ⟨qs, hread, hcaptured⟩ |
            ⟨fault, sigs', sig', rest', qs, hread, rfl, hcaptured, houtside, hfault⟩
        · rw [← List.append_cons ps] at hcaptured
          exact .inl ⟨p :: qs, by rw [hread]; rfl, hcaptured⟩
        · rw [← List.append_cons ps, ← List.append_cons done] at hcaptured
          rw [← List.append_cons] at houtside
          exact .inr ⟨fault, sig :: sigs', sig', rest', p :: qs, by rw [hread], rfl,
            hcaptured, houtside, hfault⟩

/-! ### The first signature without its blocks -/

theorem captured_concat_iff :
    Captured source (sigs ++ [sig]) qs ↔
      (Captured source sigs qs ∧ ∃ p ∈ qs, p.Contains sig) ∨
        ∃ ps p, qs = ps ++ [p] ∧ Captured source sigs ps ∧ (∀ q ∈ ps, ¬ q.Contains sig) ∧
          p.IsCapture source sig := by
  constructor
  · intro h
    -- the last signature is what the last rule was about
    generalize hsigs : sigs ++ [sig] = all at h
    cases h with
    | nil => simp at hsigs
    | inside h hin =>
      obtain ⟨rfl, hsig⟩ := List.append_inj' hsigs rfl
      obtain rfl := (List.cons.inj hsig).1
      exact .inl ⟨h, hin⟩
    | next h houtside hcapture =>
      obtain ⟨rfl, hsig⟩ := List.append_inj' hsigs rfl
      obtain rfl := (List.cons.inj hsig).1
      exact .inr ⟨_, _, rfl, h, houtside, hcapture⟩
  · rintro (⟨h, hin⟩ | ⟨ps, p, rfl, h, houtside, hcapture⟩)
    · exact .inside h hin
    · exact .next h houtside hcapture

/-- Signatures determine the productions that are captured from them. -/
theorem Captured.unique (h : Captured source sigs ps) (h' : Captured source sigs qs) :
    ps = qs := by
  induction h generalizing qs with
  | nil =>
    generalize hsigs : ([] : List Signature) = sigs at h'
    cases h' with
    | nil => rfl
    | inside => simp at hsigs
    | next => simp at hsigs
  | inside h hin ih =>
    rcases captured_concat_iff.mp h' with ⟨h', -⟩ | ⟨qs, q, rfl, h', houtside, -⟩
    · exact ih h'
    · obtain rfl := ih h'
      -- the same signature cannot be inside of a production and outside of all
      obtain ⟨p, hp, hcontains⟩ := hin
      exact absurd hcontains (houtside p hp)
  | next h houtside hcapture ih =>
    rcases captured_concat_iff.mp h' with ⟨h', hin⟩ | ⟨qs, q, rfl, h', -, hcapture'⟩
    · obtain rfl := ih h'
      obtain ⟨p, hp, hcontains⟩ := hin
      exact absurd hcontains (houtside p hp)
    · rw [ih h', hcapture.unique hcapture']

theorem Captured.exists_of_append {sigs' : List Signature}
    (h : Captured source (sigs ++ sigs') qs) : ∃ ps, Captured source sigs ps := by
  induction sigs' using List.reverseRecOn generalizing qs with
  | nil => exact ⟨qs, by simpa using h⟩
  | append_singleton sigs' sig ih =>
    rw [← List.append_assoc] at h
    rcases captured_concat_iff.mp h with ⟨h, -⟩ | ⟨ps, p, -, h, -⟩
    · exact ih h
    · exact ih h

/-- Nothing is captured past a signature that is neither inside of a production captured before it
nor followed by two blocks. -/
theorem not_captured_past {sigs' : List Signature} (h : Captured source sigs ps)
    (houtside : ∀ p ∈ ps, ¬ p.Contains sig) (hnone : ∀ p : Production, ¬ p.IsCapture source sig) :
    ¬ Captured source (sigs ++ sig :: sigs') qs := by
  intro hpast
  rw [List.append_cons] at hpast
  obtain ⟨ps', hps'⟩ := hpast.exists_of_append
  rcases captured_concat_iff.mp hps' with ⟨h', p, hp, hcontains⟩ | ⟨ps'', p, rfl, -, -, hcapture⟩
  · obtain rfl := h.unique h'
    exact houtside p hp hcontains
  · exact hnone p hcapture

end Production

theorem Signature.IsFirstUnfollowed.unique {sig sig' : Signature}
    (h : sig.IsFirstUnfollowed source) (h' : sig'.IsFirstUnfollowed source) : sig = sig' := by
  obtain ⟨sigs, rest, ps, hall, hcaptured, houtside, hnone⟩ := h
  obtain ⟨sigs', rest', ps', hall', hcaptured', houtside', hnone'⟩ := h'
  rcases List.append_eq_append_iff.mp (hall.symm.trans hall') with
    ⟨more, rfl, hmore⟩ | ⟨more, rfl, hmore⟩
  -- whichever of the two comes first, what is captured before the other would go past it
  · cases more with
    | nil => exact (List.cons.inj hmore).1
    | cons next more =>
      obtain ⟨rfl, -⟩ := List.cons.inj hmore
      exact absurd hcaptured' (Production.not_captured_past hcaptured houtside hnone)
  · cases more with
    | nil => exact (List.cons.inj hmore).1.symm
    | cons next more =>
      obtain ⟨rfl, -⟩ := List.cons.inj hmore
      exact absurd hcaptured (Production.not_captured_past hcaptured' houtside' hnone')

namespace Production

/-- Reading the productions of a text goes wrong exactly when some signature, not inside of a
production captured before it, is not followed by two blocks with blanks before each. What is
reported is then the fault of the first such signature. A token that was found is shown quoted,
and the end of the text by name. -/
theorem readAll_fails_at_first_unfollowed (source : List Char) :
    ((∃ fault, readAll source = .error fault) ↔
      ∃ sig : Signature, sig.IsFirstUnfollowed source) ∧
    (∀ (sig : Signature) (fault : TextFault), sig.IsFirstUnfollowed source →
      (readAll source = .error fault ↔ sig.HasFault source fault)) ∧
    (∀ text, (Found.token text).display = String.ofList (quote text)) ∧
    Found.endOfFile.display = "end of file" := by
  have houtcome := readFrom_captured_or_error (CapturedTo.nil source)
    (fun sig hsig => Signature.mem_findAll_iff.mp hsig)
    ((Signature.findAll_pairwise source).imp And.left) (List.nil_append source).symm
    (Cursor.standsAt_ofText source)
  rw [← readAll] at houtcome
  simp only [List.nil_append] at houtcome
  rcases houtcome with ⟨ps, hread, hcaptured⟩ |
    ⟨fault, sigs, sig, rest, ps, hread, hall, hcaptured, houtside, hfault⟩
  · -- everything is captured, and so no signature is left over
    have hnone : ∀ sig : Signature, ¬ sig.IsFirstUnfollowed source := by
      rintro sig ⟨sigs, rest, ps', hall, hcaptured', houtside, hnone⟩
      rw [hall] at hcaptured
      exact not_captured_past hcaptured' houtside hnone hcaptured
    refine ⟨⟨?_, ?_⟩, fun sig _ hfirst => absurd hfirst (hnone sig), fun _ => rfl, rfl⟩
    · rintro ⟨fault, herror⟩
      rw [hread] at herror
      cases herror
    · rintro ⟨sig, hfirst⟩
      exact absurd hfirst (hnone sig)
  · have hfirst : sig.IsFirstUnfollowed source :=
      ⟨sigs, rest, ps, hall, hcaptured, houtside, hfault.not_isCapture⟩
    refine ⟨⟨fun _ => ⟨sig, hfirst⟩, fun _ => ⟨fault, hread⟩⟩, ?_, fun _ => rfl, rfl⟩
    intro sig' fault' hfirst'
    obtain rfl := hfirst.unique hfirst'
    rw [hread, Except.error.injEq]
    constructor
    · rintro rfl
      exact hfault
    · exact hfault.unique

/-- A text with three signatures. The second one is in a comment of the first production; the third
one starts in the middle of a token, and has an initializer on its line but no body on the next. -/
def bodilessSource : String :=
  "\u00e9;T A():\x7b\x7d\x7b/*T B():*/\x7d;T C():\x7b\x7d\n \u00e9\x7d"

/-- The fault is that of the third signature. -/
theorem readAll_fails_at_first_unfollowed_quoted :
    let source := bodilessSource.toList
    ∃ sig : Signature, sig.IsFirstUnfollowed source ∧
      sig.HasFault source (.missingBlock "C" (.token ['\u00e9']) ⟨34, 2, 2⟩) := by
  intro source
  have hread : readAll source = .error (.missingBlock "C" (.token ['\u00e9']) ⟨34, 2, 2⟩) := by
    decide +kernel
  obtain ⟨hfails, hfault, -⟩ := readAll_fails_at_first_unfollowed source
  obtain ⟨sig, hfirst⟩ := hfails.mp ⟨_, hread⟩
  exact ⟨sig, hfirst, (hfault sig _ hfirst).mp hread⟩

end Production

end GrammarLayers
