import GrammarLayers.Proofs.Fragment.FirstFault
import GrammarLayers.Proofs.Fragment.TokenForm
import Mathlib.Data.List.Sort

/-!
# Productions in other surroundings

A signature, a block, and a production stay what they are when text is put before or behind them:
behind, because a block ends in a brace, which is a token by itself whatever follows; before,
because what is read starts at the signature. Only where they stand changes. The one thing that must
not happen is that a signature runs over the place where two texts are put together. It cannot if
the first text ends in blanks that come after a character which stands in no signature.

## Main definitions

* `Span.shift`, `Signature.shift`, `Production.shift` — so many bytes further on
* `TextFault.behind` — a fault in a text that stands behind another one
* `Signature.Seals` — no signature runs over the end of a text

## Main results

* `scan_append_of_delimiter` — after a delimiter the tokens of a text start anew
* `DelimitsBlock.congr` — a block is one whatever follows it
* `Seals.findAll_append` — the signatures of two texts
* `IsCapture.append`, `IsCapture.prepend` — a production in a longer text
* `Captured.append`, `Captured.append_shift` — the productions of two texts
* `HasFault.prepend` — a fault in a longer text
-/

namespace GrammarLayers

/-! ### Blocks -/

variable {a b s rest block after after' before : List Char} {c : Char}

/-- After a delimiter of one character the tokens of a text start anew. -/
theorem Token.scan_append_of_delimiter {offset : Nat}
    (h : ∃ c ∈ s.getLast?, Token.Kind.ofChar? c ≠ none) (rest : List Char) :
    scan offset (s ++ rest) = scan offset s ++ scan (offset + byteSize s) rest := by
  induction s using induction_on_lexemes generalizing offset with
  | nil =>
    obtain ⟨c, hc, -⟩ := h
    cases hc
  | lexeme kind w s hlex ih =>
    -- the token stays the same in front of a longer text
    have hlex' : Lexeme kind w (s ++ rest) := by
      cases s with
      | nil =>
        obtain ⟨c, hc, hdelimiter⟩ := h
        rw [List.append_nil] at hc
        rcases lexeme_iff.mp hlex with ⟨hkind, hmem⟩ | ⟨-, hrun, -⟩
        · exact lexeme_iff.mpr (.inl ⟨hkind, hmem⟩)
        · have hnone := hrun.no_delimiter c (List.mem_of_getLast? hc)
          exact absurd (Token.Kind.ofChar?_eq_none_iff.mpr hnone) hdelimiter
      | cons d s =>
        refine hlex.of_startsOrdinary (fun e he => he) ?_
        rw [List.cons_append, startsOrdinary_cons_iff, startsOrdinary_cons_iff]
        refine And.imp_right fun hpair e he => hpair e ?_
        rw [List.head?_append, Option.mem_def.mp he, Option.some_or]
        rfl
    rw [List.append_assoc, scan_lexeme hlex', scan_lexeme hlex, byteSize_append, ← Nat.add_assoc,
      List.cons_append]
    by_cases hs : s = []
    · subst hs
      rfl
    · rw [List.getLast?_append_of_ne_nil w hs] at h
      rw [ih h]

theorem IsBlock.delimitsBlock (h : IsBlock (tokensOf block))
    (hlast : ∃ c ∈ block.getLast?, Token.Kind.ofChar? c ≠ none) (after : List Char) :
    DelimitsBlock block after := by
  refine ⟨h, ?_⟩
  rw [BlockTracker.blockText?, tokensOf, Token.scan_append_of_delimiter hlast after, ← tokensOf,
    h.block?_append, Option.map_some, tokensOf, Token.textOf_scan]

/-- A block is one whatever follows it. -/
theorem DelimitsBlock.congr (h : DelimitsBlock block after) (after' : List Char) :
    DelimitsBlock block after' := by
  obtain ⟨inner, hinner⟩ := h.exists_concat
  exact h.1.delimitsBlock ⟨'\x7d', by simp [hinner], by decide⟩ after'

/-! ### Signatures -/

/-- The range, so many bytes further on. -/
def Span.shift (n : Nat) (span : Span) : Span := ⟨n + span.start, n + span.stop⟩

/-- The signature, so many bytes further on. -/
def Signature.shift (n : Nat) (sig : Signature) : Signature := { sig with span := sig.span.shift n }

/-- The production, so many bytes further on. -/
def Production.shift (n : Nat) (p : Production) : Production := { p with span := p.span.shift n }

theorem EndsOutside.append {p : Char → Bool} (ha : EndsOutside p a) (hb : EndsOutside p b) :
    EndsOutside p (a ++ b) := by
  by_cases hnil : b = []
  · rwa [hnil, List.append_nil]
  · rwa [EndsOutside, List.getLast?_append_of_ne_nil a hnil]

theorem EndsOutside.of_append {p : Char → Bool} (h : EndsOutside p (a ++ b)) : EndsOutside p b := by
  by_cases hnil : b = []
  · rw [hnil]
    exact endsOutside_nil
  · rwa [EndsOutside, List.getLast?_append_of_ne_nil a hnil] at h

namespace Signature

/-- A character that may stand in a signature. -/
def isSignatureChar (c : Char) : Bool :=
  isWordChar c || isSpaceChar c || c == '(' || c == ',' || c == ')' || c == ':'

theorem isSignatureChar_of_isWordChar (h : isWordChar c = true) : isSignatureChar c = true := by
  simp [isSignatureChar, h]

theorem isSignatureChar_of_isSpaceChar (h : isSpaceChar c = true) : isSignatureChar c = true := by
  simp [isSignatureChar, h]

variable {m : Match} {sig : Signature}

theorem IsForm.forall_mem {kind name head : List Char} (h : IsForm kind name head) :
    ∀ c ∈ head, isSignatureChar c = true := by
  obtain @⟨pair, gap, arguments, last, hpair, hgap, harguments, hlast⟩ := h
  intro c hc
  simp only [List.mem_append, List.mem_cons, List.not_mem_nil, or_false] at hc
  rcases hc with (((hc | hc) | rfl | hc) | rfl | hc) | rfl
  · exact (hpair.forall_mem c hc).elim isSignatureChar_of_isWordChar isSignatureChar_of_isSpaceChar
  · exact isSignatureChar_of_isSpaceChar (hgap c hc)
  · rfl
  · rcases harguments.forall_mem c hc with hword | hspace | rfl
    · exact isSignatureChar_of_isWordChar hword
    · exact isSignatureChar_of_isSpaceChar hspace
    · rfl
  · rfl
  · exact isSignatureChar_of_isSpaceChar (hlast c hc)
  · rfl

theorem Match.HasForm.forall_mem (h : m.HasForm) : ∀ c ∈ m.text, isSignatureChar c = true := by
  obtain ⟨head, hform, htext | ⟨htext, -⟩⟩ := h
  · intro c hc
    rw [htext] at hc
    rcases List.mem_append.mp hc with hc | hc
    · exact hform.forall_mem c hc
    · obtain rfl := List.mem_singleton.mp hc
      rfl
  · rw [htext]
    exact hform.forall_mem

/-- What follows a signature matters to it only in its first character. -/
theorem Match.HasForm.congr_rest (h : m.HasForm) (hhead : rest.head? = m.rest.head?) :
    ({ m with rest } : Match).HasForm := by
  obtain ⟨head, hform, htext⟩ := h
  refine ⟨head, hform, htext.imp_right (And.imp_right fun hne => ?_)⟩
  rwa [← hhead] at hne

theorem Match.HasForm.isWordChar_of_mem_head? (h : m.HasForm) (rest : List Char) :
    ∀ c ∈ (m.text ++ rest).head?, isWordChar c = true := by
  obtain ⟨pair, gap, tail, newline, ⟨⟨hne, hkind⟩, -, -, -⟩, -, -, -, htext⟩ := h.exists_parts
  obtain ⟨d, kind, heq⟩ := List.exists_cons_of_ne_nil hne
  intro c hc
  rw [htext, heq] at hc
  obtain rfl : d = c := by simpa using hc
  exact hkind d (heq ▸ List.mem_cons_self)

/-- A signature that ends before the end of a text is there whatever follows the text. -/
theorem Occurs.append (h : Occurs a sig) (hlt : sig.span.stop < byteSize a) (b : List Char) :
    Occurs (a ++ b) sig := by
  obtain ⟨before, m, rfl, hform, hends, rfl⟩ := h
  have hne : m.rest ≠ [] := by
    intro hnil
    rw [hnil, List.append_nil] at hlt
    exact Nat.lt_irrefl _ hlt
  refine ⟨before, { m with rest := m.rest ++ b }, by simp, hform.congr_rest ?_, hends, rfl⟩
  rw [List.head?_append_of_ne_nil _ hne]

/-- A signature is there whatever comes before the text, unless a word runs into it. -/
theorem Occurs.prepend (h : Occurs b sig) (hends : EndsOutside isWordChar a) :
    Occurs (a ++ b) (sig.shift (byteSize a)) := by
  obtain ⟨before, m, rfl, hform, hends', rfl⟩ := h
  refine ⟨a ++ before, m, by simp, hform, hends.append hends', ?_⟩
  simp [Match.toSignature, shift, Span.shift]

/-! ### Signatures of two texts -/

/-- No signature runs over the end of the text: it ends in blanks, and what is before them does not
end in a character that may stand in a signature. -/
def Seals (front : List Char) : Prop :=
  ∃ text blanks, front = text ++ blanks ∧ IsBlanks blanks ∧ EndsOutside isSignatureChar text

theorem Seals.append (ha : Seals a) (hb : Seals b) : Seals (a ++ b) := by
  obtain ⟨text, blanks, rfl, hblanks, hends⟩ := hb
  by_cases hnil : text = []
  · -- the end of the first text is still there, before more blanks
    obtain ⟨text', blanks', rfl, hblanks', hends'⟩ := ha
    refine ⟨text', blanks' ++ blanks, by simp [hnil], ?_, hends'⟩
    intro c hc
    exact (List.mem_append.mp hc).elim (hblanks' c) (hblanks c)
  · refine ⟨a ++ text, blanks, by simp, hblanks, ?_⟩
    rwa [EndsOutside, List.getLast?_append_of_ne_nil a hnil]

theorem isBlanks_nil : IsBlanks [] := List.forall_mem_nil _

theorem IsBlanks.seals (h : IsBlanks s) : Seals s := ⟨[], s, rfl, h, endsOutside_nil⟩

theorem Seals.endsOutside (h : Seals a) : EndsOutside isWordChar a := by
  obtain ⟨text, blanks, rfl, hblanks, hends⟩ := h
  refine EndsOutside.append (fun c hc => ?_) fun c hc => ?_
  · by_contra hword
    have hchar := isSignatureChar_of_isWordChar (Bool.not_eq_false _ ▸ hword)
    exact Bool.noConfusion (hchar.symm.trans (hends c hc))
  · exact isWordChar_eq_false_of_isSpaceChar (hblanks c (List.mem_of_getLast? hc))

/-- A signature that starts inside of the text ends inside of it. -/
theorem Seals.exists_append (h : Seals (before ++ s)) (hs : s ≠ []) (hform : m.HasForm)
    (heq : m.text ++ m.rest = s ++ rest) : ∃ z, z ≠ [] ∧ s = m.text ++ z := by
  obtain ⟨text, blanks, hfront, hblanks, hends⟩ := h
  -- the signature starts with a word, and so before the blanks
  obtain ⟨c, s', rfl⟩ := List.exists_cons_of_ne_nil hs
  have hc : isSpaceChar c = false := by
    have hword := hform.isWordChar_of_mem_head? m.rest c (by rw [heq]; rfl)
    exact isSpaceChar_eq_false_of_isWordChar hword
  have hnotBlank : c ∉ blanks := fun hmem => Bool.noConfusion (hc.symm.trans (hblanks c hmem))
  obtain ⟨x, rfl, hx⟩ : ∃ x, text = before ++ x ∧ c :: s' = x ++ blanks := by
    rcases List.append_eq_append_iff.mp hfront with hinside | ⟨x, -, rfl⟩
    · exact hinside
    · exact absurd (by simp) hnotBlank
  have hne : x ≠ [] := by
    rintro rfl
    rw [List.nil_append] at hx
    exact hnotBlank (hx ▸ List.mem_cons_self)
  -- it does not take in the last character before the blanks
  obtain ⟨d, hd⟩ := Option.ne_none_iff_exists'.mp (List.getLast?_eq_none_iff.not.mpr hne)
  have hnotMem : d ∉ m.text := by
    intro hmem
    have hchar := hends.of_append d hd
    exact Bool.noConfusion (hchar.symm.trans (hform.forall_mem d hmem))
  rw [hx, List.append_assoc] at heq
  rcases List.append_eq_append_iff.mp heq with ⟨u, rfl, -⟩ | ⟨u, htext, -⟩
  · refine ⟨u ++ blanks, fun hnil => hnotMem ?_, by rw [hx, List.append_assoc]⟩
    rw [(List.append_eq_nil_iff.mp hnil).1, List.append_nil] at hd
    exact List.mem_of_getLast? hd
  · rw [htext] at hnotMem
    exact absurd (List.mem_append_left u (List.mem_of_getLast? hd)) hnotMem

/-- A signature of the text ends before its end. -/
theorem Seals.stop_lt (h : Seals a) (hsig : Occurs a sig) : sig.span.stop < byteSize a := by
  obtain ⟨before, m, rfl, hform, -, rfl⟩ := hsig
  have hall : m.text ++ m.rest = m.text ++ m.rest ++ [] := (List.append_nil _).symm
  obtain ⟨z, hz, heq⟩ := h.exists_append (by simp [hform.text_ne_nil]) hform hall
  have hpos := byteSize_pos hz
  simp only [Match.toSignature, heq, byteSize_append]
  omega

/-- A signature of two texts stands in one of them. -/
theorem Seals.occurs_append_iff (h : Seals a) :
    Occurs (a ++ b) sig ↔ Occurs a sig ∨ ∃ sig', Occurs b sig' ∧ sig'.shift (byteSize a) = sig := by
  constructor
  · rintro ⟨before, m, htext, hform, hends, rfl⟩
    -- it starts in one of the texts, and if that is the first one it also ends there
    by_cases hle : byteSize a ≤ byteSize before
    · obtain ⟨x, rfl, hb⟩ := exists_append_of_byteSize_le htext hle
      refine .inr ⟨m.toSignature x, ⟨x, m, hb, hform, hends.of_append, rfl⟩, ?_⟩
      simp [Match.toSignature, shift, Span.shift]
    · obtain ⟨s, rfl, hs⟩ := exists_append_of_byteSize_le htext.symm (Nat.le_of_not_le hle)
      have hne : s ≠ [] := by
        rintro rfl
        rw [List.append_nil] at hle
        exact hle (Nat.le_refl _)
      obtain ⟨z, hz, rfl⟩ := h.exists_append hne hform hs
      rw [List.append_assoc, List.append_cancel_left_eq] at hs
      refine .inl ⟨before, { m with rest := z }, rfl, hform.congr_rest ?_, hends, rfl⟩
      rw [hs, List.head?_append_of_ne_nil z hz]
  · rintro (hsig | ⟨sig', hsig', rfl⟩)
    · exact hsig.append (h.stop_lt hsig) b
    · exact hsig'.prepend h.endsOutside

theorem eq_of_pairwise_start {sigs sigs' : List Signature}
    (h : sigs.Pairwise fun a b => a.span.start < b.span.start)
    (h' : sigs'.Pairwise fun a b => a.span.start < b.span.start)
    (hmem : ∀ sig, sig ∈ sigs ↔ sig ∈ sigs') : sigs = sigs' := by
  have : Std.Antisymm fun a b : Signature => a.span.start < b.span.start :=
    ⟨fun _ _ hab hba => absurd hab (Nat.lt_asymm hba)⟩
  have : Std.Irrefl fun a b : Signature => a.span.start < b.span.start :=
    ⟨fun a => Nat.lt_irrefl a.span.start⟩
  exact h.eq_of_mem_iff h' hmem

/-- The signatures of two texts are those of the first one, and those of the second one behind
it. -/
theorem Seals.findAll_append (h : Seals a) (b : List Char) :
    findAll (a ++ b) = findAll a ++ (findAll b).map (shift (byteSize a)) := by
  -- both lists are in the order of the text, so it is enough that they have the same signatures
  refine eq_of_pairwise_start ((findAll_pairwise (a ++ b)).imp And.left)
    (List.pairwise_append.mpr ⟨(findAll_pairwise a).imp And.left, ?_, ?_⟩) ?_
  · refine List.pairwise_map.mpr ((findAll_pairwise b).imp fun hlt => ?_)
    exact Nat.add_lt_add_left hlt.1 (byteSize a)
  · intro sig hsig sig' hsig'
    obtain ⟨sig'', -, rfl⟩ := List.mem_map.mp hsig'
    have hlt := (mem_findAll_iff.mp hsig).start_lt_stop
    have hend := h.stop_lt (mem_findAll_iff.mp hsig)
    simp only [shift, Span.shift]
    omega
  · intro sig
    rw [mem_findAll_iff, h.occurs_append_iff, List.mem_append, mem_findAll_iff, List.mem_map]
    simp only [mem_findAll_iff]

end Signature

/-! ### Productions -/

variable {source : List Char} {sig : Signature} {sigs sigs' : List Signature} {p : Production}
  {ps qs : List Production} {fault : TextFault} {name : String}

namespace Production

/-- A production stays one when the text goes on. -/
theorem IsCapture.append (h : p.IsCapture a sig) (b : List Char) : p.IsCapture (a ++ b) sig := by
  obtain ⟨k, hspan, rfl⟩ := h
  let k' : Capture (a ++ b) :=
    { k with
      after := k.after ++ b
      source_eq := (congrArg (· ++ b) k.source_eq).trans (List.append_assoc _ _ _)
      delimits_initializer := k.delimits_initializer.congr _
      delimits_body := k.delimits_body.congr _ }
  exact ⟨k', hspan, rfl⟩

/-- A production stays one when other text comes before it. -/
theorem IsCapture.prepend (h : p.IsCapture b sig) (a : List Char) :
    (p.shift (byteSize a)).IsCapture (a ++ b) (sig.shift (byteSize a)) := by
  obtain ⟨k, hspan, rfl⟩ := h
  let k' : Capture (a ++ b) :=
    { k with
      before := a ++ k.before
      source_eq := by
        have hsource := congrArg (a ++ ·) k.source_eq
        simpa using hsource }
  refine ⟨k', ?_, ?_⟩
  · simp [k', Signature.shift, Span.shift, hspan]
  · simp [k', shift, Span.shift, Signature.shift, Capture.toProduction, Capture.span, Capture.text]

theorem IsCapture.stop_le_byteSize (h : p.IsCapture source sig) :
    p.span.stop ≤ byteSize source := by
  obtain ⟨before, after, hsource, hspan⟩ := h.holds
  rw [hspan, hsource]
  simp

/-- A signature that starts a production ends before the end of the text. -/
theorem IsCapture.signature_stop_lt (h : p.IsCapture source sig) :
    sig.span.stop < byteSize source := by
  obtain ⟨k, hspan, -⟩ := h
  obtain ⟨inner, hinner⟩ := k.delimits_initializer.exists_cons
  have hsource := congrArg byteSize k.source_eq_head
  have hpos := Char.utf8Size_pos '\x7b'
  simp only [hspan, hinner, byteSize_append, byteSize_cons] at hsource ⊢
  omega

theorem contains_shift_iff {n : Nat} : (p.shift n).Contains (sig.shift n) ↔ p.Contains sig := by
  simp only [Contains, shift, Signature.shift, Span.shift, Nat.add_le_add_iff_left]

theorem Captured.exists_isCapture (h : Captured source sigs ps) :
    ∀ p ∈ ps, ∃ sig ∈ sigs, p.IsCapture source sig := by
  induction h with
  | nil => simp
  | inside _ _ ih =>
    intro p hp
    obtain ⟨sig, hsig, hcapture⟩ := ih p hp
    exact ⟨sig, List.mem_append_left _ hsig, hcapture⟩
  | @next sigs _ sig _ _ _ hcapture ih =>
    intro q hq
    rcases List.mem_append.mp hq with hq | hq
    · obtain ⟨sig', hsig', hcapture'⟩ := ih q hq
      exact ⟨sig', List.mem_append_left _ hsig', hcapture'⟩
    · obtain rfl := List.mem_singleton.mp hq
      exact ⟨sig, by simp, hcapture⟩

theorem Captured.stop_le_byteSize (h : Captured source sigs ps) :
    ∀ p ∈ ps, p.span.stop ≤ byteSize source := by
  intro p hp
  obtain ⟨sig, -, hcapture⟩ := h.exists_isCapture p hp
  exact hcapture.stop_le_byteSize

/-- What has been captured stays so when the text goes on. -/
theorem Captured.append (h : Captured a sigs ps) (b : List Char) : Captured (a ++ b) sigs ps := by
  induction h with
  | nil => exact .nil
  | inside _ hin ih => exact .inside ih hin
  | next _ houtside hcapture ih => exact .next ih houtside (hcapture.append b)

/-- No production of the first of two texts has a signature of the second one inside of it. -/
theorem Captured.not_contains_shift (h : Captured a sigs ps) (hsig : Signature.Occurs b sig) :
    ∀ p ∈ ps, ¬ p.Contains (sig.shift (byteSize a)) := by
  rintro p hp ⟨-, hstop⟩
  have hend := h.stop_le_byteSize p hp
  have hlt := hsig.start_lt_stop
  simp only [Signature.shift, Span.shift] at hstop
  omega

/-- What is captured from two texts, one after the other. -/
theorem Captured.append_shift (h : Captured a sigs ps) (h' : Captured b sigs' qs)
    (hoccurs : ∀ sig ∈ sigs', Signature.Occurs b sig) :
    Captured (a ++ b) (sigs ++ sigs'.map (·.shift (byteSize a)))
      (ps ++ qs.map (·.shift (byteSize a))) := by
  -- one signature of the second text after another
  induction h' with
  | nil => simpa using h.append b
  | inside _ hin ih =>
    rw [List.map_append, List.map_singleton, ← List.append_assoc]
    refine .inside (ih fun sig hsig => hoccurs sig (List.mem_append_left _ hsig)) ?_
    obtain ⟨p, hp, hcontains⟩ := hin
    exact ⟨p.shift (byteSize a), List.mem_append_right _ (List.mem_map_of_mem hp),
      contains_shift_iff.mpr hcontains⟩
  | @next sigs' qs sig q _ houtside hcapture ih =>
    simp only [List.map_append, List.map_singleton, ← List.append_assoc]
    refine .next (ih fun sig hsig => hoccurs sig (List.mem_append_left _ hsig)) ?_
      (hcapture.prepend a)
    -- it is inside of nothing from the first text, and of nothing before it in the second one
    intro p hp
    rcases List.mem_append.mp hp with hp | hp
    · exact h.not_contains_shift (hoccurs sig (by simp)) p hp
    · obtain ⟨p', hp', rfl⟩ := List.mem_map.mp hp
      rw [contains_shift_iff]
      exact houtside p' hp'

end Production

/-! ### Faults -/

/-- The fault, in a text that stands behind the text `front`. -/
def TextFault.behind (front : List Char) : TextFault → TextFault
  | missingBlock production found position =>
    missingBlock production found (position.behind front)
  | unclosedBlock production position => unclosedBlock production (position.behind front)
  | malformedEntry line content => malformedEntry (front.count '\n' + line) content

theorem StandsForBlock.prepend (h : StandsForBlock name before rest fault) (a : List Char) :
    StandsForBlock name (a ++ before) rest (fault.behind a) := by
  cases h with
  | nothing =>
    rw [TextFault.behind, ← Position.after_append]
    exact .nothing
  | token hne hhead =>
    rw [TextFault.behind, ← Position.after_append]
    exact .token hne hhead
  | unclosed hnone =>
    rw [TextFault.behind, ← Position.after_append]
    exact .unclosed hnone

theorem LacksBlock.prepend (h : LacksBlock name before rest fault) (a : List Char) :
    LacksBlock name (a ++ before) rest (fault.behind a) := by
  obtain ⟨blanks, rest', hrest, hblanks, houtside, hstands⟩ := h
  refine ⟨blanks, rest', hrest, hblanks, houtside, ?_⟩
  rw [List.append_assoc]
  exact hstands.prepend a

/-- A signature has the same fault when other text comes before it. -/
theorem Signature.HasFault.prepend (h : sig.HasFault b fault) (a : List Char) :
    (sig.shift (byteSize a)).HasFault (a ++ b) (fault.behind a) := by
  have hspan : ∀ {before head : List Char},
      sig.span = ⟨byteSize before, byteSize (before ++ head)⟩ →
      (sig.shift (byteSize a)).span =
        ⟨byteSize (a ++ before), byteSize (a ++ before ++ head)⟩ := by
    intro before head hspan
    simp [shift, Span.shift, hspan]
  cases h with
  | @initializer before head rest hsource hsig hlacks =>
    have hsource' : a ++ b = a ++ before ++ head ++ rest := by
      rw [hsource]
      simp
    refine .initializer hsource' (hspan hsig) ?_
    rw [List.append_assoc]
    exact hlacks.prepend a
  | @body before head rest gap block after hsource hsig hblock hlacks =>
    have hsource' : a ++ b = a ++ before ++ head ++ rest := by
      rw [hsource]
      simp
    refine .body hsource' (hspan hsig) hblock ?_
    rw [List.append_assoc a, List.append_assoc a]
    exact hlacks.prepend a

end GrammarLayers
