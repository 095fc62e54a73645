import GrammarLayers.Proofs.Fragment.Alignment

/-!
# The productions of a text

Every production that is read from a text is a signature of the text, and after it two blocks
with blanks before each. No signature is lost: where none starts a production of its own, it lies
inside of one, because a signature has no closing brace in it and so does not reach beyond the
end of a block that it starts in.

## Main definitions

* `Capture` — a text cut at the parts of a production
* `Capture.toProduction` — the production with these parts
* `Production.IsCapture` — the production that a signature starts
* `Production.Covers` — productions that leave none of some signatures out

## Main results

* `read_eq_ok` — what is read at a signature is the production that it starts
* `IsCapture.stop_le` — no signature reaches beyond the end of a production it starts in
* `Covers.skip`, `Covers.cons` — what one signature adds
* `readFrom_eq_ok` — the productions read from some place on cover the signatures there
* `readAll_captures` — the productions of a text, and where its signatures are among them
-/

namespace GrammarLayers

/-- A text cut at the parts of a production: a signature, and two blocks with blanks before
each. -/
structure Capture (source : List Char) where
  before : List Char
  head : List Char
  gap : List Char
  initializer : List Char
  gap' : List Char
  body : List Char
  after : List Char
  source_eq : source = before ++ (head ++ (gap ++ initializer) ++ (gap' ++ body)) ++ after
  isBlanks_gap : Signature.IsBlanks gap
  delimits_initializer : DelimitsBlock initializer (gap' ++ body ++ after)
  isBlanks_gap' : Signature.IsBlanks gap'
  delimits_body : DelimitsBlock body after

namespace Capture

variable {source : List Char} {sig : Signature}

def text (k : Capture source) : List Char :=
  k.head ++ (k.gap ++ k.initializer) ++ (k.gap' ++ k.body)

def span (k : Capture source) : Span := ⟨byteSize k.before, byteSize (k.before ++ k.text)⟩

/-- The production with these parts and the words of a signature. -/
def toProduction (k : Capture source) (sig : Signature) : Production :=
  { name := sig.name, kind := sig.kind, text := String.ofList k.text, span := k.span }

theorem holds (k : Capture source) : k.span.Holds source k.text :=
  ⟨k.before, k.after, k.source_eq, rfl⟩

/-- A production ends in the closing brace of its second block. -/
theorem exists_closeBrace (k : Capture source) :
    ∃ a b, source = a ++ ['\x7d'] ++ b ∧ k.span.stop = byteSize (a ++ ['\x7d']) ∧
      k.span.start ≤ byteSize a := by
  obtain ⟨inner, hinner⟩ := k.delimits_body.exists_concat
  have htext : k.text = k.head ++ (k.gap ++ k.initializer) ++ (k.gap' ++ inner) ++ ['\x7d'] := by
    simp [text, hinner]
  refine ⟨k.before ++ (k.head ++ (k.gap ++ k.initializer) ++ (k.gap' ++ inner)), k.after, ?_, ?_,
    ?_⟩
  · rw [List.append_assoc k.before, ← htext]
    exact k.source_eq
  · rw [List.append_assoc k.before, ← htext]
    rfl
  · rw [byteSize_append]
    exact Nat.le_add_right _ _

end Capture

/-- The production is the one that the signature starts: its parts follow the signature in the
text. -/
def Production.IsCapture (source : List Char) (sig : Signature) (p : Production) : Prop :=
  ∃ k : Capture source, sig.span = ⟨byteSize k.before, byteSize (k.before ++ k.head)⟩ ∧
    p = k.toProduction sig

/-- A computation that succeeds after another one was given the result of that one. -/
theorem exists_of_bind_eq_ok {ε α β : Type} {x : Except ε α} {f : α → Except ε β} {b : β}
    (h : x >>= f = .ok b) : ∃ a, x = .ok a ∧ f a = .ok b := by
  cases x with
  | error e => cases h
  | ok a => exact ⟨a, rfl, h⟩

/-! ### Cuts at a signature -/

/-- No marker reaches into a signature. -/
theorem Signature.Match.HasForm.ofPair?_start {m : Signature.Match} (h : m.HasForm) {d : Char}
    (hd : d ∈ (m.text ++ m.rest).head?) (c : Char) : Token.Kind.ofPair? c d = none := by
  obtain ⟨pair, gap, tail, newline, ⟨⟨hne, hkind⟩, -, -, -⟩, -, -, -, htext⟩ := h.exists_parts
  obtain ⟨e, kind, heq⟩ := List.exists_cons_of_ne_nil hne
  have hword : isWordChar d = true := by
    rw [htext, heq] at hd
    obtain rfl : e = d := by simpa using hd
    exact hkind e (heq ▸ List.mem_cons_self)
  by_contra hpair
  obtain ⟨kind', hpair⟩ := Option.ne_none_iff_exists'.mp hpair
  rcases Token.Kind.ofPair?_eq_some_iff.mp hpair with ⟨-, rfl, -⟩ | ⟨-, rfl, -⟩ | ⟨-, rfl, -⟩ <;>
    exact absurd hword (by decide)

/-- No marker reaches out of a signature. -/
theorem Signature.Match.HasForm.ofPair?_stop {m : Signature.Match} (h : m.HasForm) {c : Char}
    (hc : c ∈ m.text.getLast?) (d : Char) : Token.Kind.ofPair? c d = none := by
  have hlast : c = ':' ∨ c = '\n' := h.eq_of_mem_getLast? hc
  by_contra hpair
  obtain ⟨kind, hpair⟩ := Option.ne_none_iff_exists'.mp hpair
  rcases Token.Kind.ofPair?_eq_some_iff.mp hpair with ⟨rfl, -⟩ | ⟨rfl, -⟩ | ⟨rfl, -⟩ <;>
    exact absurd hlast (by decide)

theorem Signature.Match.HasForm.closeBrace_notMem {m : Signature.Match} (h : m.HasForm) :
    '\x7d' ∉ m.text := by
  obtain ⟨pair, gap, tail, newline, hpair, hgap, htail, hnewline, htext⟩ := h.exists_parts
  intro hmem
  simp only [htext, List.mem_append, List.mem_cons] at hmem
  -- words, blanks, the parenthesis, the arguments, the colon and the newline
  rcases hmem with ((hmem | hmem) | hmem | hmem) | hmem | hmem
  · exact absurd (hpair.forall_mem _ hmem) (by decide)
  · exact absurd (hgap _ hmem) (by decide)
  · exact absurd hmem (by decide)
  · exact (htail _ hmem).2 rfl
  · exact absurd hmem (by decide)
  · rcases hnewline with rfl | rfl
    · cases hmem
    · exact absurd (List.mem_singleton.mp hmem) (by decide)

namespace Production

variable {source before rest : List Char} {sig sig' : Signature} {p q : Production}
  {c c' : Cursor} {sigs : List Signature} {ps : List Production}

/-! ### One production -/

/-- What is read at a signature is the production that it starts, and the cursor then stands
behind it. -/
theorem read_eq_ok (hsig : Signature.Occurs source sig) (hsource : source = before ++ rest)
    (hstands : c.StandsAt before rest) (hle : byteSize before ≤ sig.span.start)
    (hread : read source sig c = .ok (p, c')) :
    p.IsCapture source sig ∧ ∃ before' rest', source = before' ++ rest' ∧
      c'.StandsAt before' rest' ∧ byteSize before' = p.span.stop := by
  obtain ⟨start, m, htext, hform, -, rfl⟩ := hsig
  -- up to the signature, over it, and then the two blocks
  obtain ⟨skipped, rfl, rfl⟩ := exists_append_of_byteSize_le (hsource.symm.trans htext) hle
  obtain ⟨c₁, hskip, hstart⟩ := hstands.takeTo_eq fun x _ y hy => hform.ofPair?_start hy x
  obtain ⟨c₂, htake, hstop⟩ := hstart.takeTo_eq fun x hx y _ => hform.ofPair?_stop hx y
  simp only [read, Signature.Match.toSignature, hskip, htake] at hread
  obtain ⟨⟨text, c₃⟩, hreadInitializer, hread⟩ := exists_of_bind_eq_ok hread
  obtain ⟨⟨text', c₄⟩, hreadBody, hread⟩ := exists_of_bind_eq_ok hread
  obtain ⟨rfl, rfl⟩ := Prod.mk.inj (Except.ok.inj hread)
  obtain ⟨blanks, initializer, rest₁, hrest, hblanks, hinitializer, rfl, hstands₁⟩ :=
    readBlock_eq_ok hstop hreadInitializer
  obtain ⟨blanks', body, after, rfl, hblanks', hbody, rfl, hstands₂⟩ :=
    readBlock_eq_ok hstands₁ hreadBody
  have hsource' : source =
      before ++ skipped ++ (m.text ++ (blanks ++ initializer) ++ (blanks' ++ body)) ++ after := by
    rw [htext, hrest]
    simp
  let k : Capture source := ⟨before ++ skipped, m.text, blanks, initializer, blanks', body, after,
    hsource', hblanks, hinitializer, hblanks', hbody⟩
  have hoffset : c₄.offset = byteSize (k.before ++ k.text) := by
    rw [hstands₂.offset_eq]
    simp [k, Capture.text]
  refine ⟨⟨k, rfl, ?_⟩, _, after, ?_, hstands₂, ?_⟩
  · rw [hoffset]
    rfl
  · rw [hsource']
    simp
  · exact hstands₂.offset_eq.symm

theorem IsCapture.start_eq (h : p.IsCapture source sig) : p.span.start = sig.span.start := by
  obtain ⟨k, hspan, rfl⟩ := h
  rw [hspan]
  rfl

theorem IsCapture.holds (h : p.IsCapture source sig) : p.span.Holds source p.text.toList := by
  obtain ⟨k, -, rfl⟩ := h
  simpa [Capture.toProduction] using k.holds

theorem IsCapture.start_lt_stop (h : p.IsCapture source sig) : p.span.start < p.span.stop := by
  obtain ⟨k, -, rfl⟩ := h
  obtain ⟨a, b, -, hstop, hstart⟩ := k.exists_closeBrace
  have hsize : byteSize ['\x7d'] = 1 := by decide
  have hlt : k.span.start < k.span.stop := by
    rw [hstop, byteSize_append, hsize]
    omega
  exact hlt

/-- No signature reaches beyond the end of a production that it starts in. -/
theorem IsCapture.stop_le (h : p.IsCapture source sig) (hsig : Signature.Occurs source sig')
    (hlt : sig'.span.start < p.span.stop) : sig'.span.stop ≤ p.span.stop := by
  obtain ⟨k, -, rfl⟩ := h
  obtain ⟨a, b, hsource, hstop, -⟩ := k.exists_closeBrace
  obtain ⟨start, m, htext, hform, -, rfl⟩ := hsig
  have hstop' : (k.toProduction sig).span.stop = byteSize (a ++ ['\x7d']) := hstop
  rw [hstop'] at hlt ⊢
  exact byteSize_le_of_notMem (hsource.symm.trans htext) hform.closeBrace_notMem hlt

/-! ### All productions of a text -/

/-- From some place on, the productions are ones that the signatures start, in order, and each
signature from there on starts one of them or lies inside of one. -/
structure Covers (source : List Char) (offset : Nat) (sigs : List Signature)
    (ps : List Production) : Prop where
  captures : ∀ p ∈ ps, offset ≤ p.span.start ∧ ∃ sig ∈ sigs, p.IsCapture source sig
  pairwise : ps.Pairwise fun p q => p.span.stop ≤ q.span.start
  covers : ∀ sig ∈ sigs, sig.span.start < offset ∨ (∃ p ∈ ps, p.IsCapture source sig) ∨
    ∃ p ∈ ps, p.span.start < sig.span.start ∧ sig.span.stop ≤ p.span.stop

/-- A signature that the cursor is already beyond is passed over. -/
theorem Covers.skip {offset : Nat} (h : Covers source offset sigs ps)
    (hbehind : sig.span.start < offset) : Covers source offset (sig :: sigs) ps where
  captures p hp := by
    obtain ⟨hle, sig', hsig', hcapture⟩ := h.captures p hp
    exact ⟨hle, sig', List.mem_cons_of_mem sig hsig', hcapture⟩
  pairwise := h.pairwise
  covers := List.forall_mem_cons.mpr ⟨.inl hbehind, h.covers⟩

/-- After a production, the signatures that start before its end lie inside of it. -/
theorem Covers.cons {offset : Nat} (h : Covers source p.span.stop sigs ps)
    (hcapture : p.IsCapture source sig) (hle : offset ≤ sig.span.start)
    (hoccurs : ∀ sig' ∈ sigs, Signature.Occurs source sig')
    (hafter : ∀ sig' ∈ sigs, sig.span.start < sig'.span.start) :
    Covers source offset (sig :: sigs) (p :: ps) where
  captures := by
    rw [List.forall_mem_cons, hcapture.start_eq]
    refine ⟨⟨hle, sig, List.mem_cons_self, hcapture⟩, ?_⟩
    intro q hq
    obtain ⟨hstop, sig', hsig', hcapture'⟩ := h.captures q hq
    have hstart := hcapture.start_eq
    have hlt := hcapture.start_lt_stop
    exact ⟨by omega, sig', List.mem_cons_of_mem sig hsig', hcapture'⟩
  pairwise := .cons (fun q hq => (h.captures q hq).1) h.pairwise
  covers := by
    rw [List.forall_mem_cons]
    refine ⟨.inr (.inl ⟨p, List.mem_cons_self, hcapture⟩), ?_⟩
    intro sig' hsig'
    rcases h.covers sig' hsig' with hlt | ⟨q, hq, hcapture'⟩ | ⟨q, hq, hinside⟩
    -- a signature behind the cursor has started after this one, and ends before the cursor
    · refine .inr (.inr ⟨p, List.mem_cons_self, ?_, ?_⟩)
      · rw [hcapture.start_eq]
        exact hafter sig' hsig'
      · exact hcapture.stop_le (hoccurs sig' hsig') hlt
    · exact .inr (.inl ⟨q, List.mem_cons_of_mem p hq, hcapture'⟩)
    · exact .inr (.inr ⟨q, List.mem_cons_of_mem p hq, hinside⟩)

/-- The productions read from some place on cover the signatures from there on. -/
theorem readFrom_eq_ok (hoccurs : ∀ sig ∈ sigs, Signature.Occurs source sig)
    (hordered : sigs.Pairwise fun a b => a.span.start < b.span.start)
    (hsource : source = before ++ rest) (hstands : c.StandsAt before rest)
    (hread : readFrom source sigs c = .ok ps) : Covers source (byteSize before) sigs ps := by
  induction sigs generalizing before rest c ps with
  | nil =>
    obtain rfl := Except.ok.inj hread
    exact ⟨by simp, .nil, by simp⟩
  | cons sig sigs ih =>
    obtain ⟨hsig, hoccurs⟩ := List.forall_mem_cons.mp hoccurs
    obtain ⟨hafter, hordered⟩ := List.pairwise_cons.mp hordered
    rw [readFrom] at hread
    split at hread
    · next hbehind =>
      -- the cursor is past the start of the signature, which is left out
      rw [hstands.offset_eq] at hbehind
      exact (ih hoccurs hordered hsource hstands hread).skip hbehind
    · next hahead =>
      rw [hstands.offset_eq, Nat.not_lt] at hahead
      obtain ⟨⟨p, c'⟩, hreadOne, hread⟩ := exists_of_bind_eq_ok hread
      obtain ⟨qs, hreadRest, hread⟩ := exists_of_bind_eq_ok hread
      obtain rfl := Except.ok.inj hread
      obtain ⟨hcapture, before', rest', hsource', hstands', hstop⟩ :=
        read_eq_ok hsig hsource hstands hahead hreadOne
      have hrest := ih hoccurs hordered hsource' hstands' hreadRest
      rw [hstop] at hrest
      exact hrest.cons hcapture hahead hoccurs hafter

/-- The productions of a text cover its signatures. -/
theorem covers_of_readAll (h : readAll source = .ok ps) :
    Covers source 0 (Signature.findAll source) ps :=
  readFrom_eq_ok (fun _ hsig => Signature.mem_findAll_iff.mp hsig)
    ((Signature.findAll_pairwise source).imp And.left) (List.nil_append source).symm
    (Cursor.standsAt_ofText source) h

/-- In productions that follow one another, at most one starts at any place. -/
theorem countP_start_eq_one (hordered : ps.Pairwise fun p q => p.span.start < q.span.start)
    (hp : p ∈ ps) : ps.countP (·.span.start = p.span.start) = 1 := by
  obtain ⟨l, r, rfl⟩ := List.append_of_mem hp
  obtain ⟨-, hr, hl⟩ := List.pairwise_append.mp hordered
  have hnone : ∀ qs : List Production, (∀ q ∈ qs, q.span.start ≠ p.span.start) →
      qs.countP (·.span.start = p.span.start) = 0 := fun qs hqs =>
    List.countP_eq_zero.mpr fun q hq => by simpa using hqs q hq
  rw [List.countP_append, List.countP_cons, hnone l, hnone r]
  · simp
  · intro q hq
    exact Nat.ne_of_gt ((List.pairwise_cons.mp hr).1 q hq)
  · intro q hq
    exact Nat.ne_of_lt (hl q hq p List.mem_cons_self)

/-- The productions of a text follow one another, each is what stands in the text at its span,
a signature and two blocks, and each signature of the text starts exactly one of them or lies
inside of one. -/
theorem readAll_captures (source : List Char) (ps : List Production)
    (h : readAll source = .ok ps) :
    (ps.Pairwise fun p q => p.span.start < q.span.start ∧ p.span.stop ≤ q.span.start) ∧
    (∀ p ∈ ps, p.span.start < p.span.stop ∧ p.span.Holds source p.text.toList ∧
      ∃ sig ∈ Signature.findAll source, sig.span.start = p.span.start ∧
        p.IsCapture source sig) ∧
    ∀ sig ∈ Signature.findAll source,
      ps.countP (·.span.start = sig.span.start) = 1 ∨
        ∃ p ∈ ps, p.span.start < sig.span.start ∧ sig.span.stop ≤ p.span.stop := by
  have hcovers : Covers source (byteSize []) (Signature.findAll source) ps :=
    readFrom_eq_ok (fun sig hsig => Signature.mem_findAll_iff.mp hsig)
      ((Signature.findAll_pairwise source).imp And.left) (List.nil_append source).symm
      (Cursor.standsAt_ofText source) h
  have hordered : ps.Pairwise fun p q =>
      p.span.start < q.span.start ∧ p.span.stop ≤ q.span.start := by
    refine hcovers.pairwise.imp_of_mem ?_
    intro p q hp _ hle
    obtain ⟨-, sig, -, hcapture⟩ := hcovers.captures p hp
    exact ⟨Nat.lt_of_lt_of_le hcapture.start_lt_stop hle, hle⟩
  refine ⟨hordered, ?_, ?_⟩
  · intro p hp
    obtain ⟨-, sig, hsig, hcapture⟩ := hcovers.captures p hp
    exact ⟨hcapture.start_lt_stop, hcapture.holds, sig, hsig, hcapture.start_eq.symm, hcapture⟩
  · intro sig hsig
    -- no signature is behind the start of the text
    rcases hcovers.covers sig hsig with hbehind | ⟨p, hp, hcapture⟩ | hinside
    · exact absurd hbehind (Nat.not_lt_zero _)
    · rw [← hcapture.start_eq]
      exact .inl (countP_start_eq_one (hordered.imp And.left) hp)
    · exact .inr hinside

/-- A production with another signature in a comment of its body. -/
def commentedProduction : String := "T A():\x7b\x7d\x7b/*T B():*/\x7d"

/-- The first signature stands right after ordinary text, in the middle of a token; the second
one is in a comment of the body. -/
theorem readAll_captures_quoted :
    let source := "\u00e9/".toList ++ commentedProduction.toList
    let p : Production := ⟨"A", "T", commentedProduction, ⟨3, 23⟩, none⟩
    readAll source = .ok [p] ∧ p.span.Holds source p.text.toList ∧
      ∃ q ∈ [p], q.span.start < 14 ∧ 20 ≤ q.span.stop := by
  intro source p
  have hread : readAll source = .ok [p] := by
    decide +kernel
  have hfind : Signature.findAll source = [⟨"A", "T", ⟨3, 9⟩⟩, ⟨"B", "T", ⟨14, 20⟩⟩] := by
    decide +kernel
  obtain ⟨-, hps, hsigs⟩ := readAll_captures source [p] hread
  refine ⟨hread, (hps p List.mem_cons_self).2.1, ?_⟩
  rcases hsigs ⟨"B", "T", ⟨14, 20⟩⟩ (by simp [hfind]) with hstarts | hinside
  · exact absurd hstarts (by decide)
  · exact hinside

end Production

end GrammarLayers
