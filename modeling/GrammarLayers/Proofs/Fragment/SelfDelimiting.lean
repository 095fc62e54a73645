import GrammarLayers.Proofs.Fragment.Outcome
import GrammarLayers.Proofs.Fragment.Surroundings

/-!
# Productions by themselves

The text of a production holds all that is needed to read it again, and says by itself where it
ends. It starts with the signature, and so the signature is the first one of this text; its second
block ends with it; and every other signature in it lies inside. If a part of it is missing at the
end, one of the blocks is missing or stays open, and the production is reported as such.

## Main definitions

* `Production.alone` — a production as it is read from its own text
* `Production.StandsAlone` — the text of a production starts with its signature, which captures all
  of it
* `Production.HasSignature` — a text starts with the signature of a production
* `TextFault.LacksBlockOf` — the fault is that a production lacks a block

## Main results

* `IsCapture.standsAlone` — what is read stands alone
* `StandsAlone.readAll_eq` — the text of a production is read as this production
* `StandsAlone.readAll_cut` — a part of that text is not
* `readAll_self_delimiting` — both, for the productions of a text, and that no production starts
  with another one
-/

namespace GrammarLayers

variable {source text cut : List Char} {sig sig' : Signature} {p q : Production}
  {ps : List Production} {fault : TextFault}

/-! ### The first signature of a text -/

namespace Signature

theorem Occurs.stop_le_byteSize (h : Occurs text sig) : sig.span.stop ≤ byteSize text := by
  obtain ⟨before, m, rfl, -, -, rfl⟩ := h
  simp only [Match.toSignature, byteSize_append]
  omega

/-- A signature that stands at the start of a text is its first one. -/
theorem Occurs.exists_findAll_eq_cons (h : Occurs text sig) (hstart : sig.span.start = 0) :
    ∃ rest, findAll text = sig :: rest := by
  obtain ⟨before, rest, hall⟩ := List.append_of_mem (mem_findAll_iff.mpr h)
  cases before with
  | nil => exact ⟨rest, hall⟩
  | cons sig' before =>
    -- a signature before it would have to start before the text does
    have hordered := findAll_pairwise text
    rw [hall, List.cons_append, List.pairwise_cons] at hordered
    have hlt := (hordered.1 sig (by simp)).1
    omega

theorem Occurs.eq_of_start_eq_zero (h : Occurs text sig) (h' : Occurs text sig')
    (hstart : sig.span.start = 0) (hstart' : sig'.span.start = 0) : sig = sig' := by
  obtain ⟨rest, hall⟩ := h.exists_findAll_eq_cons hstart
  obtain ⟨rest', hall'⟩ := h'.exists_findAll_eq_cons hstart'
  exact (List.cons.inj (hall.symm.trans hall')).1

end Signature

/-! ### The text of a production -/

/-- The fault is that the production of this name lacks a block, or has one that stays open. -/
inductive TextFault.LacksBlockOf (name : String) : TextFault → Prop
  | missing (found : Found) (position : Position) :
    LacksBlockOf name (.missingBlock name found position)
  | unclosed (position : Position) : LacksBlockOf name (.unclosedBlock name position)

theorem Signature.HasFault.lacksBlockOf (h : sig.HasFault source fault) :
    fault.LacksBlockOf sig.name := by
  have hlacks : ∀ {before rest : List Char}, LacksBlock sig.name before rest fault →
      fault.LacksBlockOf sig.name := by
    rintro before rest ⟨blanks, rest', -, -, -, hstands⟩
    cases hstands with
    | nothing | token => exact .missing _ _
    | unclosed => exact .unclosed _
  cases h with
  | initializer _ _ h => exact hlacks h
  | body _ _ _ h => exact hlacks h

/-- The parts of a production, in the text of this production. -/
def Capture.alone (k : Capture source) : Capture k.text where
  before := []
  head := k.head
  gap := k.gap
  initializer := k.initializer
  gap' := k.gap'
  body := k.body
  after := []
  source_eq := by simp [Capture.text]
  isBlanks_gap := k.isBlanks_gap
  delimits_initializer := k.delimits_initializer.congr _
  isBlanks_gap' := k.isBlanks_gap'
  delimits_body := k.delimits_body.congr _

namespace Production

/-- The production as it is read from its own text. -/
def alone (p : Production) : Production :=
  { p with span := ⟨0, byteSize p.text.toList⟩, origin := none }

@[simp] theorem alone_name (p : Production) : p.alone.name = p.name := rfl

@[simp] theorem alone_kind (p : Production) : p.alone.kind = p.kind := rfl

/-- The text of the production starts with a signature that starts this production, and nothing
comes after it. -/
def StandsAlone (p : Production) : Prop :=
  ∃ sig, Signature.Occurs p.text.toList sig ∧ p.alone.IsCapture p.text.toList sig

/-- The text starts with the signature of the production, at least up to its colon. -/
def HasSignature (p : Production) (text : List Char) : Prop :=
  ∃ head, Signature.IsForm p.kind.toList p.name.toList head ∧ head <+: text

/-- A production that stands in some text stands alone. -/
theorem IsCapture.standsAlone (h : p.IsCapture source sig) (hsig : Signature.Occurs source sig) :
    p.StandsAlone := by
  obtain ⟨k, hspan, rfl⟩ := h
  obtain ⟨start, m, htext, hform, -, rfl⟩ := hsig
  rw [← List.append_assoc] at htext
  obtain ⟨rfl, hhead, hrest⟩ := append_inj_of_span_eq (htext.symm.trans k.source_eq_head) hspan
  have htoList : (k.toProduction (m.toSignature k.before)).text.toList = k.text :=
    String.toList_ofList
  -- the signature is the same one in front of its blocks only
  let m' : Signature.Match := { m with rest := k.gap ++ k.initializer ++ (k.gap' ++ k.body) }
  have hform' : m'.HasForm := by
    obtain ⟨inner, hinner⟩ := k.delimits_initializer.exists_cons
    refine hform.congr_rest ?_
    rw [hrest, hinner]
    cases k.gap <;> rfl
  have hspan' : (m'.toSignature []).span = ⟨byteSize [], byteSize ([] ++ k.head)⟩ := by
    rw [← hhead]
    rfl
  refine ⟨m'.toSignature [], ⟨[], m', ?_, hform', endsOutside_nil, rfl⟩, ?_⟩
  · rw [htoList, Capture.text, ← hhead]
    simp [m']
  · rw [htoList]
    refine ⟨k.alone, hspan', ?_⟩
    simp only [alone, htoList]
    rfl

theorem StandsAlone.of_mem (hread : readAll source = .ok ps) (hp : p ∈ ps) : p.StandsAlone := by
  obtain ⟨sig, hsig, hcapture⟩ := (readAll_eq_ok_iff.mp hread).exists_isCapture p hp
  exact hcapture.standsAlone (Signature.mem_findAll_iff.mp hsig)

/-- The text of a production is read as this production. -/
theorem StandsAlone.readAll_eq (h : p.StandsAlone) : readAll p.text.toList = .ok [p.alone] := by
  obtain ⟨sig, hsig, hcapture⟩ := h
  obtain ⟨rest, hall⟩ := hsig.exists_findAll_eq_cons hcapture.start_eq.symm
  have hfirst : Captured p.text.toList ([] ++ [sig]) ([] ++ [p.alone]) :=
    .next .nil (by simp) hcapture
  rw [readAll_eq_ok_iff, hall]
  -- the other signatures lie inside, as there is nothing but the production
  refine hfirst.append_of_contains fun sig' hsig' => ⟨p.alone, by simp, Nat.zero_le _, ?_⟩
  have hmem : sig' ∈ Signature.findAll p.text.toList := hall ▸ List.mem_cons_of_mem sig hsig'
  exact (Signature.mem_findAll_iff.mp hmem).stop_le_byteSize

/-- Where the text of a production, or a part of it, starts with a production, it is this one. -/
theorem StandsAlone.eq_alone (h : p.StandsAlone) (hpart : text <+: p.text.toList)
    (hsig : Signature.Occurs text sig) (hstart : sig.span.start = 0)
    (hcapture : q.IsCapture text sig) : q = p.alone := by
  obtain ⟨sig', hsig', hcapture'⟩ := h
  obtain ⟨b, hb⟩ := hpart
  -- both the signature and what it starts are still there in the longer text
  have hoccurs := hsig.append hcapture.signature_stop_lt b
  have hlonger := hcapture.append b
  rw [hb] at hoccurs hlonger
  obtain rfl := hoccurs.eq_of_start_eq_zero hsig' hstart hcapture'.start_eq.symm
  exact hlonger.unique hcapture'

/-- The text of a production does not start with that of another one. -/
theorem StandsAlone.text_eq (hp : p.StandsAlone) (hq : q.StandsAlone)
    (hpart : p.text.toList <+: q.text.toList) : p.text = q.text := by
  obtain ⟨sig, hsig, hcapture⟩ := hp
  have halone := hq.eq_alone hpart hsig hcapture.start_eq.symm hcapture
  have htext : p.alone.text = q.alone.text := by rw [halone]
  exact htext

theorem IsCapture.words_eq (h : p.IsCapture source sig) :
    p.kind = sig.kind ∧ p.name = sig.name := by
  obtain ⟨k, -, rfl⟩ := h
  exact ⟨rfl, rfl⟩

theorem IsCapture.origin_eq (h : p.IsCapture source sig) : p.origin = none := by
  obtain ⟨k, -, rfl⟩ := h
  rfl

theorem StandsAlone.hasSignature (h : p.StandsAlone) : p.HasSignature p.text.toList := by
  obtain ⟨sig, ⟨before, m, htext, ⟨head, hform, hhead⟩, -, rfl⟩, hcapture⟩ := h
  have hstart : byteSize before = 0 := hcapture.start_eq.symm
  obtain rfl := byteSize_eq_zero_iff.mp hstart
  obtain ⟨hkind, hname⟩ := hcapture.words_eq
  have hform' : Signature.IsForm p.kind.toList p.name.toList head := by
    rw [← alone_kind, ← alone_name, hkind, hname]
    simpa [Signature.Match.toSignature] using hform
  refine ⟨head, hform', ?_⟩
  rw [htext]
  rcases hhead with hhead | ⟨hhead, -⟩
  · simp [hhead]
  · simp [hhead]

theorem HasSignature.exists_occurs (h : p.HasSignature text) :
    ∃ sig : Signature, Signature.Occurs text sig ∧ sig.span.start = 0 ∧ sig.name = p.name := by
  obtain ⟨head, hform, rest, rfl⟩ := h
  obtain ⟨hmatch, htext⟩ := Signature.match?_eq_some_iff.mp (Signature.match?_append hform rest)
  exact ⟨_, ⟨[], _, htext, hmatch, endsOutside_nil, rfl⟩, rfl, String.ofList_toList⟩

/-- Where a part of the text is missing at the end, and the signature is not, the production lacks a
block. -/
theorem StandsAlone.readAll_cut (h : p.StandsAlone) (hsignature : p.HasSignature cut)
    (hpart : cut <+: p.text.toList) (hne : cut ≠ p.text.toList) :
    ∃ fault, readAll cut = .error fault ∧ fault.LacksBlockOf p.name := by
  obtain ⟨sig, hsig, hstart, hname⟩ := hsignature.exists_occurs
  have hnone : ∀ q : Production, ¬ q.IsCapture cut sig := by
    intro q hcapture
    -- it would be the whole production, and so the whole text
    obtain rfl := h.eq_alone hpart hsig hstart hcapture
    have hstop : byteSize p.text.toList ≤ byteSize cut := hcapture.stop_le_byteSize
    obtain ⟨missing, hmissing⟩ := hpart
    have hsize := congrArg byteSize hmissing
    rw [byteSize_append] at hsize
    have hnil : missing = [] := byteSize_eq_zero_iff.mp (by omega)
    rw [hnil, List.append_nil] at hmissing
    exact hne hmissing
  obtain ⟨rest, hall⟩ := hsig.exists_findAll_eq_cons hstart
  have hfirst : sig.IsFirstUnfollowed cut := ⟨[], rest, [], hall, .nil, by simp, hnone⟩
  rcases readAll_captured_or_error cut with
    ⟨ps, -, hcaptured⟩ | ⟨fault, sig', hread, hfirst', hfault⟩
  · exact absurd hcaptured (not_captured_of_isFirstUnfollowed hfirst)
  · obtain rfl := hfirst.unique hfirst'
    exact ⟨fault, hread, hname ▸ hfault.lacksBlockOf⟩

/-- Every production of a text can be read from its own text, and only its span is then another one.
From any shorter part of that text that has the signature in it nothing is read, because a block of
this production is missing or stays open. And so no production starts with another one, of the same
text or of any other. -/
theorem readAll_self_delimiting (source : List Char) (ps : List Production)
    (hread : readAll source = .ok ps) :
    ∀ p ∈ ps,
      readAll p.text.toList = .ok [{ p with span := ⟨0, byteSize p.text.toList⟩ }] ∧
      p.HasSignature p.text.toList ∧
      (∀ cut, p.HasSignature cut → cut <+: p.text.toList → cut ≠ p.text.toList →
        ∃ fault, readAll cut = .error fault ∧ fault.LacksBlockOf p.name) ∧
      ∀ source' ps', readAll source' = .ok ps' → ∀ q ∈ ps', p.text.toList <+: q.text.toList →
        p.text = q.text := by
  intro p hp
  have hstands := StandsAlone.of_mem hread hp
  obtain ⟨sig, -, hcapture⟩ := (readAll_eq_ok_iff.mp hread).exists_isCapture p hp
  have halone : p.alone = { p with span := ⟨0, byteSize p.text.toList⟩ } := by
    rw [alone, hcapture.origin_eq]
  refine ⟨halone ▸ hstands.readAll_eq, hstands.hasSignature, fun cut => hstands.readAll_cut, ?_⟩
  intro source' qs hread' q hq
  exact hstands.text_eq (.of_mem hread' hq)

/-- The body is a comment with another signature in it. The part that is read ends in the middle of
the marker that closes the comment. -/
theorem readAll_self_delimiting_quoted :
    let text := commentedProduction.toList
    let p : Production := ⟨"A", "T", commentedProduction, ⟨3, 23⟩, none⟩
    readAll ("\u00e9/".toList ++ text) = .ok [p] ∧
      readAll text = .ok [{ p with span := ⟨0, 20⟩ }] ∧
      ∃ fault, readAll (text.take 18) = .error fault ∧ fault.LacksBlockOf "A" := by
  intro text p
  have hread : readAll ("\u00e9/".toList ++ text) = .ok [p] := by
    decide +kernel
  have hmatch : Signature.match? (text.take 18) =
      some ⟨['T'], ['A'], text.take 6, (text.take 18).drop 6⟩ := rfl
  have hsignature : p.HasSignature (text.take 18) := by
    obtain ⟨head, rest, hform, hcut, -⟩ := Signature.match?_eq_some hmatch
    exact ⟨head, by simpa [p] using hform, rest, hcut.symm⟩
  obtain ⟨halone, -, hcut, -⟩ := readAll_self_delimiting _ _ hread p List.mem_cons_self
  have hshorter : text.take 18 ≠ text := by decide
  have hsize : byteSize p.text.toList = 20 := by decide
  rw [hsize] at halone
  exact ⟨hread, halone, hcut (text.take 18) hsignature (List.take_prefix 18 text) hshorter⟩

end Production

end GrammarLayers
