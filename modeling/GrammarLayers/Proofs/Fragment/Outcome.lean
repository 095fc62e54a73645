import GrammarLayers.Proofs.Fragment.FirstFault

/-!
# What reading a text comes to

Reading the productions of a text either captures productions from all of its signatures, or stops
at the first one that is followed by no two blocks, with the fault that this signature has. Which of
the two happens, and with what result, is said here without the cursor that reads.

## Main results

* `readAll_eq_ok_iff` — the productions of a text are those captured from its signatures
* `readAll_eq_error_iff` — the fault of a text is that of its first signature without its blocks
* `Captured.append_of_contains` — signatures inside of captured productions add nothing
-/

namespace GrammarLayers

namespace Production

variable {source : List Char} {fault : TextFault} {sig : Signature} {sigs : List Signature}
  {ps : List Production}

theorem readAll_captured_or_error (source : List Char) :
    (∃ ps, readAll source = .ok ps ∧ Captured source (Signature.findAll source) ps) ∨
      ∃ fault, ∃ sig : Signature, readAll source = .error fault ∧ sig.IsFirstUnfollowed source ∧
        sig.HasFault source fault := by
  have houtcome := readFrom_captured_or_error (CapturedTo.nil source)
    (fun sig hsig => Signature.mem_findAll_iff.mp hsig)
    ((Signature.findAll_pairwise source).imp And.left) (List.nil_append source).symm
    (Cursor.standsAt_ofText source)
  rw [← readAll] at houtcome
  simp only [List.nil_append] at houtcome
  rcases houtcome with hok | ⟨fault, sigs, sig, rest, ps, hread, hall, hcaptured, houtside, hfault⟩
  · exact .inl hok
  · exact .inr ⟨fault, sig, hread, ⟨sigs, rest, ps, hall, hcaptured, houtside,
      hfault.not_isCapture⟩, hfault⟩

/-- Where some signature has no blocks, not all signatures are captured. -/
theorem not_captured_of_isFirstUnfollowed (h : sig.IsFirstUnfollowed source) :
    ¬ Captured source (Signature.findAll source) ps := by
  obtain ⟨sigs, rest, qs, hall, hcaptured, houtside, hnone⟩ := h
  rw [hall]
  exact not_captured_past hcaptured houtside hnone

theorem readAll_eq_ok_iff :
    readAll source = .ok ps ↔ Captured source (Signature.findAll source) ps := by
  rcases readAll_captured_or_error source with
    ⟨qs, hread, hcaptured⟩ | ⟨fault, sig, hread, hfirst, -⟩
  · rw [hread, Except.ok.injEq]
    constructor
    · rintro rfl
      exact hcaptured
    · exact hcaptured.unique
  · rw [hread]
    exact iff_of_false (fun h => nomatch h) (not_captured_of_isFirstUnfollowed hfirst)

theorem readAll_eq_error_iff :
    readAll source = .error fault ↔
      ∃ sig : Signature, sig.IsFirstUnfollowed source ∧ sig.HasFault source fault := by
  rcases readAll_captured_or_error source with
    ⟨ps, hread, hcaptured⟩ | ⟨fault', sig, hread, hfirst, hfault⟩
  · rw [hread]
    refine iff_of_false (fun h => nomatch h) ?_
    rintro ⟨sig, hfirst, -⟩
    exact not_captured_of_isFirstUnfollowed hfirst hcaptured
  · rw [hread, Except.error.injEq]
    constructor
    · rintro rfl
      exact ⟨sig, hfirst, hfault⟩
    · rintro ⟨sig', hfirst', hfault'⟩
      obtain rfl := hfirst.unique hfirst'
      exact hfault.unique hfault'

/-- Signatures inside of captured productions add nothing. -/
theorem Captured.append_of_contains {sigs' : List Signature} (h : Captured source sigs ps)
    (hinside : ∀ sig ∈ sigs', ∃ p ∈ ps, p.Contains sig) : Captured source (sigs ++ sigs') ps := by
  induction sigs' using List.reverseRecOn with
  | nil => rwa [List.append_nil]
  | append_singleton sigs' sig ih =>
    rw [← List.append_assoc]
    refine .inside (ih fun sig' hsig' => ?_) (hinside sig (by simp))
    exact hinside sig' (List.mem_append_left [sig] hsig')

end Production

end GrammarLayers
