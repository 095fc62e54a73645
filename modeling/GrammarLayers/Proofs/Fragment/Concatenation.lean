import GrammarLayers.Proofs.Fragment.Outcome
import GrammarLayers.Proofs.Fragment.Surroundings

/-!
# Two texts, one after the other

A text may be cut after any closing brace and the blanks that follow it. The productions of the
whole are then those of the first part and, so many bytes further on, those of the second. A fault
of the second part is the fault of the whole, at the same place of the text. Nothing that stands
outside of productions matters to this: a literal or comment that is left open in the first part
has no effect in the second.

## Main definitions

* `EndsInBrace` — the last character of a text that is not blank is a closing brace

## Main results

* `readAll_append_of_ok`, `readAll_append_of_error` — two texts, where no signature runs over the
  end of the first one
* `readAll_append` — two texts of which the first one ends in a closing brace
-/

namespace GrammarLayers

/-- The last character of the text that is not blank is a closing brace. -/
def EndsInBrace (text : List Char) : Prop :=
  ∃ front blanks, text = front ++ '\x7d' :: blanks ∧ Signature.IsBlanks blanks

theorem EndsInBrace.seals {text : List Char} (h : EndsInBrace text) : Signature.Seals text := by
  obtain ⟨front, blanks, rfl, hblanks⟩ := h
  refine ⟨front ++ ['\x7d'], blanks, by simp, hblanks, ?_⟩
  rw [endsOutside_concat_iff]
  rfl

/-- A production ends in the closing brace of its body. -/
theorem Production.IsCapture.endsInBrace {source : List Char} {sig : Signature} {p : Production}
    (h : p.IsCapture source sig) : EndsInBrace p.text.toList := by
  obtain ⟨k, -, rfl⟩ := h
  obtain ⟨inner, hinner⟩ := k.delimits_body.exists_concat
  refine ⟨k.head ++ (k.gap ++ k.initializer) ++ (k.gap' ++ inner), [], ?_, Signature.isBlanks_nil⟩
  rw [Capture.toProduction, String.toList_ofList, Capture.text, hinner]
  simp

variable {a b : List Char} {ps qs : List Production} {sig : Signature} {fault : TextFault}

/-- The first signature of a text without its blocks is the first one still when productions come
before it. -/
theorem Signature.IsFirstUnfollowed.prepend (h : sig.IsFirstUnfollowed b) (hseals : Seals a)
    (ha : Production.Captured a (findAll a) ps) (hfault : sig.HasFault b fault) :
    (sig.shift (byteSize a)).IsFirstUnfollowed (a ++ b) := by
  obtain ⟨sigs, rest, qs, hall, hcaptured, houtside, -⟩ := h
  have hoccurs : ∀ sig' ∈ sigs ++ sig :: rest, Occurs b sig' := by
    rw [← hall]
    exact fun sig' hsig' => mem_findAll_iff.mp hsig'
  refine ⟨findAll a ++ sigs.map (·.shift (byteSize a)), rest.map (·.shift (byteSize a)),
    ps ++ qs.map (·.shift (byteSize a)), ?_, ?_, ?_, (hfault.prepend a).not_isCapture⟩
  · simp [hseals.findAll_append, hall]
  · exact ha.append_shift hcaptured fun sig' hsig' => hoccurs sig' (List.mem_append_left _ hsig')
  · intro p hp
    rcases List.mem_append.mp hp with hp | hp
    · exact ha.not_contains_shift (hoccurs sig (by simp)) p hp
    · obtain ⟨q, hq, rfl⟩ := List.mem_map.mp hp
      rw [Production.contains_shift_iff]
      exact houtside q hq

namespace Production

theorem readAll_append_of_ok (hseals : Signature.Seals a) (ha : readAll a = .ok ps)
    (hb : readAll b = .ok qs) :
    readAll (a ++ b) = .ok (ps ++ qs.map (·.shift (byteSize a))) := by
  rw [readAll_eq_ok_iff] at ha hb ⊢
  rw [hseals.findAll_append]
  exact ha.append_shift hb fun sig hsig => Signature.mem_findAll_iff.mp hsig

theorem readAll_append_of_error (hseals : Signature.Seals a) (ha : readAll a = .ok ps)
    (hb : readAll b = .error fault) : readAll (a ++ b) = .error (fault.behind a) := by
  rw [readAll_eq_ok_iff] at ha
  obtain ⟨sig, hfirst, hfault⟩ := readAll_eq_error_iff.mp hb
  rw [readAll_eq_error_iff]
  exact ⟨_, hfirst.prepend hseals ha hfault, hfault.prepend a⟩

/-- A text that ends in a closing brace and blanks, and whose productions can be read, may stand
before any other text. If the productions of the other text can be read, those of both together are
the productions of the one and the productions of the other behind it. If not, the fault is the
same, with the same production and the same found text, at the same place of the other text. -/
theorem readAll_append (a b : List Char) (ps : List Production) (hends : EndsInBrace a)
    (ha : readAll a = .ok ps) :
    (∀ qs, readAll b = .ok qs →
      readAll (a ++ b) = .ok (ps ++ qs.map (·.shift (byteSize a)))) ∧
    ∀ fault, readAll b = .error fault → readAll (a ++ b) = .error (fault.behind a) :=
  ⟨fun _ => readAll_append_of_ok hends.seals ha, fun _ => readAll_append_of_error hends.seals ha⟩

/-- A text that leaves a comment open. -/
def openComment : String := "T A():\x7b\x7d\x7b\x7d\n/*\u00e9\x7d "

/-- A text that seems to close a comment, and goes wrong on its first line. -/
def closingComment : String := "*/T B():\x7b\x7dx\x7d"

/-- The second text goes wrong on the second line of both together. -/
theorem readAll_append_open_comment :
    let a := openComment.toList
    let b := closingComment.toList
    readAll a = .ok [⟨"A", "T", "T A():\x7b\x7d\x7b\x7d", ⟨0, 10⟩, none⟩] ∧
      readAll b = .error (.missingBlock "B" (.token ['x']) ⟨10, 1, 11⟩) ∧
      readAll (a ++ b) = .error (.missingBlock "B" (.token ['x']) ⟨27, 2, 16⟩) := by
  intro a b
  have ha : readAll a = .ok [⟨"A", "T", "T A():\x7b\x7d\x7b\x7d", ⟨0, 10⟩, none⟩] := by
    decide +kernel
  have hb : readAll b = .error (.missingBlock "B" (.token ['x']) ⟨10, 1, 11⟩) := by
    decide +kernel
  have hends : EndsInBrace a :=
    ⟨a.take 14, [' '], by decide, by simp [Signature.IsBlanks, isSpaceChar]⟩
  exact ⟨ha, hb, (readAll_append a b _ hends ha).2 _ hb⟩

end Production

end GrammarLayers
