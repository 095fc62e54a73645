import GrammarLayers.Proofs.Text.Trimming
import GrammarLayers.Table.Entry

/-!
# The lines of a token table

A table is its license header, if it starts with one, and the lines after that. A table of
assignments can be read if every line that is not blank has a colon. Otherwise the first such line
without one is what reading it fails with.

## Main definitions

* `headerOf` — the license header that a table starts with

## Main results

* `eq_headerOf_append_iff` — what comes after the license header
* `readEntries_eq_error_iff` — the first line without a colon is what reading fails with
* `exists_readAssignments_iff` — which tables can be read
-/

namespace GrammarLayers

/-! ### After the license header -/

/-- The license header that a table starts with; nothing if it does not start with one. -/
def headerOf (license : Option (List Char)) (text : List Char) : List Char :=
  match license with
  | some header => if header.isPrefixOf text then header else []
  | none => []

theorem headerOf_append_dropLicense (license : Option (List Char)) (text : List Char) :
    headerOf license text ++ dropLicense license text = text := by
  cases license with
  | none => rfl
  | some header =>
    rw [headerOf, dropLicense]
    split
    next hprefix =>
      obtain ⟨rest, rfl⟩ := List.isPrefixOf_iff_prefix.mp hprefix
      rw [List.drop_left]
    next => rfl

/-- What comes after the license header of a table is the table without it. -/
theorem eq_headerOf_append_iff {license : Option (List Char)} {text content : List Char} :
    text = headerOf license text ++ content ↔ content = dropLicense license text := by
  have happend := headerOf_append_dropLicense license text
  constructor
  · intro h
    exact List.append_cancel_left (h.symm.trans happend.symm)
  · rintro rfl
    exact happend.symm

/-! ### Lines that are not blank -/

theorem map_snd_numberLines (number : Nat) (lines : List (List Char)) :
    (numberLines number lines).map Prod.snd = (lines.map trim).filter (· ≠ []) := by
  induction lines generalizing number with
  | nil => rfl
  | cons line lines ih =>
    rw [numberLines, List.map_cons]
    split
    next hblank => simp [hblank, ih]
    next hline => simp [hline, ih]

/-- The lines that count are the ones that are not blank, trimmed. -/
theorem forall_entryLines_iff {text : List Char} (p : List Char → Prop) :
    (∀ line ∈ entryLines text, p line.2) ↔
      ∀ line ∈ splitLines text, trim line ≠ [] → p (trim line) := by
  rw [← List.forall_mem_map (f := Prod.snd), entryLines, map_snd_numberLines]
  simp

theorem Assignment.read?_eq_none_iff {line : List Char} :
    Assignment.read? line = none ↔ ':' ∉ line := by
  have hnil : line.dropWhile (· != ':') = [] ↔ ':' ∉ line := by
    rw [List.dropWhile_eq_nil_iff]
    simp only [bne_iff_ne]
    exact ⟨fun h hmem => h ':' hmem rfl, fun h c hc heq => h (heq ▸ hc)⟩
  rw [← hnil, Assignment.read?]
  split
  next hdrop => simp [hdrop]
  next hdrop => simp [hdrop]

/-- The first line without a colon is what reading fails with. -/
theorem readEntries_eq_error_iff {lines : List (Nat × List Char)} {fault : TextFault} :
    readEntries lines = .error fault ↔
      (lines.find? fun line => ':' ∉ line.2).map (fun line => .malformedEntry line.1 line.2) =
        some fault := by
  induction lines with
  | nil => simp [readEntries]
  | cons line lines ih =>
    rw [readEntries, List.find?_cons]
    cases hread : Assignment.read? line.2 with
    | none =>
      have hcolon := Assignment.read?_eq_none_iff.mp hread
      simp [hcolon]
    | some entry =>
      -- a line that is read has a colon, and the fault is in a later one
      have hcolon : ':' ∈ line.2 := by
        by_contra hcolon
        rw [Assignment.read?_eq_none_iff.mpr hcolon] at hread
        cases hread
      rw [decide_eq_false (not_not.mpr hcolon)]
      refine Iff.trans ?_ ih
      cases readEntries lines with
      | error fault' => simp [bind, Except.bind]
      | ok entries => simp [bind, Except.bind, pure, Except.pure]

theorem exists_readEntries_iff {lines : List (Nat × List Char)} :
    (∃ entries, readEntries lines = .ok entries) ↔
      lines.find? (fun line => ':' ∉ line.2) = none := by
  cases hread : readEntries lines with
  | error fault =>
    have hfault := readEntries_eq_error_iff.mp hread
    obtain ⟨line, hline, -⟩ := Option.map_eq_some_iff.mp hfault
    refine iff_of_false ?_ (hline ▸ Option.some_ne_none line)
    rintro ⟨entries, ⟨⟩⟩
  | ok entries =>
    refine iff_of_true ⟨entries, rfl⟩ (Option.eq_none_iff_forall_ne_some.mpr ?_)
    intro line hline
    have hfault := readEntries_eq_error_iff.mpr (congrArg (Option.map _) hline)
    rw [hread] at hfault
    cases hfault

/-- A table can be read if all its lines that are not blank have a colon. -/
theorem exists_readAssignments_iff {text : List Char} :
    (∃ entries, readAssignments text = .ok entries) ↔
      ∀ line ∈ splitLines text, trim line ≠ [] → ':' ∈ line := by
  have hcolon : ∀ line : List Char, ':' ∈ trim line ↔ ':' ∈ line :=
    fun line => mem_trim_iff (by decide)
  simp only [readAssignments]
  rw [exists_readEntries_iff, List.find?_eq_none]
  simp only [decide_eq_true_eq, not_not]
  refine (forall_entryLines_iff (':' ∈ ·)).trans ?_
  simp only [hcolon]

end GrammarLayers
