import GrammarLayers.Proofs.Table.Entries

/-!
# The lines of a text

The newlines of a text cut it into lines. The number of a line is that of the newlines above it,
counted from one up. A table of assignments cannot be read if one of its lines is malformed, and
reading it fails with the number of the first such line, counted from the first line that is read.

## Main definitions

* `IsLine` — a line of a text, between what is above it and what is below it
* `IsMalformed` — a line that is neither blank nor has a colon
* `IsFirstMalformed` — the first such line of a text

## Main results

* `splitLines_append_newline`, `length_splitLines` — how newlines cut a text
* `splitLines_flatMap`, `splitLines_intercalate` — lines put together are cut again
* `IsLine.getElem?_splitLines`, `exists_isLine` — the lines of a text are those it is cut into
* `readAssignments_eq_error_iff` — what reading a table fails with
-/

namespace GrammarLayers

/-- A line of a text, between what is above it and what is below it, where newlines cut it off. -/
structure IsLine (text above line below : List Char) : Prop where
  text_eq : text = above ++ line ++ below
  above_ends : above = [] ∨ ∃ a, above = a ++ ['\n']
  newline_notMem : '\n' ∉ line
  below_starts : below = [] ∨ ∃ b, below = '\n' :: b

/-- A line that is neither blank nor has a colon. -/
def IsMalformed (line : List Char) : Prop := trim line ≠ [] ∧ ':' ∉ line

instance : DecidablePred IsMalformed := fun _ => inferInstanceAs (Decidable (_ ∧ _))

/-- The first malformed line of a text, between what is above it and what is below it. -/
structure IsFirstMalformed (text above line below : List Char) : Prop
    extends IsLine text above line below where
  malformed : IsMalformed line
  first : ∀ earlier ∈ splitLines above, ¬ IsMalformed earlier

/-! ### Cutting a text into lines -/

theorem splitLines_of_notMem {line : List Char} (h : '\n' ∉ line) : splitLines line = [line] := by
  induction line with
  | nil => rfl
  | cons c line ih =>
    rw [List.mem_cons, not_or] at h
    rw [splitLines, if_neg (Ne.symm h.1), ih h.2]

theorem splitLines_append_newline (a b : List Char) :
    splitLines (a ++ '\n' :: b) = splitLines a ++ splitLines b := by
  induction a with
  | nil => rfl
  | cons c a ih =>
    rw [List.cons_append, splitLines, splitLines, ih]
    split
    next => rfl
    next =>
      obtain ⟨line, lines, hlines⟩ := List.exists_cons_of_ne_nil (splitLines_ne_nil a)
      rw [hlines]
      rfl

theorem length_splitLines (text : List Char) :
    (splitLines text).length = text.count '\n' + 1 := by
  induction text with
  | nil => rfl
  | cons c text ih =>
    rw [splitLines]
    split
    next hc => rw [hc, List.length_cons, ih, List.count_cons_self]
    next hc =>
      obtain ⟨line, lines, hlines⟩ := List.exists_cons_of_ne_nil (splitLines_ne_nil text)
      rw [hlines] at ih ⊢
      rw [List.count_cons_of_ne hc, ← ih]
      rfl

/-! ### Lines put together -/

/-- The newline behind the last line starts a blank one. -/
theorem splitLines_flatMap {lines : List (List Char)} (h : ∀ line ∈ lines, '\n' ∉ line) :
    splitLines (lines.flatMap (· ++ ['\n'])) = lines ++ [[]] := by
  induction lines with
  | nil => rfl
  | cons line lines ih =>
    obtain ⟨hline, hlines⟩ := List.forall_mem_cons.mp h
    rw [List.flatMap_cons, List.append_assoc, List.singleton_append, splitLines_append_newline,
      splitLines_of_notMem hline, ih hlines]
    rfl

theorem intercalate_append_newline {lines : List (List Char)} (h : lines ≠ []) :
    List.intercalate ['\n'] lines ++ ['\n'] = lines.flatMap (· ++ ['\n']) := by
  induction lines with
  | nil => exact absurd rfl h
  | cons line lines ih =>
    cases lines with
    | nil => simp
    | cons next lines =>
      rw [List.intercalate_cons_cons, List.append_assoc, ih (List.cons_ne_nil _ _)]
      rfl

theorem splitLines_intercalate {lines : List (List Char)} (hne : lines ≠ [])
    (h : ∀ line ∈ lines, '\n' ∉ line) : splitLines (List.intercalate ['\n'] lines) = lines := by
  have hsplit := splitLines_append_newline (List.intercalate ['\n'] lines) []
  rw [intercalate_append_newline hne, splitLines_flatMap h] at hsplit
  exact (List.append_cancel_right hsplit).symm

/-! ### The lines of a text -/

section
variable {text above line below : List Char} {before after : List (List Char)}

theorem exists_first_isLine (text : List Char) : ∃ line below, IsLine text [] line below := by
  induction text with
  | nil => exact ⟨[], [], rfl, .inl rfl, List.not_mem_nil, .inl rfl⟩
  | cons c text ih =>
    by_cases hc : c = '\n'
    · subst hc
      exact ⟨[], _, rfl, .inl rfl, List.not_mem_nil, .inr ⟨text, rfl⟩⟩
    · obtain ⟨line, below, htext, -, hline, hbelow⟩ := ih
      refine ⟨c :: line, below, ?_, .inl rfl, ?_, hbelow⟩
      · rw [htext]
        rfl
      · exact List.not_mem_cons_of_ne_of_not_mem (Ne.symm hc) hline

theorem IsLine.splitLines_eq_cons (h : IsLine text [] line below) :
    ∃ after, splitLines text = line :: after := by
  obtain ⟨rfl, -, hline, rfl | ⟨b, rfl⟩⟩ := h
  · exact ⟨[], by rw [List.append_nil, List.nil_append, splitLines_of_notMem hline]⟩
  · refine ⟨splitLines b, ?_⟩
    rw [List.nil_append, splitLines_append_newline, splitLines_of_notMem hline]
    rfl

/-- The lines above a line, and a blank one for the newline that ends them, are those of the text
above it. -/
theorem IsLine.exists_splitLines (h : IsLine text above line below) :
    ∃ before after, splitLines text = before ++ line :: after ∧
      splitLines above = before ++ [[]] := by
  obtain ⟨rfl, habove, hline, hbelow⟩ := h
  obtain ⟨after, hafter⟩ := IsLine.splitLines_eq_cons ⟨rfl, .inl rfl, hline, hbelow⟩
  rcases habove with rfl | ⟨a, rfl⟩
  · exact ⟨[], after, hafter, rfl⟩
  · refine ⟨splitLines a, after, ?_, splitLines_append_newline a []⟩
    rw [List.nil_append] at hafter
    rw [List.append_assoc, List.append_assoc, List.singleton_append, splitLines_append_newline,
      hafter]

theorem exists_isLine (h : splitLines text = before ++ line :: after) :
    ∃ above below, IsLine text above line below ∧ splitLines above = before ++ [[]] := by
  induction before generalizing text with
  | nil =>
    obtain ⟨first, below, hfirst⟩ := exists_first_isLine text
    obtain ⟨after', hafter'⟩ := hfirst.splitLines_eq_cons
    obtain ⟨rfl, -⟩ := List.cons_eq_cons.mp (h.symm.trans hafter')
    exact ⟨[], below, hfirst, rfl⟩
  | cons first before ih =>
    obtain ⟨first', below, htext, -, hfirst, hbelow⟩ := exists_first_isLine text
    rw [List.nil_append] at htext
    rcases hbelow with rfl | ⟨rest, rfl⟩
    · -- a text without a newline has no line above another one
      rw [htext, List.append_nil, splitLines_of_notMem hfirst] at h
      simp at h
    · rw [htext, splitLines_append_newline, splitLines_of_notMem hfirst] at h
      obtain ⟨rfl, hrest⟩ := List.cons_eq_cons.mp h
      obtain ⟨above, below, ⟨rfl, habove, hline, hbelow⟩, hlines⟩ := ih hrest
      refine ⟨first' ++ '\n' :: above, below, ⟨?_, .inr ?_, hline, hbelow⟩, ?_⟩
      · simp [htext]
      · rcases habove with rfl | ⟨a, rfl⟩
        · exact ⟨first', rfl⟩
        · exact ⟨first' ++ '\n' :: a, by simp⟩
      · rw [splitLines_append_newline, splitLines_of_notMem hfirst, hlines]
        rfl

theorem length_of_splitLines (h : splitLines above = before ++ [[]]) :
    before.length = above.count '\n' := by
  have hlength := congrArg List.length h
  rw [length_splitLines, List.length_append, List.length_singleton] at hlength
  exact (Nat.succ.inj hlength).symm

/-- A line stands after as many others as there are newlines above it. -/
theorem IsLine.getElem?_splitLines (h : IsLine text above line below) :
    (splitLines text)[above.count '\n']? = some line := by
  obtain ⟨before, after, htext, habove⟩ := h.exists_splitLines
  rw [htext, ← length_of_splitLines habove, List.getElem?_append_right (Nat.le_refl _),
    Nat.sub_self]
  rfl

theorem newline_notMem_of_mem_splitLines (h : line ∈ splitLines text) :
    '\n' ∉ line := by
  obtain ⟨before, after, htext⟩ := List.append_of_mem h
  obtain ⟨above, below, hline, -⟩ := exists_isLine htext
  exact hline.newline_notMem

end

/-! ### The first malformed line -/

theorem find?_numberLines_cons (number : Nat) (line : List Char) (lines : List (List Char)) :
    (numberLines number (line :: lines)).find? (fun l => ':' ∉ l.2) =
      if IsMalformed line then some (number, trim line)
      else (numberLines (number + 1) lines).find? fun l => ':' ∉ l.2 := by
  have hcolon : ':' ∈ trim line ↔ ':' ∈ line := mem_trim_iff (by decide)
  rw [numberLines]
  by_cases hblank : trim line = []
  · rw [if_pos hblank, if_neg fun h => h.1 hblank]
  · rw [if_neg hblank, List.find?_cons]
    by_cases hmem : ':' ∈ line
    · rw [if_neg fun h => h.2 hmem, decide_eq_false (not_not.mpr (hcolon.mpr hmem))]
    · rw [if_pos ⟨hblank, hmem⟩, decide_eq_true (mt hcolon.mp hmem)]

/-- Blank lines are left out, but they are counted. -/
theorem find?_numberLines_eq_some_iff {number : Nat} {lines : List (List Char)}
    {found : Nat × List Char} :
    (numberLines number lines).find? (fun l => ':' ∉ l.2) = some found ↔
      ∃ before line after, lines = before ++ line :: after ∧ IsMalformed line ∧
        (∀ earlier ∈ before, ¬ IsMalformed earlier) ∧
        found = (number + before.length, trim line) := by
  induction lines generalizing number with
  | nil => simp [numberLines]
  | cons first lines ih =>
    rw [find?_numberLines_cons]
    split
    next hfirst =>
      rw [Option.some.injEq]
      constructor
      · rintro rfl
        exact ⟨[], first, lines, rfl, hfirst, by simp, rfl⟩
      · -- the first line is malformed, and so none comes before the one that is found
        rintro ⟨before, line, after, hlines, -, hbefore, rfl⟩
        cases before with
        | nil =>
          obtain ⟨rfl, -⟩ := List.cons_eq_cons.mp hlines
          rfl
        | cons _ before =>
          obtain ⟨rfl, -⟩ := List.cons_eq_cons.mp hlines
          exact absurd hfirst (hbefore _ List.mem_cons_self)
    next hfirst =>
      rw [ih]
      constructor
      · rintro ⟨before, line, after, rfl, hline, hbefore, rfl⟩
        refine ⟨first :: before, line, after, rfl, hline, ?_, ?_⟩
        · exact List.forall_mem_cons.mpr ⟨hfirst, hbefore⟩
        · rw [List.length_cons, Nat.add_right_comm, Nat.add_assoc]
      · rintro ⟨before, line, after, hlines, hline, hbefore, rfl⟩
        cases before with
        | nil =>
          obtain ⟨rfl, -⟩ := List.cons_eq_cons.mp hlines
          exact absurd hline hfirst
        | cons _ before =>
          obtain ⟨rfl, rfl⟩ := List.cons_eq_cons.mp hlines
          refine ⟨before, line, after, rfl, hline, (List.forall_mem_cons.mp hbefore).2, ?_⟩
          rw [List.length_cons, Nat.add_right_comm, Nat.add_assoc]

/-- Reading a table fails with its first malformed line, if it has one. -/
theorem readAssignments_eq_error_iff {text : List Char} {fault : TextFault} :
    readAssignments text = .error fault ↔
      ∃ above line below, IsFirstMalformed text above line below ∧
        fault = .malformedEntry (above.count '\n' + 1) (trim line) := by
  -- the newline that ends what is above a line leaves a blank line there, which is not malformed
  have hfirst : ∀ {above : List Char} {before : List (List Char)},
      splitLines above = before ++ [[]] →
      ((∀ earlier ∈ splitLines above, ¬ IsMalformed earlier) ↔
        ∀ earlier ∈ before, ¬ IsMalformed earlier) := by
    intro above before h
    rw [h, List.forall_mem_append, List.forall_mem_singleton]
    exact and_iff_left fun hblank => hblank.1 rfl
  rw [readAssignments, readEntries_eq_error_iff, entryLines, Option.map_eq_some_iff]
  simp only [find?_numberLines_eq_some_iff]
  constructor
  · rintro ⟨_, ⟨before, line, after, hlines, hline, hbefore, rfl⟩, rfl⟩
    obtain ⟨above, below, hisLine, habove⟩ := exists_isLine hlines
    refine ⟨above, line, below, ⟨hisLine, hline, (hfirst habove).mpr hbefore⟩, ?_⟩
    rw [length_of_splitLines habove, Nat.add_comm]
  · rintro ⟨above, line, below, ⟨hisLine, hline, habove⟩, rfl⟩
    obtain ⟨before, after, hlines, hbefore⟩ := hisLine.exists_splitLines
    refine ⟨_, ⟨before, line, after, hlines, hline, (hfirst hbefore).mp habove, rfl⟩, ?_⟩
    rw [length_of_splitLines hbefore, Nat.add_comm]

end GrammarLayers
