import GrammarLayers.Proofs.Layer.Atomicity
import GrammarLayers.Proofs.Text.Place

/-!
# Where a malformed line stands in its file

A token table that has a malformed line after its license header fails to load with the number of
that line and its content. The lines are counted from the end of the header, so that the number is
the one which the line has in the file if there is no newline in the header, and falls short of it
by the newlines of the header otherwise. The content is all of a line of the file, unless the
header ends within that line.

## Main definitions

* `PlacedInFile` — a number and a content are those of a line of a file

## Main results

* `Lexicon.run_load_eq_malformedEntry_iff` — when loading a table fails with a malformed line
* `placedInFile_iff` — when the number and the content are those of a line of the file
* `load_counts_lines_after_header` — where the line stands that loading a table fails with
* `licensedTable_misnumbers` — a line below a header gets the number of a line of the header
-/

namespace GrammarLayers

/-- The number is that of the line of a file which starts after `before`, and the line of this
number has this content, trimmed. -/
def PlacedInFile (source before : List Char) (number : Nat) (content : List Char) : Prop :=
  number = (Position.find source (byteSize before)).line ∧
    (splitLines source)[number - 1]?.map trim = some content

section
variable {header rest above line below : List Char}

theorem find_line_below_header (h : IsLine rest above line below) :
    (Position.find (header ++ rest) (byteSize (header ++ above))).line =
      above.count '\n' + 1 + header.count '\n' := by
  have hline : (Position.after (header ++ above)).line = (header ++ above).count '\n' + 1 := rfl
  rw [h.text_eq, List.append_assoc above, ← List.append_assoc header above, Position.find_append,
    hline, List.count_append]
  omega

/-- The number of a line in the text after a header is that in the file if the header has no
newline. The content is then that of the line in the file, unless the header ends within this line
and is not blank. -/
theorem placedInFile_iff (h : IsLine rest above line below) :
    PlacedInFile (header ++ rest) (header ++ above) (above.count '\n' + 1) (trim line) ↔
      '\n' ∉ header ∧ (above.count '\n' + 1 = 1 → ∀ c ∈ header, isBlank c = true) := by
  have hnumber : above.count '\n' + 1 = above.count '\n' + 1 + header.count '\n' ↔
      '\n' ∉ header := by
    rw [← List.count_eq_zero]
    omega
  rw [PlacedInFile, find_line_below_header h, hnumber, Nat.add_sub_cancel]
  refine and_congr_right fun hheader => ?_
  obtain ⟨rfl, rfl | ⟨a, rfl⟩, hline, hbelow⟩ := h
  · -- the header and what follows it are one line of the file
    have hfirst : IsLine (header ++ ([] ++ line ++ below)) [] (header ++ line) below := by
      refine ⟨by simp, .inl rfl, ?_, hbelow⟩
      rw [List.mem_append, not_or]
      exact ⟨hheader, hline⟩
    rw [hfirst.getElem?_splitLines, Option.map_some, Option.some.injEq, trim_append_eq_iff]
    simp
  · -- the line stands below the one that the header is in
    have hlower : IsLine (header ++ (a ++ ['\n'] ++ line ++ below)) (header ++ (a ++ ['\n'])) line
        below :=
      ⟨by simp, .inr ⟨header ++ a, by simp⟩, hline, hbelow⟩
    have hget := hlower.getElem?_splitLines
    rw [List.count_append, List.count_eq_zero.mpr hheader, Nat.zero_add] at hget
    rw [hget]
    simp

end

section
variable {t : FileTree} {license : Option (List Char)} {c : TokenClass} {path p : Path}
  {l l' : Lexicon} {number : Nat} {content : List Char}

/-- Loading a table of assignments fails with the first malformed line after the header, counted
from there. -/
theorem Lexicon.run_load_eq_malformedEntry_iff :
    (Lexicon.load t license (.assignments c) path).run.run l =
        (.error (.inFile p (.malformedEntry number content)), l') ↔
      l' = l ∧ p = path ∧ ∃ text, t.readText path = .ok text ∧ ∃ above line below,
        IsFirstMalformed (dropLicense license text.toList) above line below ∧
          number = above.count '\n' + 1 ∧ content = trim line := by
  rw [Lexicon.load_isAtomic l l', fileFault_iff]
  refine and_congr_right fun _ => ?_
  constructor
  · rintro (⟨_, -, ⟨⟩⟩ | ⟨text, hread, _, ⟨-, above, line, below, hfirst, rfl⟩, ⟨⟩⟩)
    exact ⟨rfl, text, hread, above, line, below, hfirst, rfl, rfl⟩
  · rintro ⟨rfl, text, hread, above, line, below, hfirst, rfl, rfl⟩
    exact .inr ⟨text, hread, _, ⟨TableKind.noConfusion, above, line, below, hfirst, rfl⟩, rfl⟩

/-- Loading a table of assignments can fail with a malformed line. This is the first one after the
license header, and it stands in the file as many lines further down than its number says as the
header has newlines. It stands where the number and the content say if the header has no newline,
and is blank if it ends within the line. -/
theorem load_counts_lines_after_header
    (h : (Lexicon.load t license (.assignments c) path).run.run l =
      (.error (.inFile p (.malformedEntry number content)), l')) :
    p = path ∧ ∃ text above line below, t.readText path = .ok text ∧
      IsFirstMalformed (dropLicense license text.toList) above line below ∧ content = trim line ∧
      (Position.find text.toList (byteSize (headerOf license text.toList ++ above))).line =
        number + (headerOf license text.toList).count '\n' ∧
      (PlacedInFile text.toList (headerOf license text.toList ++ above) number content ↔
        '\n' ∉ headerOf license text.toList ∧
          (number = 1 → ∀ c ∈ headerOf license text.toList, isBlank c = true)) := by
  obtain ⟨-, rfl, text, hread, above, line, below, hfirst, rfl, rfl⟩ :=
    Lexicon.run_load_eq_malformedEntry_iff.mp h
  have hplaced := @placedInFile_iff (headerOf license text.toList) _ _ _ _ hfirst.toIsLine
  have hfind := @find_line_below_header (headerOf license text.toList) _ _ _ _ hfirst.toIsLine
  rw [headerOf_append_dropLicense] at hplaced hfind
  exact ⟨rfl, text, above, line, below, hread, hfirst, rfl, hfind, hplaced⟩

end

/-! ### A table below a header -/

/-- A table whose fourth line is malformed, below a header of one line. -/
def licensedTable : FileTree where
  top := [("keywords.txt", .ofText "license\nA: 1\n\nFROM x\n")]
  workingDirectory := []

theorem licensedTable_readText :
    licensedTable.readText ⟨"/keywords.txt"⟩ = .ok "license\nA: 1\n\nFROM x\n" := by
  have hsteps : (⟨"/keywords.txt"⟩ : Path).allSteps = ["keywords.txt"].map .down := by
    decide
  exact FileTree.readText_of_at? rfl rfl hsteps rfl (by decide)

/-- The fault has the number three. -/
theorem licensedTable_run_load (l : Lexicon) :
    (Lexicon.load licensedTable (some "license\n".toList) (.assignments .keyword)
        ⟨"/keywords.txt"⟩).run.run l =
      (.error (.inFile ⟨"/keywords.txt"⟩ (.malformedEntry 3 "FROM x".toList)), l) := by
  have hread : readAssignments
      (dropLicense (some "license\n".toList) "license\nA: 1\n\nFROM x\n".toList) =
        .error (.malformedEntry 3 "FROM x".toList) := by
    decide
  rw [Lexicon.run_load, readTextAs, licensedTable_readText]
  dsimp only [Except.mapError]
  rw [hread]

/-- The malformed line is the fourth one of the file. -/
theorem licensedTable_counts_from_header :
    ∃ l' text above,
      (Lexicon.load licensedTable (some "license\n".toList) (.assignments .keyword)
          ⟨"/keywords.txt"⟩).run.run .empty =
        (.error (.inFile ⟨"/keywords.txt"⟩ (.malformedEntry 3 "FROM x".toList)), l') ∧
      licensedTable.readText ⟨"/keywords.txt"⟩ = .ok text ∧
      (Position.find text.toList (byteSize ("license\n".toList ++ above))).line = 4 ∧
      ¬ PlacedInFile text.toList ("license\n".toList ++ above) 3 "FROM x".toList := by
  have hload := licensedTable_run_load .empty
  obtain ⟨-, text, above, line, below, hread, -, -, hfind, hplaced⟩ :=
    load_counts_lines_after_header hload
  obtain rfl := Except.ok.inj (licensedTable_readText.symm.trans hread)
  have hheader : headerOf (some "license\n".toList) "license\nA: 1\n\nFROM x\n".toList =
      "license\n".toList := by
    decide
  rw [hheader] at hfind hplaced
  exact ⟨_, _, above, hload, hread, hfind, fun h => (hplaced.mp h).1 (by decide)⟩

/-- A line below a header gets the number of another line: the third line of the file is blank. -/
theorem licensedTable_misnumbers :
    ∃ text number content, licensedTable.readText ⟨"/keywords.txt"⟩ = .ok text ∧
      (∃ l', (Lexicon.load licensedTable (some "license\n".toList) (.assignments .keyword)
          ⟨"/keywords.txt"⟩).run.run .empty =
        (.error (.inFile ⟨"/keywords.txt"⟩ (.malformedEntry number content)), l')) ∧
      (splitLines text.toList)[number - 1]?.map trim ≠ some content ∧
      (splitLines text.toList)[number - 1]?.map trim = some [] ∧
      (splitLines text.toList)[3]?.map trim = some content :=
  ⟨_, 3, "FROM x".toList, licensedTable_readText, ⟨_, licensedTable_run_load .empty⟩,
    by decide, by decide, by decide⟩

end GrammarLayers
