import GrammarLayers.Proofs.Table.Entries
import Mathlib.Data.List.Forall2

/-!
# How lines end

A line may end in a carriage return and a newline, and what comes after the last newline is no line
if it is empty. As lines are trimmed and those that are blank do not count, none of this makes a
difference to a table: its entries are in the same lines, and these have the same numbers, as if the
text was cut at its newlines.

## Main definitions

* `linePieces` — the pieces of a text, each with the newline that ends it
* `linesOf` — these pieces without what ends them

## Main results

* `exists_splitLines_eq` — cutting a text at its newlines makes one more line at most
* `entryLines_eq_numberLines_linesOf` — how lines end makes no difference to a table
-/

namespace GrammarLayers

/-- The pieces of a text, each with the newline that ends it. Only the last one may have none, and
it is not empty then. -/
def linePieces : List Char → List (List Char)
  | [] => []
  | c :: rest =>
    if c = '\n' then [c] :: linePieces rest
    else
      match linePieces rest with
      | piece :: pieces => (c :: piece) :: pieces
      | [] => [[c]]

/-- A piece without the newline that ends it, and without a carriage return just before that. -/
def lineOfPiece (piece : List Char) : List Char :=
  match piece.dropSuffix? ['\n'] with
  | some line => (line.dropSuffix? ['\r']).getD line
  | none => piece

/-- The lines of a text. -/
def linesOf (text : List Char) : List (List Char) := (linePieces text).map lineOfPiece

/-! ### What ends a line is blank -/

theorem eq_append_of_dropSuffix?_singleton {text rest : List Char} {c : Char}
    (h : text.dropSuffix? [c] = some rest) : text = rest ++ [c] := by
  obtain ⟨ending, htext, hending⟩ := List.dropSuffix?_eq_some_iff.mp h
  rwa [eq_of_beq hending] at htext

theorem trim_concat {c : Char} (hc : isBlank c = true) (text : List Char) :
    trim (text ++ [c]) = trim text :=
  trim_append_append (a := []) (by rintro _ ⟨⟩) (List.forall_mem_singleton.mpr hc) text

/-- Trimming removes what ends a line anyway. -/
theorem trim_lineOfPiece (piece : List Char) : trim (lineOfPiece piece) = trim piece := by
  have hdrop : ∀ (c : Char) (text : List Char), isBlank c = true →
      trim ((text.dropSuffix? [c]).getD text) = trim text := by
    intro c text hc
    cases hrest : text.dropSuffix? [c] with
    | none => rfl
    | some rest =>
      rw [eq_append_of_dropSuffix?_singleton hrest]
      exact (trim_concat hc rest).symm
  rw [← hdrop '\n' piece (by decide), lineOfPiece]
  cases piece.dropSuffix? ['\n'] with
  | none => rfl
  | some line => exact hdrop '\r' line (by decide)

/-! ### Cutting at newlines -/

/-- The pieces of a text are what it is cut into at its newlines, but for what comes after the last
newline if that is empty. -/
theorem exists_splitLines_eq (text : List Char) :
    ∃ lines, (splitLines text = lines ∨ splitLines text = lines ++ [[]]) ∧
      List.Forall₂ (fun line piece => piece = line ∨ piece = line ++ ['\n']) lines
        (linePieces text) := by
  induction text with
  | nil => exact ⟨[], .inr rfl, .nil⟩
  | cons c rest ih =>
    obtain ⟨lines, hsplit, hpieces⟩ := ih
    rw [splitLines, linePieces]
    by_cases hc : c = '\n'
    · rw [if_pos hc, if_pos hc]
      refine ⟨[] :: lines, ?_, .cons (.inr (by rw [hc]; rfl)) hpieces⟩
      exact hsplit.imp (congrArg ([] :: ·)) (congrArg ([] :: ·))
    · rw [if_neg hc, if_neg hc]
      generalize linePieces rest = pieces at hpieces
      cases hpieces with
      | nil =>
        -- nothing comes after the character, which is all of the last piece
        refine ⟨[[c]], .inl ?_, .cons (.inl rfl) .nil⟩
        rw [hsplit.resolve_left (splitLines_ne_nil rest)]
        rfl
      | cons hpiece hpieces =>
        have hnext := hpiece.imp (congrArg (c :: ·)) (congrArg (c :: ·))
        refine ⟨(c :: _) :: _, ?_, .cons hnext hpieces⟩
        rcases hsplit with hsplit | hsplit
        · rw [hsplit]
          exact .inl rfl
        · rw [hsplit]
          exact .inr rfl

/-! ### Numbering -/

/-- Lines are numbered alike if they are the same but for blanks around them. -/
theorem numberLines_congr {lines lines' : List (List Char)} (h : lines.map trim = lines'.map trim)
    (number : Nat) : numberLines number lines = numberLines number lines' := by
  induction lines generalizing lines' number with
  | nil =>
    obtain rfl := List.map_eq_nil_iff.mp h.symm
    rfl
  | cons line lines ih =>
    obtain ⟨line', lines', rfl, hline, hlines⟩ := List.map_eq_cons_iff.mp h.symm
    rw [numberLines, numberLines, hline, ih hlines.symm]

/-- An empty line at the end does not count. -/
theorem numberLines_append_nil (lines : List (List Char)) (number : Nat) :
    numberLines number (lines ++ [[]]) = numberLines number lines := by
  induction lines generalizing number with
  | nil => rfl
  | cons line lines ih => rw [List.cons_append, numberLines, numberLines, ih]

/-- The lines of a table that count, and their numbers, are those of the lines of its text. -/
theorem entryLines_eq_numberLines_linesOf (text : List Char) :
    entryLines text = numberLines 1 (linesOf text) := by
  obtain ⟨lines, hsplit, hpieces⟩ := exists_splitLines_eq text
  have htrim : lines.map trim = (linesOf text).map trim := by
    rw [linesOf, List.map_map, ← List.forall₂_eq_eq_eq, List.forall₂_map_left_iff,
      List.forall₂_map_right_iff]
    refine hpieces.imp fun line piece hpiece => ?_
    rw [Function.comp_apply, trim_lineOfPiece]
    rcases hpiece with rfl | rfl
    · rfl
    · exact (trim_concat (by decide) line).symm
  rw [entryLines, ← numberLines_congr htrim]
  rcases hsplit with hsplit | hsplit
  · rw [hsplit]
  · rw [hsplit, numberLines_append_nil]

/-- A carriage return is only cut off together with a newline. -/
example : linesOf "a\r\n\r\nb\r".toList = ["a".toList, [], "b\r".toList] ∧
    entryLines "a\r\n\r\nb\r".toList = [(1, "a".toList), (3, "b".toList)] := by
  decide

end GrammarLayers
