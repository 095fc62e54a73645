import GrammarLayers.Proofs.Text.Place
import GrammarLayers.Proofs.Text.Slice
import Mathlib.Data.Prod.Lex
import Mathlib.Order.Bounds.Basic

/-!
# The order of places

Going forward in a text, places come in the order of their lines, and on one line in the order of
their columns. Every character moves the place strictly on, and so line and column tell a place as
well as its byte offset does. An offset that is no place itself belongs to the last place before it.

## Main definitions

* `IsBoundary` — a byte offset at which a place of a text is
* `Position.lineColumn` — line and column, of which the line counts first

## Main results

* `find_eq_after` — what is found is the place after all characters that fit
* `isGreatest_find` — it is the last place that is not beyond the offset
* `lineColumn_lt_append` — line and column go up
* `find_orders_places` — offsets, and lines with columns, are the same order of places
-/

namespace GrammarLayers

/-- At this byte offset of the text there is a place, between two characters or at an end. -/
def IsBoundary (text : List Char) (offset : Nat) : Prop :=
  ∃ before rest, text = before ++ rest ∧ offset = byteSize before

/-! ### What fits before an offset -/

theorem byteSize_splitAtByte_le (size : Nat) (text : List Char) :
    byteSize (splitAtByte size text).1 ≤ size := by
  induction text generalizing size with
  | nil => exact Nat.zero_le size
  | cons c rest ih =>
    rw [splitAtByte]
    split
    next hfits =>
      have hrest := ih (size - c.utf8Size)
      simp only [byteSize_cons]
      omega
    next => exact Nat.zero_le size

/-- No more characters fit than those that are cut off. -/
theorem byteSize_le_splitAtByte {size : Nat} {before rest : List Char}
    (hfits : byteSize before ≤ size) :
    byteSize before ≤ byteSize (splitAtByte size (before ++ rest)).1 := by
  induction before generalizing size with
  | nil => exact Nat.zero_le _
  | cons c before ih =>
    rw [byteSize_cons] at hfits
    have hfirst : c.utf8Size ≤ size := by omega
    have hothers : byteSize before ≤ size - c.utf8Size := by omega
    have hrest := ih hothers
    rw [List.cons_append, splitAtByte, if_pos hfirst]
    simp only [byteSize_cons]
    omega

namespace Position

variable {text before rest : List Char}

theorem findFrom_eq_foldl (n : Nat) (p : Position) (text : List Char) :
    findFrom (p.offset + n) p text = (splitAtByte n text).1.foldl next p := by
  induction text generalizing n p with
  | nil => rfl
  | cons c rest ih =>
    rw [findFrom, splitAtByte]
    by_cases hfits : c.utf8Size ≤ n
    · -- the bytes of the character are taken off what is left
      have hoffset : p.offset + n = (p.next c).offset + (n - c.utf8Size) := by
        rw [next_offset]
        omega
      rw [if_pos (by omega), if_pos hfits, hoffset, ih]
      rfl
    · rw [if_neg (by omega), if_neg hfits]
      rfl

/-- The place that is found is the one after all characters that fit before the offset. -/
theorem find_eq_after (text : List Char) (n : Nat) :
    find text n = after (splitAtByte n text).1 := by
  have hfind := findFrom_eq_foldl n start text
  rw [foldl_next_start] at hfind
  rw [find, ← hfind]
  simp [start]

/-- The place that is found is the last one that is not beyond the offset. -/
theorem isGreatest_find (text : List Char) (n : Nat) :
    IsGreatest {b | IsBoundary text b ∧ b ≤ n ∧ b ≤ byteSize text} (find text n).offset := by
  have htext := append_splitAtByte n text
  rw [find_eq_after]
  constructor
  · refine ⟨⟨_, _, htext.symm, rfl⟩, byteSize_splitAtByte_le n text, ?_⟩
    have hsize := congrArg byteSize htext
    rw [byteSize_append] at hsize
    exact Nat.le.intro hsize
  · rintro b ⟨⟨before, rest, rfl, rfl⟩, hle, -⟩
    exact byteSize_le_splitAtByte hle

theorem find_offset (text : List Char) (n : Nat) :
    find text (find text n).offset = find text n := by
  have hfind := find_append (splitAtByte n text).1 (splitAtByte n text).2
  rw [append_splitAtByte] at hfind
  rw [find_eq_after text n]
  exact hfind

/-! ### Lines and columns -/

/-- Line and column. Of two places the one on the earlier line comes first, and of two on the same
line the one at the smaller column. -/
def lineColumn (p : Position) : Nat ×ₗ Nat := toLex (p.line, p.column)

theorem lineColumn_lt_next (p : Position) (c : Char) : p.lineColumn < (p.next c).lineColumn := by
  rw [lineColumn, lineColumn, Prod.Lex.toLex_lt_toLex, next]
  split
  next => exact .inl (Nat.lt_succ_self _)
  next => exact .inr ⟨rfl, Nat.lt_succ_self _⟩

/-- Every character moves the place on. -/
theorem lineColumn_lt_append (before : List Char) (hrest : rest ≠ []) :
    (after before).lineColumn < (after (before ++ rest)).lineColumn := by
  induction rest using List.reverseRecOn with
  | nil => exact absurd rfl hrest
  | append_singleton rest c ih =>
    have hnext := lineColumn_lt_next (after (before ++ rest)) c
    rw [← after_concat, List.append_assoc] at hnext
    by_cases hnil : rest = []
    · subst hnil
      rwa [List.append_nil] at hnext
    · exact (ih hnil).trans hnext

theorem lineColumn_lt_of_offset_lt {m n : Nat} (h : (find text m).offset < (find text n).offset) :
    (find text m).lineColumn < (find text n).lineColumn := by
  rw [find_eq_after, find_eq_after] at h ⊢
  obtain ⟨rest, hrest, -⟩ := exists_append_of_byteSize_le
    ((append_splitAtByte m text).trans (append_splitAtByte n text).symm) (Nat.le_of_lt h)
  rw [hrest] at h ⊢
  apply lineColumn_lt_append
  rintro rfl
  rw [List.append_nil] at h
  exact Nat.lt_irrefl _ h

theorem eq_of_offset_eq {m n : Nat} (h : (find text m).offset = (find text n).offset) :
    find text m = find text n := by
  rw [← find_offset text m, h, find_offset]

/-- Places have the order of their lines and columns. -/
theorem offset_le_iff {m n : Nat} :
    (find text m).offset ≤ (find text n).offset ↔
      (find text m).lineColumn ≤ (find text n).lineColumn := by
  constructor
  · intro hle
    rcases Nat.lt_or_eq_of_le hle with hlt | heq
    · exact (lineColumn_lt_of_offset_lt hlt).le
    · rw [eq_of_offset_eq heq]
  · intro hle
    by_contra hlt
    exact absurd (lineColumn_lt_of_offset_lt (Nat.lt_of_not_le hlt)) (not_lt_of_ge hle)

theorem offset_mono {m n : Nat} (h : m ≤ n) : (find text m).offset ≤ (find text n).offset := by
  obtain ⟨hboundary, hle, hsize⟩ := (isGreatest_find text m).1
  exact (isGreatest_find text n).2 ⟨hboundary, hle.trans h, hsize⟩

/-- No place has more lines above it, or more columns before it, than there are characters. -/
theorem lines_le_length (text : List Char) (n : Nat) :
    (find text n).line ≤ text.length + 1 ∧ (find text n).column ≤ text.length + 1 := by
  have hlength : (splitAtByte n text).1.length ≤ text.length := by
    have htext := congrArg List.length (append_splitAtByte n text)
    rw [List.length_append] at htext
    exact Nat.le.intro htext
  rw [find_eq_after]
  constructor
  · have hlines := @List.count_le_length _ _ '\n' (splitAtByte n text).1
    exact Nat.succ_le_succ (hlines.trans hlength)
  · have hcolumns := (List.rtakeWhile_suffix (· != '\n') (splitAtByte n text).1).length_le
    exact Nat.succ_le_succ (hcolumns.trans hlength)

/-- The place that is found for an offset is the last one that is not beyond it. Places that are
further on in the text are further on by line and column, and these two tell them apart. One more
character leads to the next column, or to the start of the next line if it is a newline. The place
found at the offset of a place is this place. In a text that is not too long, lines and columns can
be counted in 32 bits. -/
theorem find_orders_places (text : List Char) (hlength : text.length < UInt32.size - 1) :
    (∀ n, IsGreatest {b | IsBoundary text b ∧ b ≤ n ∧ b ≤ byteSize text} (find text n).offset) ∧
    (∀ m n, m ≤ n → (find text m).lineColumn ≤ (find text n).lineColumn) ∧
    (∀ m n, (find text m).lineColumn = (find text n).lineColumn ↔
      (find text m).offset = (find text n).offset) ∧
    (∀ m n, (find text m).lineColumn ≤ (find text n).lineColumn ↔
      (find text m).offset ≤ (find text n).offset) ∧
    (∀ before c rest, text = before ++ c :: rest →
      find text (byteSize before + c.utf8Size) =
        if c = '\n' then
          ⟨byteSize before + c.utf8Size, (find text (byteSize before)).line + 1, 1⟩
        else
          ⟨byteSize before + c.utf8Size, (find text (byteSize before)).line,
            (find text (byteSize before)).column + 1⟩) ∧
    (∀ n, find text (find text n).offset = find text n) ∧
    ∀ n, (find text n).line < UInt32.size ∧ (find text n).column < UInt32.size := by
  refine ⟨isGreatest_find text, ?_, ?_, fun m n => offset_le_iff.symm, ?_, find_offset text, ?_⟩
  · intro m n hle
    exact offset_le_iff.mp (offset_mono hle)
  · intro m n
    constructor
    · intro heq
      exact Nat.le_antisymm (offset_le_iff.mpr heq.le) (offset_le_iff.mpr heq.ge)
    · intro heq
      rw [eq_of_offset_eq heq]
  · rintro before c rest rfl
    have hbefore := find_append before (c :: rest)
    have hnext := find_append (before ++ [c]) rest
    have hsize : byteSize (before ++ [c]) = byteSize before + c.utf8Size := by simp
    rw [List.append_assoc, List.singleton_append, hsize] at hnext
    rw [hbefore, hnext, after_concat]
    rfl
  · intro n
    obtain ⟨hline, hcolumn⟩ := lines_le_length text n
    omega

/-- An offset inside of a character of three bytes, which stands at the start of a second line. -/
theorem find_orders_places_multibyte :
    let text := ['\u00e9', '\n', '\u20ac', 'x']
    text.length < UInt32.size - 1 ∧ find text 5 = ⟨3, 2, 1⟩ ∧
      IsGreatest {b | IsBoundary text b ∧ b ≤ 5 ∧ b ≤ byteSize text} 3 ∧
      (find text 1).lineColumn ≤ (find text 5).lineColumn ∧
      find text 6 = ⟨6, (find text 3).line, (find text 3).column + 1⟩ ∧
      find text (find text 5).offset = find text 5 := by
  intro text
  have hlength : text.length < UInt32.size - 1 := by decide
  have hfind : find text 5 = ⟨3, 2, 1⟩ := by decide
  obtain ⟨hgreatest, hmono, -, -, hnext, hoffset, -⟩ := find_orders_places text hlength
  have hfirst := hgreatest 5
  rw [hfind] at hfirst
  exact ⟨hlength, hfind, hfirst, hmono 1 5 (by decide), hnext ['\u00e9', '\n'] '\u20ac' ['x'] rfl,
    hoffset 5⟩

end Position

end GrammarLayers
