import GrammarLayers.Text.Position
import Mathlib.Data.List.DropRight

/-!
# The place after a text

Between two parts of a text there is one place, and everything that is said of it can be read off
the first part alone: its bytes, its newlines, and the characters after the last of these.

## Main definitions

* `Position.after` — the place after a text
* `Position.behind` — a place of a text that stands behind another one

## Main results

* `after_concat` — the place after one more character
* `find_append` — the place that is found between two parts of a text
* `after_append` — the place after two texts
-/

namespace GrammarLayers

namespace Position

/-- The place after a text: all bytes of the text lie before it, it is one line further down for
each newline, and one column further on for each character after the last newline. -/
def after (before : List Char) : Position where
  offset := byteSize before
  line := before.count '\n' + 1
  column := (before.rtakeWhile (· != '\n')).length + 1

theorem after_nil : after [] = start := rfl

theorem after_concat (before : List Char) (c : Char) :
    after (before ++ [c]) = (after before).next c := by
  by_cases hc : c = '\n'
  · subst hc
    simp [after, next]
  · simp [after, next, hc]

theorem foldl_next_start (before : List Char) : before.foldl next start = after before := by
  induction before using List.reverseRecOn with
  | nil => exact after_nil.symm
  | append_singleton before c ih => rw [List.foldl_concat, ih, after_concat]

@[simp] theorem next_offset (p : Position) (c : Char) :
    (p.next c).offset = p.offset + c.utf8Size := by
  unfold next
  split <;> rfl

/-- Every character before the offset is passed, and none after it. -/
theorem findFrom_append (p : Position) (a b : List Char) :
    findFrom (p.offset + byteSize a) p (a ++ b) = a.foldl next p := by
  induction a generalizing p with
  | nil =>
    cases b with
    | nil => rfl
    | cons c b =>
      have hpos := c.utf8Size_pos
      rw [List.nil_append, findFrom, if_neg (by rw [byteSize_nil]; omega), List.foldl_nil]
  | cons c a ih =>
    have hoffset : p.offset + byteSize (c :: a) = (p.next c).offset + byteSize a := by
      rw [next_offset, byteSize_cons, Nat.add_assoc]
    rw [List.cons_append, findFrom, if_pos (by rw [byteSize_cons]; omega), hoffset, ih,
      List.foldl_cons]

/-- What is found between two parts of a text is the place after the first. -/
theorem find_append (a b : List Char) : find (a ++ b) (byteSize a) = after a := by
  rw [find, ← foldl_next_start, ← findFrom_append start a b]
  simp [start]

theorem find_byteSize (text : List Char) : find text (byteSize text) = after text := by
  have hfind := find_append text []
  rwa [List.append_nil] at hfind

/-- The same place of a text that stands behind the text `front`: all bytes and newlines of `front`
come before it, and its first line goes on where the last line of `front` ends. -/
def behind (front : List Char) (p : Position) : Position where
  offset := byteSize front + p.offset
  line := front.count '\n' + p.line
  column :=
    if p.line = 1 then (front.rtakeWhile (· != '\n')).length + p.column else p.column

theorem behind_next (front : List Char) {p : Position} (hline : 0 < p.line) (c : Char) :
    (p.next c).behind front = (p.behind front).next c := by
  by_cases hc : c = '\n'
  -- after a newline the place is not on the first line, where the two columns differ
  · have hne : p.line ≠ 0 := by omega
    simp [behind, next, hc, hne, Nat.add_assoc]
  · simp only [behind, next, hc, if_false, Nat.add_assoc, Position.mk.injEq, true_and]
    split <;> omega

/-- The place after two texts is the place after the second one, behind the first. -/
theorem after_append (front text : List Char) :
    after (front ++ text) = (after text).behind front := by
  induction text using List.reverseRecOn with
  | nil => simp [behind, after]
  | append_singleton text c ih =>
    have hline : 0 < (after text).line := Nat.succ_pos _
    rw [← List.append_assoc, after_concat, after_concat, behind_next front hline, ih]

end Position

end GrammarLayers
