import GrammarLayers.Proofs.Text.Slice
import GrammarLayers.Text.Blank
import Mathlib.Data.List.DropRight
import Mathlib.Data.List.TakeWhile

/-!
# Trimming

Trimming takes away the blanks around a text, and leaves what stands between them, which has none at
its own ends. Nothing else in a text has this property, and so whatever stands between blanks in
this way is the trimmed text.

## Main results

* `filter_trim`, `trim_append_eq_iff` — what trimming removes
* `exists_append_trim`, `trim_eq_of_append` — what trimming leaves
* `trim_append_append`, `trim_trim` — blanks around a text, and trimming twice
-/

namespace GrammarLayers

variable {a b s t : List Char}

/-! ### The blanks around a text -/

theorem startsOutside_trimStart (s : List Char) : StartsOutside isBlank (trimStart s) := by
  intro c hc
  have hhead := List.head?_dropWhile_not isBlank s
  rw [← trimStart, Option.mem_def.mp hc] at hhead
  simpa using hhead

theorem trimStart_eq_self (h : StartsOutside isBlank s) : trimStart s = s := by
  cases s with
  | nil => rfl
  | cons c s => exact List.dropWhile_cons_of_neg (Bool.not_eq_true _ ▸ startsOutside_cons_iff.mp h)

theorem startsOutside_reverse_iff : StartsOutside isBlank s.reverse ↔ EndsOutside isBlank s := by
  rw [StartsOutside, EndsOutside, List.head?_reverse]

theorem endsOutside_trimEnd (s : List Char) : EndsOutside isBlank (trimEnd s) := by
  rw [← startsOutside_reverse_iff, trimEnd, List.reverse_reverse]
  exact startsOutside_trimStart s.reverse

theorem trimEnd_eq_self (h : EndsOutside isBlank s) : trimEnd s = s := by
  have hreverse := trimStart_eq_self (startsOutside_reverse_iff.mpr h)
  rw [trimEnd, ← trimStart, hreverse, List.reverse_reverse]

theorem trimEnd_append (hb : ∀ c ∈ b, isBlank c = true) : trimEnd (s ++ b) = trimEnd s := by
  have hreverse : ∀ c ∈ b.reverse, isBlank c = true := fun c hc => hb c (List.mem_reverse.mp hc)
  rw [trimEnd, List.reverse_append, List.dropWhile_append_of_pos hreverse]
  rfl

/-- Around what trimming leaves there are blanks, and it has none at its own ends. -/
theorem exists_append_trim (s : List Char) :
    ∃ a b, s = a ++ trim s ++ b ∧ (∀ c ∈ a, isBlank c = true) ∧ (∀ c ∈ b, isBlank c = true) ∧
      StartsOutside isBlank (trim s) ∧ EndsOutside isBlank (trim s) := by
  have hstart : s.takeWhile isBlank ++ trimStart s = s := List.takeWhile_append_dropWhile
  have hend : trim s ++ (trimStart s).rtakeWhile isBlank = trimStart s :=
    List.rdropWhile_append_rtakeWhile
  refine ⟨s.takeWhile isBlank, (trimStart s).rtakeWhile isBlank, ?_, ?_, ?_, ?_,
    endsOutside_trimEnd _⟩
  · rw [List.append_assoc, hend, hstart]
  · exact fun c hc => List.mem_takeWhile_imp hc
  · exact fun c hc => List.mem_rtakeWhile_imp hc
  · -- trimming at the end does not touch the start, unless nothing is left
    intro c hc
    apply startsOutside_trimStart s c
    rw [← hend, List.head?_append, Option.mem_def.mp hc]
    rfl

/-- Trimming removes blanks only. -/
theorem filter_trim (text : List Char) :
    (trim text).filter (!isBlank ·) = text.filter (!isBlank ·) := by
  have hnil : ∀ {s : List Char}, (∀ c ∈ s, isBlank c = true) → s.filter (!isBlank ·) = [] := by
    intro s hs
    rw [List.filter_eq_nil_iff]
    intro c hc
    simp [hs c hc]
  obtain ⟨a, b, htext, ha, hb, -⟩ := exists_append_trim text
  conv_rhs => rw [htext]
  rw [List.filter_append, List.filter_append, hnil ha, hnil hb, List.append_nil, List.nil_append]

/-- A character that is not blank is kept when a text is trimmed. -/
theorem mem_trim_iff {c : Char} (hc : isBlank c = false) {text : List Char} :
    c ∈ trim text ↔ c ∈ text := by
  have hfilter : ∀ s : List Char, c ∈ s ↔ c ∈ s.filter (!isBlank ·) := by
    intro s
    rw [List.mem_filter, hc]
    exact (and_iff_left rfl).symm
  rw [hfilter, filter_trim, ← hfilter]

/-- What stands before a text is trimmed away if it is blank, and not otherwise. -/
theorem trim_append_eq_iff {front text : List Char} :
    trim (front ++ text) = trim text ↔ ∀ c ∈ front, isBlank c = true := by
  constructor
  · intro h c hc
    have hfilter := congrArg (List.filter (!isBlank ·)) h
    rw [filter_trim, filter_trim, List.filter_append, List.append_left_eq_self,
      List.filter_eq_nil_iff] at hfilter
    simpa using hfilter c hc
  · intro h
    rw [trim, trimStart, List.dropWhile_append_of_pos h]
    rfl

/-- What stands between blanks and has none at its own ends is what trimming leaves. -/
theorem trim_eq_of_append (ha : ∀ c ∈ a, isBlank c = true) (hb : ∀ c ∈ b, isBlank c = true)
    (hstart : StartsOutside isBlank t) (hend : EndsOutside isBlank t) :
    trim (a ++ t ++ b) = t := by
  rw [List.append_assoc, trim_append_eq_iff.mpr ha, trim]
  cases t with
  | nil =>
    have hnil : trimStart b = [] := List.dropWhile_eq_nil_iff.mpr hb
    rw [List.nil_append, hnil]
    rfl
  | cons c t =>
    have hcons : StartsOutside isBlank (c :: t ++ b) := startsOutside_cons_iff.mpr
      (startsOutside_cons_iff.mp hstart)
    rw [trimStart_eq_self hcons, trimEnd_append hb, trimEnd_eq_self hend]

/-- Blanks around a text make no difference. -/
theorem trim_append_append (ha : ∀ c ∈ a, isBlank c = true) (hb : ∀ c ∈ b, isBlank c = true)
    (s : List Char) : trim (a ++ s ++ b) = trim s := by
  obtain ⟨a', b', hs, ha', hb', hstart, hend⟩ := exists_append_trim s
  have htext : a ++ s ++ b = (a ++ a') ++ trim s ++ (b' ++ b) := by
    conv_lhs => rw [hs]
    simp only [List.append_assoc]
  rw [htext]
  exact trim_eq_of_append (List.forall_mem_append.mpr ⟨ha, ha'⟩)
    (List.forall_mem_append.mpr ⟨hb', hb⟩) hstart hend

theorem trim_trim (s : List Char) : trim (trim s) = trim s := by
  obtain ⟨-, -, -, -, -, hstart, hend⟩ := exists_append_trim s
  rw [trim, trimStart_eq_self hstart, trimEnd_eq_self hend]

end GrammarLayers
