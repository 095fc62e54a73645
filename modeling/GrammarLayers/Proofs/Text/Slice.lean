import GrammarLayers.Text.Position
import Mathlib.Data.List.Basic

/-!
# Pieces of a text

A byte offset that lies between two characters cuts a text in one way only, and so a range of
byte offsets holds at most one piece of the text. What a piece may border on is said by its first
and its last character.

## Main definitions

* `Span.Holds` — the piece of a text that a range of byte offsets holds
* `StartsOutside`, `EndsOutside` — a text does not start, or end, in a run of certain characters

## Main results

* `exists_append_of_byteSize_le` — two places in a text, by their offsets
* `splitAtByte_append` — a text cut between two characters
* `append_inj_of_endsOutside` — a text ends in one longest run
-/

namespace GrammarLayers

/-! ### Byte offsets -/

theorem byteSize_eq_zero_iff {s : List Char} : byteSize s = 0 ↔ s = [] := by
  cases s with
  | nil => simp
  | cons c s =>
    have := c.utf8Size_pos
    simp only [byteSize_cons, List.cons_ne_nil, iff_false]
    omega

theorem byteSize_pos {s : List Char} (h : s ≠ []) : 0 < byteSize s :=
  Nat.pos_of_ne_zero fun hzero => h (byteSize_eq_zero_iff.mp hzero)

/-- Of two places in a text, the one with the larger offset is further on. -/
theorem exists_append_of_byteSize_le {a b c d : List Char} (h : a ++ b = c ++ d)
    (hle : byteSize a ≤ byteSize c) : ∃ e, c = a ++ e ∧ b = e ++ d := by
  rcases List.append_eq_append_iff.mp h with ⟨e, rfl, rfl⟩ | ⟨e, rfl, rfl⟩
  · exact ⟨e, rfl, rfl⟩
  · rw [byteSize_append] at hle
    have he : e = [] := byteSize_eq_zero_iff.mp (by omega)
    subst he
    exact ⟨[], by simp⟩

theorem append_inj_of_byteSize_eq {a b c d : List Char} (h : a ++ b = c ++ d)
    (heq : byteSize a = byteSize c) : a = c ∧ b = d := by
  obtain ⟨e, rfl, rfl⟩ := exists_append_of_byteSize_le h (Nat.le_of_eq heq)
  rw [byteSize_append] at heq
  have he : e = [] := byteSize_eq_zero_iff.mp (by omega)
  subst he
  simp

theorem splitAtByte_append (a b : List Char) : splitAtByte (byteSize a) (a ++ b) = (a, b) := by
  induction a with
  | nil =>
    cases b with
    | nil => rfl
    | cons c b => simp [splitAtByte, Nat.ne_of_gt c.utf8Size_pos]
  | cons c a ih => simp [splitAtByte, ih]

/-- The range of byte offsets holds this piece of the text. -/
def Span.Holds (span : Span) (text piece : List Char) : Prop :=
  ∃ before after, text = before ++ piece ++ after ∧
    span = ⟨byteSize before, byteSize (before ++ piece)⟩

/-- A text is cut in one way at the first place where a character stands. -/
theorem append_cons_inj {a : Char} {x y u v : List Char} (h : x ++ a :: u = y ++ a :: v)
    (hx : a ∉ x) (hy : a ∉ y) : x = y ∧ u = v := by
  induction x generalizing y with
  | nil =>
    cases y with
    | nil => exact ⟨rfl, (List.cons.inj h).2⟩
    | cons b y => exact absurd ((List.cons.inj h).1 ▸ List.mem_cons_self) hy
  | cons b x ih =>
    cases y with
    | nil => exact absurd ((List.cons.inj h).1 ▸ List.mem_cons_self) hx
    | cons d y =>
      obtain ⟨rfl, hrest⟩ := List.cons.inj h
      obtain ⟨rfl, rfl⟩ := ih hrest (fun hmem => hx (List.mem_cons_of_mem b hmem))
        fun hmem => hy (List.mem_cons_of_mem b hmem)
      exact ⟨rfl, rfl⟩

/-- A piece of a text that starts before the end of some character, and does not have that
character in it, reaches no further than there. -/
theorem byteSize_le_of_notMem {a b x w y : List Char} {d : Char}
    (h : a ++ [d] ++ b = x ++ (w ++ y)) (hd : d ∉ w)
    (hlt : byteSize x < byteSize (a ++ [d])) : byteSize (x ++ w) ≤ byteSize (a ++ [d]) := by
  by_contra hbeyond
  obtain ⟨v, hv, -⟩ := exists_append_of_byteSize_le h.symm (Nat.le_of_lt hlt)
  rw [← List.append_assoc] at h
  obtain ⟨u, hu, -⟩ := exists_append_of_byteSize_le h (Nat.le_of_not_le hbeyond)
  rw [hv, List.append_assoc, List.append_cancel_left_eq] at hu
  -- the character is the last one of the part that starts with the piece
  have hne : v ≠ [] := by
    rintro rfl
    rw [hv, List.append_nil] at hlt
    exact Nat.lt_irrefl _ hlt
  have hlast := congrArg List.getLast? hv
  rw [List.getLast?_concat, List.getLast?_append_of_ne_nil x hne] at hlast
  exact hd (hu ▸ List.mem_append_left u (List.mem_of_getLast? hlast.symm))

/-! ### Borders of runs -/

/-- The text does not start with one of the characters. -/
def StartsOutside (p : Char → Bool) (s : List Char) : Prop := ∀ c ∈ s.head?, p c = false

/-- The text does not end in one of the characters. -/
def EndsOutside (p : Char → Bool) (s : List Char) : Prop := ∀ c ∈ s.getLast?, p c = false

variable {p : Char → Bool} {s u v x y : List Char} {c : Char}

@[simp] theorem startsOutside_nil : StartsOutside p [] := by simp [StartsOutside]

@[simp] theorem endsOutside_nil : EndsOutside p [] := by simp [EndsOutside]

@[simp] theorem startsOutside_cons_iff : StartsOutside p (c :: s) ↔ p c = false := by
  simp [StartsOutside]

@[simp] theorem endsOutside_concat_iff : EndsOutside p (s ++ [c]) ↔ p c = false := by
  simp [EndsOutside]

/-- What starts with some other characters does not start with these. -/
theorem StartsOutside.of_forall_append (hu : ∀ d ∈ u, p d = false) (hv : StartsOutside p v) :
    StartsOutside p (u ++ v) := by
  cases u with
  | nil => exact hv
  | cons d u => exact startsOutside_cons_iff.mpr (hu d List.mem_cons_self)

/-- What ends in some other characters does not end in these. -/
theorem EndsOutside.append_of_forall (hv : v ≠ []) (h : ∀ d ∈ v, p d = false) :
    EndsOutside p (u ++ v) := by
  intro d hd
  rw [List.getLast?_append_of_ne_nil u hv] at hd
  exact h d (List.mem_of_getLast? hd)

/-- A text ends in one longest run of certain characters. -/
theorem append_inj_of_endsOutside (h : x ++ u = y ++ v) (hx : EndsOutside p x)
    (hy : EndsOutside p y) (hu : ∀ d ∈ u, p d = true) (hv : ∀ d ∈ v, p d = true) :
    x = y ∧ u = v := by
  -- the longer of the two beginnings would end inside the run of the other
  have hlast : ∀ {z w : List Char}, EndsOutside p (z ++ w) → (∀ d ∈ w, p d = true) → w = [] := by
    intro z w hends hall
    rcases List.eq_nil_or_concat w with rfl | ⟨w', d, rfl⟩
    · rfl
    · rw [List.concat_eq_append, ← List.append_assoc, endsOutside_concat_iff] at hends
      simp [hall d (by simp)] at hends
  rcases List.append_eq_append_iff.mp h with ⟨w, rfl, rfl⟩ | ⟨w, rfl, rfl⟩
  · have hw : w = [] := hlast hy fun d hd => hu d (List.mem_append_left v hd)
    subst hw
    simp
  · have hw : w = [] := hlast hx fun d hd => hv d (List.mem_append_left u hd)
    subst hw
    simp

end GrammarLayers
