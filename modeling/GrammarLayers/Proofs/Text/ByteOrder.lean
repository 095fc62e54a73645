import Mathlib.Data.List.Lex

/-!
# Names in the order of their bytes

Names are compared character by character, and characters by their code points. The bytes that
names take in UTF-8 have the same order: of two characters, the later one has the larger byte at
the first place where their bytes differ, and there is such a place.

## Main definitions

* `nameBytes` — the bytes of a name

## Main results

* `utf8EncodeChar_append_lt` — the bytes of two characters, whatever follows them
* `nameBytes_le_iff` — names in the order of their bytes
* `pairwise_mergeSort_key` — items sorted by their names are in the order of the bytes of these
-/

namespace GrammarLayers

/-- The bytes that a name takes in UTF-8. -/
def nameBytes (name : String) : List UInt8 := name.toUTF8.data.toList

theorem nameBytes_eq_flatMap (name : String) :
    nameBytes name = name.toList.flatMap String.utf8EncodeChar := by
  rw [nameBytes, String.toUTF8_eq_toByteArray, ← String.utf8Encode_toList, List.utf8Encode,
    List.data_toByteArray]

theorem ofNat_lt_ofNat_iff {a b : Nat} (ha : a < 256) (hb : b < 256) :
    UInt8.ofNat a < UInt8.ofNat b ↔ a < b := by
  rw [UInt8.lt_iff_toNat_lt, UInt8.toNat_ofNat_of_lt' ha, UInt8.toNat_ofNat_of_lt' hb]

theorem ofNat_eq_ofNat_iff {a b : Nat} (ha : a < 256) (hb : b < 256) :
    UInt8.ofNat a = UInt8.ofNat b ↔ a = b := by
  rw [← UInt8.toNat_inj, UInt8.toNat_ofNat_of_lt' ha, UInt8.toNat_ofNat_of_lt' hb]

/-- The bytes of a character come before those of any later one, whatever follows them. -/
theorem utf8EncodeChar_append_lt {c d : Char} (h : c < d) (x y : List UInt8) :
    String.utf8EncodeChar c ++ x < String.utf8EncodeChar d ++ y := by
  have hlt : c.val.toNat < d.val.toNat := UInt32.lt_iff_toNat_lt.mp h
  have hvalid := d.valid
  simp only [UInt32.isValidChar, Nat.isValidChar] at hvalid
  have hd : d.val.toNat < 0x110000 := by omega
  have hthree : ∀ n : Nat, n / 4096 = n / 64 / 64 := fun n => (Nat.div_div_eq_div_mul n 64 64).symm
  have hfour : ∀ n : Nat, n / 262144 = n / 64 / 64 / 64 := by omega
  -- either there are fewer bytes, which the first one shows, or some byte is the first to differ
  unfold String.utf8EncodeChar
  dsimp only
  generalize c.val.toNat = v at hlt
  generalize d.val.toNat = w at hlt hd
  split_ifs <;>
    simp only [List.cons_append, List.cons_lt_cons_iff, hthree, hfour] <;>
    simp (disch := omega) only [ofNat_lt_ofNat_iff, ofNat_eq_ofNat_iff] <;>
    omega

theorem nameBytes_lt {a b : String} (h : a < b) : nameBytes a < nameBytes b := by
  rw [String.lt_iff] at h
  rw [nameBytes_eq_flatMap, nameBytes_eq_flatMap]
  generalize a.toList = s at h
  generalize b.toList = t at h
  induction h with
  | nil =>
    rw [List.flatMap_nil, List.flatMap_cons]
    obtain ⟨byte, bytes, hbytes⟩ := List.exists_cons_of_ne_nil (String.utf8EncodeChar_ne_nil)
    rw [hbytes]
    exact List.nil_lt_cons _ _
  | rel hcd =>
    rw [List.flatMap_cons, List.flatMap_cons]
    exact utf8EncodeChar_append_lt hcd _ _
  | cons _ ih =>
    rw [List.flatMap_cons, List.flatMap_cons]
    exact List.append_left_lt ih

/-- Names have the order of their bytes. -/
theorem nameBytes_le_iff {a b : String} : nameBytes a ≤ nameBytes b ↔ a ≤ b := by
  constructor
  · intro h
    by_contra hlt
    exact h (nameBytes_lt (String.not_le.mp hlt))
  · intro h
    by_cases heq : a = b
    · rw [heq]
      exact List.le_refl _
    · have hlt : a < b := by
        by_contra hle
        exact heq (String.le_antisymm h (String.not_lt.mp hle))
      exact List.le_of_lt (nameBytes_lt hlt)

/-- Items that are sorted by their names are in the order of the bytes of these. -/
theorem pairwise_mergeSort_key {α : Type} (name : α → String) (items : List α) :
    (items.mergeSort fun a b => name a ≤ name b).Pairwise
      fun a b => nameBytes (name a) ≤ nameBytes (name b) := by
  have hsorted : (items.mergeSort fun a b => name a ≤ name b).Pairwise
      fun a b => decide (name a ≤ name b) = true := by
    apply List.pairwise_mergeSort
    · intro a b c hab hbc
      rw [decide_eq_true_eq] at *
      exact String.le_trans hab hbc
    · intro a b
      rw [Bool.or_eq_true, decide_eq_true_eq, decide_eq_true_eq]
      exact String.le_total (name a) (name b)
  apply hsorted.imp
  intro a b hab
  exact nameBytes_le_iff.mpr (of_decide_eq_true hab)

end GrammarLayers
