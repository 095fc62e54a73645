import Mathlib.Data.List.Dedup
import Mathlib.Data.List.Induction

/-!
# Orders of merging

Items that have names are merged one after another into a list that holds each name once. A new
item may take the place of the one that has its name, or go to the end in its stead, or give way to
it. Each of these says where in the list a name is found in the end, and with which of its items.

## Main definitions

* `overrideInPlace`, `overrideAtEnd`, `keepFirst` — merge one item

## Main results

* `map_foldl_overrideInPlace`, `find?_foldl_overrideInPlace` — names come in the order of their
  first items, each with its last one
* `map_foldl_overrideAtEnd`, `find?_foldl_overrideAtEnd` — names come in the order of their last
  items, each with that one
* `map_foldl_keepFirst`, `find?_foldl_keepFirst` — names come in the order of their first items,
  each with that one
* `find?_eq_some_iff_of_nodup`, `map_find?_name` — what is found where each name is there once
-/

namespace GrammarLayers

variable {α : Type} (name : α → String)

/-- The items with one more, which takes the place of the one that has its name. -/
def overrideInPlace (items : List α) (x : α) : List α :=
  if name x ∈ items.map name then items.map fun y => if name y = name x then x else y
  else items ++ [x]

/-- The items with one more at the end, without the one that has its name. -/
def overrideAtEnd (items : List α) (x : α) : List α :=
  items.filter (fun y => name y ≠ name x) ++ [x]

/-- The items with one more at the end, unless one of them has its name. -/
def keepFirst (items : List α) (x : α) : List α :=
  if name x ∈ items.map name then items else items ++ [x]

/-! ### The order of the names -/

theorem name_ite_eq (x y : α) : name (if name y = name x then x else y) = name y := by
  split
  next h => exact h.symm
  next => rfl

theorem map_overrideInPlace (items : List α) (x : α) :
    (overrideInPlace name items x).map name =
      if name x ∈ items.map name then items.map name else items.map name ++ [name x] := by
  unfold overrideInPlace
  split
  · rw [List.map_map]
    exact List.map_congr_left fun y _ => name_ite_eq name x y
  · exact List.map_append

theorem map_overrideAtEnd (items : List α) (x : α) :
    (overrideAtEnd name items x).map name = (items.map name).filter (· ≠ name x) ++ [name x] := by
  rw [overrideAtEnd, List.map_append, List.filter_map]
  rfl

theorem map_keepFirst (items : List α) (x : α) :
    (keepFirst name items x).map name =
      if name x ∈ items.map name then items.map name else items.map name ++ [name x] := by
  unfold keepFirst
  split
  · rfl
  · exact List.map_append

theorem eraseDups_concat (names : List String) (n : String) :
    (names ++ [n]).eraseDups = if n ∈ names then names.eraseDups else names.eraseDups ++ [n] := by
  rw [List.eraseDups_append]
  split
  next hmem => simp [List.removeAll, hmem]
  next hmem => simp [List.removeAll, hmem, List.eraseDups_cons]

theorem eraseDups_prefix_append (names more : List String) :
    names.eraseDups <+: (names ++ more).eraseDups := by
  rw [List.eraseDups_append]
  exact List.prefix_append _ _

theorem nodup_eraseDups (names : List String) : names.eraseDups.Nodup := by
  induction names using List.reverseRecOn with
  | nil => exact List.nodup_nil
  | append_singleton names n ih =>
    rw [eraseDups_concat]
    split
    next => exact ih
    next hnew =>
      rw [← List.mem_eraseDups] at hnew
      exact List.concat_eq_append ▸ ih.concat hnew

theorem map_foldl_overrideInPlace (items : List α) :
    (items.foldl (overrideInPlace name) []).map name = (items.map name).eraseDups := by
  induction items using List.reverseRecOn with
  | nil => rfl
  | append_singleton items x ih =>
    rw [List.foldl_concat, map_overrideInPlace, ih, List.map_append, List.map_singleton,
      eraseDups_concat]
    simp only [List.mem_eraseDups]

theorem map_foldl_keepFirst (items : List α) :
    (items.foldl (keepFirst name) []).map name = (items.map name).eraseDups := by
  induction items using List.reverseRecOn with
  | nil => rfl
  | append_singleton items x ih =>
    rw [List.foldl_concat, map_keepFirst, ih, List.map_append, List.map_singleton,
      eraseDups_concat]
    simp only [List.mem_eraseDups]

/-- Items that give way leave those before them as they are. -/
theorem prefix_foldl_keepFirst (start items : List α) :
    start <+: items.foldl (keepFirst name) start := by
  induction items using List.reverseRecOn with
  | nil => exact List.prefix_refl start
  | append_singleton items x ih =>
    rw [List.foldl_concat, keepFirst]
    split
    next => exact ih
    next => exact ih.trans (List.prefix_append _ _)

/-- Names that come up in the new items leave the places they had. -/
theorem map_foldl_overrideAtEnd_from (start items : List α) :
    (items.foldl (overrideAtEnd name) start).map name =
      (start.map name).filter (· ∉ items.map name) ++ (items.map name).dedup := by
  induction items generalizing start with
  | nil => simp
  | cons x items ih =>
    rw [List.foldl_cons, ih, map_overrideAtEnd, List.filter_append, List.filter_filter,
      List.append_assoc, List.map_cons]
    -- the names of the start that are left, and then that of `x`, unless it comes up again
    congr 1
    · apply List.filter_congr
      intro n _
      by_cases hn : n = name x
      · simp [hn]
      · simp [hn]
    · by_cases hmem : name x ∈ items.map name
      · rw [List.dedup_cons_of_mem hmem, List.filter_cons_of_neg (by simpa using hmem)]
        rfl
      · rw [List.dedup_cons_of_notMem hmem, List.filter_cons_of_pos (by simpa using hmem)]
        rfl

theorem map_foldl_overrideAtEnd (items : List α) :
    (items.foldl (overrideAtEnd name) []).map name = (items.map name).dedup :=
  map_foldl_overrideAtEnd_from name [] items

/-! ### Which items are there -/

/-- A merged list holds no other items than those merged into it. -/
theorem eq_or_mem_of_mem_overrideInPlace {items : List α} {x y : α}
    (h : y ∈ overrideInPlace name items x) : y = x ∨ y ∈ items := by
  unfold overrideInPlace at h
  split at h
  · obtain ⟨z, hz, rfl⟩ := List.mem_map.mp h
    split
    next => exact .inl rfl
    next => exact .inr hz
  · exact (List.mem_append.mp h).symm.imp_left List.mem_singleton.mp

theorem mem_or_mem_of_mem_foldl_overrideInPlace {items more : List α} {y : α}
    (h : y ∈ more.foldl (overrideInPlace name) items) : y ∈ more ∨ y ∈ items := by
  induction more using List.reverseRecOn with
  | nil => exact .inr h
  | append_singleton more x ih =>
    rw [List.foldl_concat] at h
    rcases eq_or_mem_of_mem_overrideInPlace name h with rfl | hmem
    · exact .inl (by simp)
    · exact (ih hmem).imp_left (List.mem_append_left [x])

theorem mem_or_mem_of_mem_foldl_overrideAtEnd {items more : List α} {y : α}
    (h : y ∈ more.foldl (overrideAtEnd name) items) : y ∈ more ∨ y ∈ items := by
  induction more using List.reverseRecOn with
  | nil => exact .inr h
  | append_singleton more x ih =>
    rw [List.foldl_concat, overrideAtEnd] at h
    rcases List.mem_append.mp h with hother | hlast
    · exact (ih (List.mem_of_mem_filter hother)).imp_left (List.mem_append_left [x])
    · exact .inl (List.mem_append_right more hlast)

/-! ### The items of a name -/

theorem find?_name_eq_none_iff {items : List α} {n : String} :
    items.find? (name · = n) = none ↔ n ∉ items.map name := by
  simp

theorem name_of_find?_eq_some {items : List α} {n : String} {y : α}
    (h : items.find? (name · = n) = some y) : name y = n := by
  have hdecide := List.find?_some h
  exact of_decide_eq_true hdecide

/-- Where each name is there once, an item is the one that is found under its name. -/
theorem find?_name_eq_some_iff {items : List α} (hnodup : (items.map name).Nodup) {x : α} :
    items.find? (name · = name x) = some x ↔ x ∈ items := by
  constructor
  · exact List.mem_of_find?_eq_some
  · intro hx
    cases hfind : items.find? (name · = name x) with
    | none => exact absurd (List.mem_map_of_mem hx) ((find?_name_eq_none_iff name).mp hfind)
    | some y =>
      have hname := name_of_find?_eq_some name hfind
      rw [List.inj_on_of_nodup_map hnodup (List.mem_of_find?_eq_some hfind) hx hname]

theorem find?_eq_some_iff_of_nodup {items : List α} (hnodup : (items.map name).Nodup) {n : String}
    {x : α} : items.find? (name · = n) = some x ↔ x ∈ items ∧ name x = n := by
  constructor
  · intro h
    exact ⟨List.mem_of_find?_eq_some h, name_of_find?_eq_some name h⟩
  · rintro ⟨hx, rfl⟩
    exact (find?_name_eq_some_iff name hnodup).mpr hx

/-- Under the names in order, the items are found in order. -/
theorem map_find?_name {items : List α} (hnodup : (items.map name).Nodup) :
    (items.map name).map (fun n => items.find? (name · = n)) = items.map some := by
  rw [List.map_map]
  apply List.map_congr_left
  intro x hx
  exact (find?_name_eq_some_iff name hnodup).mpr hx

/-- What is found under a name has that name. -/
theorem map_toList_find?_name (items : List α) (n : String) :
    (items.find? (name · = n)).toList.map name = if n ∈ items.map name then [n] else [] := by
  cases hfind : items.find? (name · = n) with
  | none =>
    rw [if_neg ((find?_name_eq_none_iff name).mp hfind)]
    rfl
  | some x =>
    obtain rfl := name_of_find?_eq_some name hfind
    rw [if_pos (List.mem_map_of_mem (List.mem_of_find?_eq_some hfind)), Option.toList_some,
      List.map_singleton]

theorem find?_overrideInPlace (items : List α) (x : α) (n : String) :
    (overrideInPlace name items x).find? (name · = n) =
      if name x = n then some x else items.find? (name · = n) := by
  unfold overrideInPlace
  split
  next hmem =>
    -- the search passes over the same items as before
    have hsearch : ((fun y => decide (name y = n)) ∘ fun y => if name y = name x then x else y) =
        fun y => decide (name y = n) := by
      funext y
      simp only [Function.comp_apply, name_ite_eq]
    rw [List.find?_map, hsearch]
    cases hfind : items.find? (name · = n) with
    | none =>
      have hne : name x ≠ n := by
        rintro rfl
        exact (find?_name_eq_none_iff name).mp hfind hmem
      simp [hne]
    | some y =>
      obtain rfl := name_of_find?_eq_some name hfind
      by_cases hx : name x = name y
      · simp [hx]
      · simp [hx, Ne.symm hx]
  next hmem =>
    rw [List.find?_append]
    by_cases hx : name x = n
    · subst hx
      rw [(find?_name_eq_none_iff name).mpr hmem]
      simp
    · simp [hx]

theorem find?_overrideAtEnd (items : List α) (x : α) (n : String) :
    (overrideAtEnd name items x).find? (name · = n) =
      if name x = n then some x else items.find? (name · = n) := by
  rw [overrideAtEnd, List.find?_append]
  -- the item that `x` replaces is gone, and the search for another name does not miss it
  by_cases hx : name x = n
  · have hgone : (items.filter fun y => name y ≠ name x).find? (name · = n) = none := by
      rw [find?_name_eq_none_iff]
      simp [hx]
    rw [hgone]
    simp [hx]
  · have hsame : (items.filter fun y => name y ≠ name x).find? (name · = n) =
        items.find? (name · = n) := by
      rw [List.find?_filter]
      congr 1
      funext y
      by_cases hy : name y = n
      · simp [hy, Ne.symm hx]
      · simp [hy]
    rw [hsame]
    simp [hx]

theorem find?_keepFirst (items : List α) (x : α) (n : String) :
    (keepFirst name items x).find? (name · = n) = (items ++ [x]).find? (name · = n) := by
  unfold keepFirst
  split
  next hmem =>
    -- what would be found at the end has a name that is found before
    rw [List.find?_append]
    cases hfind : items.find? (name · = n) with
    | some y => rfl
    | none =>
      have hne : name x ≠ n := by
        rintro rfl
        exact (find?_name_eq_none_iff name).mp hfind hmem
      simp [hne]
  next => rfl

theorem findRev?_append (items more : List α) (p : α → Bool) :
    (items ++ more).findRev? p = (more.findRev? p).or (items.findRev? p) := by
  rw [List.findRev?_eq_find?_reverse, List.reverse_append, List.find?_append,
    ← List.findRev?_eq_find?_reverse, ← List.findRev?_eq_find?_reverse]

theorem findRev?_concat (items : List α) (x : α) (p : α → Bool) :
    (items ++ [x]).findRev? p = if p x then some x else items.findRev? p := by
  rw [findRev?_append, List.findRev?_eq_find?_reverse, List.reverse_singleton,
    List.find?_singleton]
  split
  next => rfl
  next => exact Option.none_or

theorem mem_of_findRev?_eq_some {items : List α} {p : α → Bool} {x : α}
    (h : items.findRev? p = some x) : x ∈ items := by
  rw [List.findRev?_eq_find?_reverse] at h
  exact List.mem_reverse.mp (List.mem_of_find?_eq_some h)

theorem findRev?_name_eq_none_iff {items : List α} {n : String} :
    items.findRev? (name · = n) = none ↔ n ∉ items.map name := by
  rw [List.findRev?_eq_find?_reverse, find?_name_eq_none_iff, List.map_reverse,
    List.mem_reverse]

theorem find?_foldl_overrideInPlace (items : List α) (n : String) :
    (items.foldl (overrideInPlace name) []).find? (name · = n) =
      items.findRev? (name · = n) := by
  induction items using List.reverseRecOn with
  | nil => rfl
  | append_singleton items x ih =>
    rw [List.foldl_concat, find?_overrideInPlace, ih, findRev?_concat]
    simp only [decide_eq_true_eq]

theorem find?_foldl_overrideAtEnd (items : List α) (n : String) :
    (items.foldl (overrideAtEnd name) []).find? (name · = n) = items.findRev? (name · = n) := by
  induction items using List.reverseRecOn with
  | nil => rfl
  | append_singleton items x ih =>
    rw [List.foldl_concat, find?_overrideAtEnd, ih, findRev?_concat]
    simp only [decide_eq_true_eq]

theorem find?_foldl_keepFirst (items : List α) (n : String) :
    (items.foldl (keepFirst name) []).find? (name · = n) = items.find? (name · = n) := by
  induction items using List.reverseRecOn with
  | nil => rfl
  | append_singleton items x ih =>
    rw [List.foldl_concat, find?_keepFirst, List.find?_append, List.find?_append, ih]

end GrammarLayers
