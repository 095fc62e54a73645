import GrammarLayers.Proofs.Merge.Index
import Mathlib.Data.Finset.Card

/-!
# What merging displaces

Of names that come one after another, those are repeats that came up before. Merging items reports
the names of the items that they displace, and these are the repeats among their names, whether a
new item takes the place of the old one or goes to the end. A name that comes up `k` times is
repeated `k - 1` times, so that the repeats and the distinct names together make up all names.

## Main definitions

* `repeats` — the names that came up before, as often as they come up again

## Main results

* `repeats_append` — the repeats of names that come after others
* `count_repeats`, `length_repeats_empty_add_card` — how many repeats there are
* `Grammar.WellIndexed.map_insertAll`, `TokenTable.WellIndexed.map_insertAll` — merging reports the
  repeats
-/

namespace GrammarLayers

/-- Of names in order, those that came up before, where these have come up already. -/
def repeats (seen : Finset String) : List String → List String
  | [] => []
  | name :: names => (if name ∈ seen then [name] else []) ++ repeats (insert name seen) names

/-! ### How often names are repeated -/

section
variable (seen : Finset String) (names more : List String)

theorem repeats_append :
    repeats seen (names ++ more) = repeats seen names ++ repeats (seen ∪ names.toFinset) more := by
  induction names generalizing seen with
  | nil => simp [repeats]
  | cons name names ih =>
    rw [List.cons_append, repeats, repeats, ih, List.append_assoc, List.toFinset_cons,
      Finset.insert_union, Finset.union_insert]

/-- A name is repeated each time it comes up, apart from the first time if it is new. -/
theorem count_repeats (n : String) :
    (repeats seen names).count n = if n ∈ seen then names.count n else names.count n - 1 := by
  induction names generalizing seen with
  | nil => simp [repeats]
  | cons name names ih =>
    rw [repeats, List.count_append, ih, List.count_cons]
    -- after the first time, the name has come up already
    by_cases hname : name = n
    · subst hname
      by_cases hseen : name ∈ seen
      · simp [hseen, Nat.add_comm]
      · simp [hseen]
    · have hother : (if name ∈ seen then [name] else []).count n = 0 := by
        rw [List.count_eq_zero]
        split
        next => simpa using Ne.symm hname
        next => exact List.not_mem_nil
      rw [hother]
      simp [hname, Ne.symm hname]

/-- The repeats and the new names make up all names. -/
theorem length_repeats_add_card :
    (repeats seen names).length + (names.toFinset \ seen).card = names.length := by
  induction names generalizing seen with
  | nil => simp [repeats]
  | cons name names ih =>
    rw [repeats, List.length_append, List.length_cons, ← ih (insert name seen),
      List.toFinset_cons]
    by_cases hseen : name ∈ seen
    · rw [if_pos hseen, Finset.insert_eq_of_mem hseen, Finset.insert_sdiff_of_mem _ hseen,
        List.length_singleton]
      omega
    · -- the new name is one more among the new ones
      have hnew : insert name names.toFinset \ seen =
          insert name (names.toFinset \ insert name seen) := by
        ext n
        by_cases hn : n = name
        · simp [hn, hseen]
        · simp [hn]
      rw [if_neg hseen, hnew, Finset.card_insert_of_notMem (by simp), List.length_nil]
      omega

theorem length_repeats_empty_add_card :
    (repeats ∅ names).length + names.toFinset.card = names.length := by
  rw [← length_repeats_add_card ∅ names, Finset.sdiff_empty]

end

/-! ### What merging reports -/

/-- Items that are merged one after another report the repeats among their names, if each of them
reports what it displaces, and leaves its name and those that were there. -/
theorem map_insertAll_eq_repeats {σ α : Type} {name : α → String} {names : σ → List String}
    {insert : σ → α → Option α × σ} {insertAll : σ → List α → List α × σ} {Fits : σ → Prop}
    (hnil : ∀ s, insertAll s [] = ([], s))
    (hcons : ∀ s x xs, insertAll s (x :: xs) =
      ((insert s x).1.toList ++ (insertAll (insert s x).2 xs).1, (insertAll (insert s x).2 xs).2))
    (hfits : ∀ s x, Fits s → Fits (insert s x).2)
    (hdisplaced : ∀ s x, Fits s →
      (insert s x).1.toList.map name = if name x ∈ names s then [name x] else [])
    (hnames : ∀ s x, Fits s → (names (insert s x).2).toFinset =
      Insert.insert (name x) (names s).toFinset)
    {s : σ} (hs : Fits s) (xs : List α) :
    (insertAll s xs).1.map name = repeats (names s).toFinset (xs.map name) ∧
      (names (insertAll s xs).2).toFinset = (names s).toFinset ∪ (xs.map name).toFinset := by
  induction xs generalizing s with
  | nil => simp [hnil, repeats]
  | cons x xs ih =>
    -- what is seen before the rest is what has been inserted so far
    obtain ⟨hrest, hall⟩ := ih (hfits s x hs)
    rw [hcons, List.map_append, hdisplaced s x hs, hrest, hall, hnames s x hs, List.map_cons,
      repeats, List.toFinset_cons, Finset.insert_union, Finset.union_insert]
    simp only [List.mem_toFinset, and_self]

namespace Grammar

variable {g : Grammar}

theorem WellIndexed.map_insert (h : g.WellIndexed) (p : Production) :
    (g.insert p).1.toList.map Production.name = if p.name ∈ g.names then [p.name] else [] := by
  rw [fst_insert, h.get?_eq, map_toList_find?_name Production.name]
  rfl

theorem WellIndexed.toFinset_names_insert (h : g.WellIndexed) (p : Production) :
    (g.insert p).2.names.toFinset = Insert.insert p.name g.names.toFinset := by
  have hnames : (g.insert p).2.names =
      if p.name ∈ g.names then g.names else g.names ++ [p.name] := by
    rw [names, h.toList_insert, map_overrideInPlace]
    rfl
  rw [hnames]
  split
  next hmem => rw [Finset.insert_eq_of_mem (List.mem_toFinset.mpr hmem)]
  next => simp

/-- Merging productions reports the repeats among their names. -/
theorem WellIndexed.map_insertAll (h : g.WellIndexed) (ps : List Production) :
    (g.insertAll ps).1.map Production.name =
        repeats g.names.toFinset (ps.map Production.name) ∧
      (g.insertAll ps).2.names.toFinset =
        g.names.toFinset ∪ (ps.map Production.name).toFinset :=
  map_insertAll_eq_repeats (fun _ => rfl) (fun _ _ _ => rfl) (fun _ p h => h.insert p)
    (fun _ p h => h.map_insert p) (fun _ p h => h.toFinset_names_insert p) h ps

end Grammar

namespace TokenTable

variable {t : TokenTable}

theorem WellIndexed.map_insert (h : t.WellIndexed) (token : TokenDef) :
    (t.insert token).1.toList.map TokenDef.name =
      if token.name ∈ t.names then [token.name] else [] := by
  rw [h.fst_insert, map_toList_find?_name TokenDef.name]
  rfl

theorem WellIndexed.toFinset_names_insert (h : t.WellIndexed) (token : TokenDef) :
    (t.insert token).2.names.toFinset = Insert.insert token.name t.names.toFinset := by
  have hnames : (t.insert token).2.names =
      t.names.filter (· ≠ token.name) ++ [token.name] := by
    rw [names, h.toList_insert, map_overrideAtEnd]
    rfl
  rw [hnames]
  ext n
  by_cases hn : n = token.name
  · simp [hn]
  · simp [hn]

/-- Merging tokens reports the repeats among their names. -/
theorem WellIndexed.map_insertAll (h : t.WellIndexed) (tokens : List TokenDef) :
    (t.insertAll tokens).1.map TokenDef.name =
        repeats t.names.toFinset (tokens.map TokenDef.name) ∧
      (t.insertAll tokens).2.names.toFinset =
        t.names.toFinset ∪ (tokens.map TokenDef.name).toFinset :=
  map_insertAll_eq_repeats (fun _ => rfl) (fun _ _ _ => rfl) (fun _ token h => h.insert token)
    (fun _ token h => h.map_insert token) (fun _ token h => h.toFinset_names_insert token) h tokens

end TokenTable

end GrammarLayers
