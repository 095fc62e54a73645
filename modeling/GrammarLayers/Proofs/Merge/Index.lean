import GrammarLayers.Merge.Grammar
import GrammarLayers.Merge.TokenTable
import GrammarLayers.Proofs.Merge.Order
import Mathlib.Data.List.InsertIdx

/-!
# Names and their places

Grammars and token tables find the items of a name through an index. As long as the index gives
each name its place in the order, and no other name any place, what is found is the item with that
name, and each name is there once. Merging keeps the index in step with the order, so that it can
be forgotten: what merging does is said by the items alone.

## Main definitions

* `Indexes` — an index gives each name its place, and nothing else
* `Grammar.WellIndexed`, `TokenTable.WellIndexed` — the index fits the order

## Main results

* `Indexes.concat`, `Indexes.eraseIdx` — the index after a name comes or goes
* `Indexes.bind_getElem?` — what is found through the index
* `Grammar.WellIndexed.toList_insert`, `Grammar.WellIndexed.get?_eq` — productions override in
  place
* `TokenTable.WellIndexed.toList_insert`, `TokenTable.WellIndexed.get?_eq` — tokens override at the
  end
* `Grammar.fst_insert`, `TokenTable.WellIndexed.fst_insert` — what is overridden
* `WordList.toList_insert` — words keep their first place
-/

namespace GrammarLayers

/-- The index gives each name its place, and nothing else. -/
def Indexes (index : Std.HashMap String Nat) (names : List String) : Prop :=
  ∀ (name : String) (slot : Nat), index[name]? = some slot ↔ names[slot]? = some name

namespace Indexes

variable {index : Std.HashMap String Nat} {names : List String} {name : String} {slot : Nat}

theorem empty : Indexes ∅ [] := by
  intro name slot
  simp

theorem nodup (h : Indexes index names) : names.Nodup := by
  rw [List.nodup_iff_getElem?_ne_getElem?]
  intro i j hij hj heq
  have hi : index[names[j]]? = some i := by
    rw [h, heq, List.getElem?_eq_getElem hj]
  have hj : index[names[j]]? = some j := by
    rw [h, List.getElem?_eq_getElem hj]
  rw [hi] at hj
  exact Nat.ne_of_lt hij (Option.some.inj hj)

theorem getElem?_eq_none_iff (h : Indexes index names) : index[name]? = none ↔ name ∉ names := by
  rw [List.mem_iff_getElem?, Option.eq_none_iff_forall_ne_some, not_exists]
  exact forall_congr' fun slot => not_congr (h name slot)

/-- A new name goes to the end. -/
theorem concat (h : Indexes index names) (hnew : name ∉ names) :
    Indexes (index.insert name names.length) (names ++ [name]) := by
  intro other place
  rw [Std.HashMap.getElem?_insert]
  simp only [beq_iff_eq]
  -- the new name stands at the end alone, and the others stand where they did
  by_cases hother : name = other
  · subst hother
    rw [if_pos rfl, Option.some.injEq]
    constructor
    · rintro rfl
      exact List.getElem?_concat_length
    · intro hplace
      rw [List.getElem?_append] at hplace
      split at hplace
      next => exact absurd (List.mem_of_getElem? hplace) hnew
      next hle =>
        have hlt := (List.getElem?_eq_some_iff.mp hplace).1
        rw [List.length_singleton] at hlt
        omega
  · rw [if_neg hother, h other place, List.getElem?_append]
    split
    next => exact Iff.rfl
    next hle =>
      rw [List.getElem?_eq_none (Nat.not_lt.mp hle), List.getElem?_singleton]
      simpa using fun _ => hother

/-- A name goes, and those after it move up. -/
theorem eraseIdx (h : Indexes index names) (hslot : index[name]? = some slot) :
    Indexes ((index.erase name).map fun _ place => if slot < place then place - 1 else place)
      (names.eraseIdx slot) := by
  intro other place
  have hname := (h name slot).mp hslot
  -- where the name that stands at `place` now has been before
  have hbefore : (names.eraseIdx slot)[place]? = some other ↔
      index[other]? = some (if place < slot then place else place + 1) := by
    rw [h, List.getElem?_eraseIdx]
    split
    next => exact Iff.rfl
    next => exact Iff.rfl
  rw [Std.HashMap.getElem?_map, Std.HashMap.getElem?_erase, hbefore]
  simp only [beq_iff_eq]
  -- of the removed name nothing is left, since its old place is skipped
  by_cases hother : name = other
  · subst hother
    rw [if_pos rfl, hslot]
    simp only [Option.map_none, reduceCtorEq, Option.some.injEq, false_iff]
    split
    next => omega
    next => omega
  · rw [if_neg hother, Option.map_eq_some_iff]
    constructor
    · rintro ⟨old, hold, rfl⟩
      have hne : old ≠ slot := by
        rintro rfl
        rw [h other old, hname] at hold
        exact hother (Option.some.inj hold)
      rw [hold, Option.some.injEq]
      split_ifs <;> omega
    · intro hold
      refine ⟨_, hold, ?_⟩
      split_ifs <;> omega

/-- What is found through the index is the item with the name. -/
theorem bind_getElem? {α : Type} {key : α → String} {items : List α}
    (h : Indexes index (items.map key)) (name : String) :
    (index[name]?.bind fun slot => items[slot]?) = items.find? (key · = name) := by
  cases hfind : items.find? (key · = name) with
  | none =>
    rw [h.getElem?_eq_none_iff.mpr ((find?_name_eq_none_iff key).mp hfind)]
    rfl
  | some x =>
    obtain ⟨slot, hslot⟩ := List.mem_iff_getElem?.mp (List.mem_of_find?_eq_some hfind)
    have hindex : index[name]? = some slot := by
      rw [h, List.getElem?_map, hslot, Option.map_some, name_of_find?_eq_some key hfind]
    rw [hindex]
    exact hslot

end Indexes

/-! ### Replacing and removing the item of a name -/

section
variable {α : Type} (name : α → String)

theorem map_ite_eq_self {items : List α} {x : α} (hnew : name x ∉ items.map name) :
    (items.map fun y => if name y = name x then x else y) = items := by
  apply (List.map_congr_left _).trans (List.map_id items)
  intro y hy
  apply if_neg
  intro hname
  exact hnew (List.mem_map.mpr ⟨y, hy, hname⟩)

theorem filter_ne_eq_self {items : List α} {n : String} (hnew : n ∉ items.map name) :
    (items.filter fun y => name y ≠ n) = items := by
  rw [List.filter_eq_self]
  intro y hy
  rw [decide_eq_true_eq]
  intro hname
  exact hnew (List.mem_map.mpr ⟨y, hy, hname⟩)

theorem set_eq_map {items : List α} (hnodup : (items.map name).Nodup) {slot : Nat} {x : α}
    (hslot : (items.map name)[slot]? = some (name x)) :
    items.set slot x = items.map fun y => if name y = name x then x else y := by
  induction items generalizing slot with
  | nil => simp at hslot
  | cons y items ih =>
    obtain ⟨hnotMem, hnodup⟩ := List.nodup_cons.mp hnodup
    rw [List.map_cons]
    cases slot with
    | zero =>
      have hname : name y = name x := by simpa using hslot
      rw [hname] at hnotMem
      rw [List.set_cons_zero, if_pos hname, map_ite_eq_self name hnotMem]
    | succ slot =>
      rw [List.map_cons, List.getElem?_cons_succ] at hslot
      have hname : name y ≠ name x := fun h => hnotMem (h ▸ List.mem_of_getElem? hslot)
      rw [List.set_cons_succ, if_neg hname, ih hnodup hslot]

theorem eraseIdx_eq_filter {items : List α} (hnodup : (items.map name).Nodup) {slot : Nat}
    {n : String} (hslot : (items.map name)[slot]? = some n) :
    items.eraseIdx slot = items.filter fun y => name y ≠ n := by
  induction items generalizing slot with
  | nil => simp at hslot
  | cons y items ih =>
    obtain ⟨hnotMem, hnodup⟩ := List.nodup_cons.mp hnodup
    cases slot with
    | zero =>
      have hname : name y = n := by simpa using hslot
      rw [hname] at hnotMem
      rw [List.eraseIdx_cons_zero, List.filter_cons_of_neg (by simpa using hname),
        filter_ne_eq_self name hnotMem]
    | succ slot =>
      rw [List.map_cons, List.getElem?_cons_succ] at hslot
      have hname : name y ≠ n := fun h => hnotMem (h ▸ List.mem_of_getElem? hslot)
      rw [List.eraseIdx_cons_succ, List.filter_cons_of_pos (by simpa using hname),
        ih hnodup hslot]

end

/-! ### Productions -/

namespace Grammar

variable {g : Grammar}

/-- The index fits the order of the productions. -/
def WellIndexed (g : Grammar) : Prop := Indexes g.index (g.toList.map Production.name)

theorem wellIndexed_empty : empty.WellIndexed := Indexes.empty

theorem WellIndexed.toList_insert (h : g.WellIndexed) (p : Production) :
    (g.insert p).2.toList = overrideInPlace Production.name g.toList p := by
  unfold Grammar.insert
  split
  next slot hslot =>
    have hname := (h _ _).mp hslot
    rw [overrideInPlace, if_pos (List.mem_of_getElem? hname)]
    rw [← set_eq_map Production.name h.nodup hname]
    exact Array.toList_setIfInBounds
  next hnone =>
    rw [overrideInPlace, if_neg (h.getElem?_eq_none_iff.mp hnone)]
    exact Array.toList_push

/-- Merging a production returns the one that was found under its name. -/
theorem fst_insert (g : Grammar) (p : Production) : (g.insert p).1 = g.get? p.name := by
  unfold Grammar.insert get?
  split
  next slot hslot =>
    rw [hslot]
    rfl
  next hnone =>
    rw [hnone]
    rfl

theorem WellIndexed.insert (h : g.WellIndexed) (p : Production) : (g.insert p).2.WellIndexed := by
  rw [WellIndexed, h.toList_insert, map_overrideInPlace]
  unfold Grammar.insert
  split
  next slot hslot =>
    rw [if_pos (List.mem_of_getElem? ((h _ _).mp hslot))]
    exact h
  next hnone =>
    have hnew := h.getElem?_eq_none_iff.mp hnone
    have hconcat := h.concat hnew
    rw [List.length_map, toList, Array.length_toList] at hconcat
    rw [if_neg hnew]
    exact hconcat

theorem insertAll_snd (g : Grammar) (ps : List Production) :
    (g.insertAll ps).2 = ps.foldl (fun g p => (g.insert p).2) g := by
  induction ps generalizing g with
  | nil => rfl
  | cons p ps ih => exact ih _

theorem insertAll_append (g : Grammar) (ps qs : List Production) :
    (g.insertAll (ps ++ qs)).2 = ((g.insertAll ps).2.insertAll qs).2 := by
  rw [insertAll_snd, insertAll_snd, insertAll_snd, List.foldl_append]

theorem fst_insertAll_append (g : Grammar) (ps qs : List Production) :
    (g.insertAll (ps ++ qs)).1 = (g.insertAll ps).1 ++ ((g.insertAll ps).2.insertAll qs).1 := by
  induction ps generalizing g with
  | nil => rfl
  | cons p ps ih =>
    simp only [List.cons_append, Grammar.insertAll, ih, List.append_assoc]

theorem WellIndexed.insertAll (h : g.WellIndexed) (ps : List Production) :
    (g.insertAll ps).2.WellIndexed ∧
      (g.insertAll ps).2.toList = ps.foldl (overrideInPlace Production.name) g.toList := by
  rw [insertAll_snd]
  induction ps generalizing g with
  | nil => exact ⟨h, rfl⟩
  | cons p ps ih =>
    rw [List.foldl_cons, List.foldl_cons, ← h.toList_insert p]
    exact ih (h.insert p)

/-- What is found under a name is the production of that name. -/
theorem WellIndexed.get?_eq (h : g.WellIndexed) (name : String) :
    g.get? name = g.toList.find? (·.name = name) := by
  rw [← h.bind_getElem? name, get?, toList]
  simp only [Array.getElem?_toList]

theorem WellIndexed.mem_toList_iff (h : g.WellIndexed) {p : Production} :
    p ∈ g.toList ↔ g.get? p.name = some p := by
  rw [h.get?_eq, find?_name_eq_some_iff Production.name h.nodup]

/-- Productions merged into an empty grammar: the names come in the order of their first
productions. -/
theorem names_insertAll_empty (ps : List Production) :
    (empty.insertAll ps).2.names = (ps.map Production.name).eraseDups := by
  rw [names, (wellIndexed_empty.insertAll ps).2]
  exact map_foldl_overrideInPlace Production.name ps

/-- Productions merged into an empty grammar: the last production of a name stands for it. -/
theorem get?_insertAll_empty (ps : List Production) (name : String) :
    (empty.insertAll ps).2.get? name = ps.findRev? (·.name = name) := by
  obtain ⟨hindexed, hlist⟩ := wellIndexed_empty.insertAll ps
  rw [hindexed.get?_eq, hlist]
  exact find?_foldl_overrideInPlace Production.name ps name

end Grammar

/-! ### Tokens -/

namespace TokenTable

variable {t : TokenTable}

/-- The index fits the order of the tokens. -/
def WellIndexed (t : TokenTable) : Prop := Indexes t.index (t.toList.map TokenDef.name)

theorem wellIndexed_empty : empty.WellIndexed := Indexes.empty

theorem WellIndexed.toList_remove (h : t.WellIndexed) (name : String) :
    (t.remove name).2.toList = t.toList.filter (·.name ≠ name) := by
  unfold TokenTable.remove
  split
  next slot hslot =>
    rw [← eraseIdx_eq_filter TokenDef.name h.nodup ((h _ _).mp hslot)]
    exact Array.toList_eraseIdxIfInBounds
  next hnone =>
    exact (filter_ne_eq_self TokenDef.name (h.getElem?_eq_none_iff.mp hnone)).symm

theorem WellIndexed.remove (h : t.WellIndexed) (name : String) :
    (t.remove name).2.WellIndexed := by
  unfold TokenTable.remove
  split
  next slot hslot =>
    have herase := h.eraseIdx hslot
    rw [List.eraseIdx_map, toList, ← Array.toList_eraseIdxIfInBounds] at herase
    exact herase
  next => exact h

theorem WellIndexed.toList_insert (h : t.WellIndexed) (token : TokenDef) :
    (t.insert token).2.toList = overrideAtEnd TokenDef.name t.toList token := by
  rw [overrideAtEnd, ← h.toList_remove]
  exact Array.toList_push

/-- Defining a token returns the one that has had its name. -/
theorem WellIndexed.fst_insert (h : t.WellIndexed) (token : TokenDef) :
    (t.insert token).1 = t.toList.find? (·.name = token.name) := by
  have hremoved : (t.insert token).1 = (t.remove token.name).1 := rfl
  have hfind : (t.index[token.name]?.bind fun slot => t.toList[slot]?) =
      t.toList.find? (·.name = token.name) := h.bind_getElem? token.name
  rw [hremoved, ← hfind]
  simp only [toList, Array.getElem?_toList]
  unfold TokenTable.remove
  split
  next slot hslot =>
    rw [hslot]
    rfl
  next hnone =>
    rw [hnone]
    rfl

theorem WellIndexed.insert (h : t.WellIndexed) (token : TokenDef) :
    (t.insert token).2.WellIndexed := by
  have hnew : token.name ∉ (t.remove token.name).2.toList.map TokenDef.name := by
    rw [h.toList_remove]
    simp
  have hconcat := (h.remove token.name).concat hnew
  rw [List.length_map, toList, Array.length_toList] at hconcat
  rw [WellIndexed, h.toList_insert, overrideAtEnd, ← h.toList_remove, List.map_append]
  exact hconcat

theorem insertAll_snd (t : TokenTable) (tokens : List TokenDef) :
    (t.insertAll tokens).2 = tokens.foldl (fun t token => (t.insert token).2) t := by
  induction tokens generalizing t with
  | nil => rfl
  | cons token tokens ih => exact ih _

theorem WellIndexed.insertAll (h : t.WellIndexed) (tokens : List TokenDef) :
    (t.insertAll tokens).2.WellIndexed ∧
      (t.insertAll tokens).2.toList = tokens.foldl (overrideAtEnd TokenDef.name) t.toList := by
  rw [insertAll_snd]
  induction tokens generalizing t with
  | nil => exact ⟨h, rfl⟩
  | cons token tokens ih =>
    rw [List.foldl_cons, List.foldl_cons, ← h.toList_insert token]
    exact ih (h.insert token)

/-- What is found under a spelling is the token of the upper-case name. -/
theorem WellIndexed.get?_eq (h : t.WellIndexed) (spelling : String) :
    t.get? spelling = t.toList.find? (·.name = upper spelling) := by
  rw [← h.bind_getElem? (upper spelling), get?, toList]
  simp only [Array.getElem?_toList]

end TokenTable

/-! ### Words -/

namespace WordList

variable (l : WordList)

theorem toList_insert (word : String) (origin : Path) :
    (l.insert word origin).2.toList =
      keepFirst TokenDef.name l.toList (.ofName word (upper word) origin) := by
  unfold WordList.insert keepFirst
  dsimp only
  generalize TokenDef.ofName word (upper word) origin = entry
  have hlisted : l.words.any (·.name == entry.name) = true ↔
      entry.name ∈ l.toList.map TokenDef.name := by
    rw [← Array.any_toList, List.any_eq_true, List.mem_map]
    simp only [beq_iff_eq, toList]
  split
  next hany => rw [if_pos (hlisted.mp hany)]
  next hany =>
    rw [if_neg (mt hlisted.mpr hany)]
    exact Array.toList_push

theorem toList_insertAll (words : List String) (origin : Path) :
    (l.insertAll words origin).toList =
      (words.map fun word => TokenDef.ofName word (upper word) origin).foldl
        (keepFirst TokenDef.name) l.toList := by
  induction words generalizing l with
  | nil => rfl
  | cons word words ih =>
    rw [List.map_cons, List.foldl_cons, ← toList_insert]
    exact ih _

end WordList

end GrammarLayers
