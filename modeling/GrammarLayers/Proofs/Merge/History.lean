import GrammarLayers.Proofs.Merge.Index
import GrammarLayers.Proofs.Text.ByteOrder
import GrammarLayers.Proofs.Text.UpperCase

/-!
# Histories of merging

What a grammar or a token table holds is told by its history, the items merged into it so far. Every
view of it shows the same items under the same names, and merging one more item gives back the last
one before it that had its name, or nothing if there was none. Nothing is lost on the way: the
productions that a grammar holds, with those it has given back, are those merged into it.

## Main definitions

* `displaced` — of items that come in after others, those that they displace
* `Grammar.Call`, `Grammar.Call.runAll` — calls that merge productions, one after another
* `Grammar.Describes`, `TokenTable.Describes` — all views show what a history says

## Main results

* `perm_overrideInPlace` — what one item displaces
* `Grammar.WellIndexed.perm_insertAll` — productions are held or given back
* `Grammar.calls_describe`, `TokenTable.definitions_describe` — what is there after any history
-/

namespace GrammarLayers

section
variable {α : Type} (name : α → String)

/-- Of items that come in after others, those that they displace: for each of them, the last one
before it that has its name. -/
def displaced (before : List α) : List α → List α
  | [] => []
  | x :: xs => (before.findRev? (name · = name x)).toList ++ displaced (before ++ [x]) xs

/-- An item that takes the place of another one leaves that one over, and nothing else. -/
theorem perm_overrideInPlace {items : List α} (hnodup : (items.map name).Nodup) (x : α) :
    (overrideInPlace name items x ++ (items.find? (name · = name x)).toList).Perm
      (items ++ [x]) := by
  unfold overrideInPlace
  cases hfind : items.find? (name · = name x) with
  | none =>
    rw [if_neg ((find?_name_eq_none_iff name).mp hfind), Option.toList_none, List.append_nil]
  | some y =>
    obtain ⟨hy, hname⟩ := (find?_eq_some_iff_of_nodup name hnodup).mp hfind
    obtain ⟨a, b, rfl⟩ := List.append_of_mem hy
    -- the items before and after the one that is replaced have other names
    have hother : name x ∉ a.map name ∧ name x ∉ b.map name := by
      rw [← hname]
      simp only [List.map_append, List.map_cons, List.nodup_middle, List.nodup_cons,
        List.mem_append, not_or] at hnodup
      exact hnodup.1
    rw [if_pos (by simp [hname]), List.map_append, List.map_cons, if_pos hname,
      map_ite_eq_self name hother.1, map_ite_eq_self name hother.2, Option.toList_some,
      List.append_assoc, List.append_assoc]
    apply List.Perm.append_left a
    exact (List.perm_append_singleton y (x :: b)).trans
      ((List.perm_append_singleton x b).symm.cons y)

end

/-! ### Productions -/

namespace Grammar

/-- A call that merges productions. -/
inductive Call where
  | insert (p : Production)
  | insertAll (ps : List Production)

namespace Call

/-- The productions that a call merges. -/
def productions : Call → List Production
  | insert p => [p]
  | insertAll ps => ps

/-- What a call gives back, and the grammar after it. -/
def run (g : Grammar) : Call → List Production × Grammar
  | insert p => ((g.insert p).1.toList, (g.insert p).2)
  | insertAll ps => g.insertAll ps

/-- What calls give back, one after another, and the grammar after them. -/
def runAll (g : Grammar) : List Call → List Production × Grammar
  | [] => ([], g)
  | call :: calls =>
    let (returned, g) := call.run g
    let (more, g) := runAll g calls
    (returned ++ more, g)

theorem run_eq_insertAll (g : Grammar) (call : Call) :
    call.run g = g.insertAll call.productions := by
  cases call with
  | insert p =>
    change (_, _) = ((g.insert p).1.toList ++ [], (g.insert p).2)
    rw [List.append_nil]
  | insertAll ps => rfl

/-- How the productions are spread over calls makes no difference. -/
theorem runAll_eq_insertAll (g : Grammar) (calls : List Call) :
    runAll g calls = g.insertAll (calls.flatMap productions) := by
  induction calls generalizing g with
  | nil => rfl
  | cons call calls ih =>
    rw [runAll, run_eq_insertAll, List.flatMap_cons]
    dsimp only
    rw [ih]
    exact Prod.ext (fst_insertAll_append g _ _).symm (insertAll_append g _ _).symm

end Call

/-- The views of a grammar show what its history says: the names in the order in which they first
came up, each with the last production that had it. The index gives each name its place, and no
other name any, so that all views show the same productions under the same names. -/
structure Describes (g : Grammar) (history : List Production) : Prop where
  names_nodup : g.names.Nodup
  names_eq : g.names = (history.map Production.name).eraseDups
  index_iff : ∀ (name : String) (slot : Nat),
    g.index[name]? = some slot ↔ g.names[slot]? = some name
  get?_eq : ∀ name, g.get? name = history.findRev? (·.name = name)
  toList_eq : g.toList.map some = g.names.map g.get?
  text?_eq : ∀ name, g.text? name = (history.findRev? (·.name = name)).map Production.text
  contains_iff : ∀ name, g.contains name = true ↔ name ∈ g.names
  size_eq : g.size = g.names.length
  isEmpty_iff : g.isEmpty = true ↔ g.names = []
  mem_texts_iff : ∀ name text, (name, text) ∈ g.texts ↔ g.text? name = some text
  texts_pairwise : g.texts.Pairwise fun a b => nameBytes a.1 < nameBytes b.1

variable {g : Grammar}

namespace WellIndexed

theorem contains_iff (h : g.WellIndexed) (name : String) :
    g.contains name = true ↔ name ∈ g.names := by
  have hindex : g.index[name]? = none ↔ name ∉ g.names := h.getElem?_eq_none_iff
  rw [contains, Std.HashMap.contains_eq_isSome_getElem?, ← not_iff_not, ← hindex,
    Bool.not_eq_true, Option.isSome_eq_false_iff, Option.isNone_iff_eq_none]

theorem mem_texts_iff (h : g.WellIndexed) (name text : String) :
    (name, text) ∈ g.texts ↔ g.text? name = some text := by
  rw [texts, (List.mergeSort_perm _ _).mem_iff, text?, List.mem_map, Option.map_eq_some_iff,
    h.get?_eq]
  simp only [find?_eq_some_iff_of_nodup Production.name h.nodup, Prod.mk.injEq, and_assoc]

/-- Sorted by their names, which are all different, the texts have names that go up. -/
theorem texts_pairwise (h : g.WellIndexed) :
    g.texts.Pairwise fun a b => nameBytes a.1 < nameBytes b.1 := by
  have hsorted : g.texts.Pairwise fun a b => nameBytes a.1 ≤ nameBytes b.1 :=
    pairwise_mergeSort_key Prod.fst _
  have hnodup : (g.texts.map Prod.fst).Nodup := by
    rw [texts, ((List.mergeSort_perm _ _).map Prod.fst).nodup_iff, List.map_map]
    exact h.nodup
  apply (hsorted.and (List.pairwise_map.mp hnodup)).imp
  rintro a b ⟨hle, hne⟩
  apply nameBytes_lt
  by_contra hlt
  exact hne (String.le_antisymm (nameBytes_le_iff.mp hle) (String.not_lt.mp hlt))

/-- Productions that are merged into a grammar are held by it in the end, or given back, and so are
those that it held before. -/
theorem perm_insertAll (h : g.WellIndexed) (ps : List Production) :
    ((g.insertAll ps).2.toList ++ (g.insertAll ps).1).Perm (g.toList ++ ps) := by
  induction ps generalizing g with
  | nil => exact .refl _
  | cons p ps ih =>
    have hstep := perm_overrideInPlace Production.name h.nodup p
    rw [← h.toList_insert, ← h.get?_eq, ← fst_insert] at hstep
    have hrest := ih (h.insert p)
    rw [Grammar.insertAll]
    dsimp only
    rw [List.perm_iff_count] at hstep hrest ⊢
    intro q
    have hstep := hstep q
    have hrest := hrest q
    simp only [List.count_append, List.count_cons, List.count_nil] at hstep hrest ⊢
    omega

end WellIndexed

theorem describes_insertAll (history : List Production) :
    (empty.insertAll history).2.Describes history := by
  obtain ⟨hindexed, -⟩ := wellIndexed_empty.insertAll history
  refine
    { names_nodup := hindexed.nodup
      names_eq := names_insertAll_empty history
      index_iff := hindexed
      get?_eq := get?_insertAll_empty history
      toList_eq := ?_
      text?_eq := ?_
      contains_iff := hindexed.contains_iff
      size_eq := ?_
      isEmpty_iff := ?_
      mem_texts_iff := hindexed.mem_texts_iff
      texts_pairwise := hindexed.texts_pairwise }
  · rw [← map_find?_name Production.name hindexed.nodup]
    exact List.map_congr_left fun name _ => (hindexed.get?_eq name).symm
  · intro name
    rw [text?, get?_insertAll_empty]
  · simp [size, names, toList]
  · simp [isEmpty, names, toList]

/-- What productions displace that are merged after others. -/
theorem fst_insertAll_insertAll (history ps : List Production) :
    ((empty.insertAll history).2.insertAll ps).1 = displaced Production.name history ps := by
  induction ps generalizing history with
  | nil => rfl
  | cons p ps ih =>
    have hnext : ((empty.insertAll history).2.insert p).2 =
        (empty.insertAll (history ++ [p])).2 := (insertAll_append empty history [p]).symm
    rw [insertAll, displaced]
    dsimp only
    rw [fst_insert, get?_insertAll_empty, hnext, ih]

/-- After any calls, all views of a grammar that was empty show what the calls have merged into it.
The next call gives back what it displaces: a production the one that was found under its name, many
productions for each the last one before it that has its name, in order. What the grammar holds and
what the calls have given back is together what they have merged. -/
theorem calls_describe (calls : List Call) :
    (Call.runAll empty calls).2.Describes (calls.flatMap Call.productions) ∧
      (∀ p, ((Call.runAll empty calls).2.insert p).1 =
        (Call.runAll empty calls).2.get? p.name) ∧
      (∀ ps, ((Call.runAll empty calls).2.insertAll ps).1 =
        displaced Production.name (calls.flatMap Call.productions) ps) ∧
      ((Call.runAll empty calls).2.toList ++ (Call.runAll empty calls).1).Perm
        (calls.flatMap Call.productions) := by
  rw [Call.runAll_eq_insertAll]
  refine ⟨describes_insertAll _, fun p => fst_insert _ p, fst_insertAll_insertAll _, ?_⟩
  exact wellIndexed_empty.perm_insertAll _

end Grammar

/-! ### Tokens -/

namespace TokenTable

/-- The views of a table show what its history says: the names in the order in which they last came
up, each with the token that it came up with then. The index gives each name its place, which lies
in the table, and no other name any, so that a spelling leads to the token whose name it upper-cases
to. -/
structure Describes (t : TokenTable) (history : List TokenDef) : Prop where
  names_nodup : t.names.Nodup
  names_eq : t.names = (history.map TokenDef.name).dedup
  toList_eq : t.toList.map some = t.names.map fun name => history.findRev? (·.name = name)
  index_iff : ∀ (name : String) (slot : Nat),
    t.index[name]? = some slot ↔ t.names[slot]? = some name
  lt_size : ∀ (name : String) (slot : Nat), t.index[name]? = some slot → slot < t.tokens.size
  get?_eq_some_iff : ∀ spelling token, t.get? spelling = some token ↔
    token ∈ t.toList ∧ token.name = upper spelling
  get?_name : ∀ token ∈ t.toList, t.get? token.name = some token

variable {t : TokenTable}

theorem WellIndexed.get?_eq_some_iff (h : t.WellIndexed) (spelling : String) (token : TokenDef) :
    t.get? spelling = some token ↔ token ∈ t.toList ∧ token.name = upper spelling := by
  rw [h.get?_eq, find?_eq_some_iff_of_nodup TokenDef.name h.nodup]

theorem WellIndexed.lt_size (h : t.WellIndexed) {name : String} {slot : Nat}
    (hslot : t.index[name]? = some slot) : slot < t.tokens.size := by
  have hname := (h name slot).mp hslot
  have hlt := (List.getElem?_eq_some_iff.mp hname).1
  rwa [List.length_map, toList, Array.length_toList] at hlt

theorem describes_insertAll {history : List TokenDef}
    (hupper : ∀ token ∈ history, upper token.name = token.name) :
    (empty.insertAll history).2.Describes history := by
  obtain ⟨hindexed, hlist⟩ := wellIndexed_empty.insertAll history
  have hnames : (empty.insertAll history).2.names = (history.map TokenDef.name).dedup := by
    rw [names, hlist]
    exact map_foldl_overrideAtEnd TokenDef.name history
  have hfind : ∀ name, (empty.insertAll history).2.toList.find? (·.name = name) =
      history.findRev? (·.name = name) := by
    intro name
    rw [hlist]
    exact find?_foldl_overrideAtEnd TokenDef.name history name
  refine
    { names_nodup := hindexed.nodup
      names_eq := hnames
      toList_eq := ?_
      index_iff := hindexed
      lt_size := fun _ _ => hindexed.lt_size
      get?_eq_some_iff := hindexed.get?_eq_some_iff
      get?_name := ?_ }
  · rw [← map_find?_name TokenDef.name hindexed.nodup]
    exact List.map_congr_left fun name _ => hfind name
  · intro token htoken
    -- each token of the table has been inserted, under a name in upper case
    have hfound := (find?_name_eq_some_iff TokenDef.name hindexed.nodup).mpr htoken
    rw [hfind] at hfound
    rw [hindexed.get?_eq_some_iff, hupper token (mem_of_findRev?_eq_some hfound)]
    exact ⟨htoken, rfl⟩

/-- After any definitions, a table that was empty shows each name with the definition that it was
last given. The next definition gives back the one that its name had, if it had any. -/
theorem definitions_describe (definitions : List (String × String × Option Path)) :
    let history := definitions.map fun (name, value, origin) => TokenDef.ofName name value origin
    (empty.insertAll history).2.Describes history ∧
      ∀ token old, ((empty.insertAll history).2.insert token).1 = some old ↔
        old ∈ (empty.insertAll history).2.toList ∧ old.name = token.name := by
  intro history
  have hupper : ∀ token ∈ history, upper token.name = token.name := by
    intro token htoken
    obtain ⟨⟨name, value, origin⟩, -, rfl⟩ := List.mem_map.mp htoken
    exact upper_upper name
  refine ⟨describes_insertAll hupper, ?_⟩
  intro token old
  have hindexed := (wellIndexed_empty.insertAll history).1
  rw [hindexed.fst_insert, find?_eq_some_iff_of_nodup TokenDef.name hindexed.nodup]

end TokenTable

end GrammarLayers
