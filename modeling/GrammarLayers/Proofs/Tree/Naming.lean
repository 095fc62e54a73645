import GrammarLayers.Tree.Walk
import Mathlib.Data.List.Basic

/-!
# Names in paths

What stands between two slashes of a path is a name, unless it is nothing or some dots that mean a
directory. A path that is continued by a name has the same parts as before and this name after them,
whether or not it ended in a slash.

## Main definitions

* `IsName` — what an entry of a directory can be called

## Main results

* `isName_of_mem_components` — the names that a path is made of
* `Path.steps_join`, `Path.fileName?_join` — a path that is continued by a name
-/

namespace GrammarLayers

/-- An entry of a directory has a name that can stand between the slashes of a path, and does not
mean the directory itself or the one above it. -/
def IsName (name : String) : Prop :=
  name ≠ "" ∧ name ≠ "." ∧ name ≠ ".." ∧ '/' ∉ name.toList

instance : DecidablePred IsName := fun _ => inferInstanceAs (Decidable (_ ∧ _ ∧ _ ∧ _))

/-! ### Pieces between slashes -/

theorem splitSlashes_ne_nil (chars : List Char) : splitSlashes chars ≠ [] := by
  cases chars with
  | nil => exact List.cons_ne_nil _ _
  | cons c rest =>
    unfold splitSlashes
    split
    next => exact List.cons_ne_nil _ _
    next =>
      split
      next => exact List.cons_ne_nil _ _
      next => exact List.cons_ne_nil _ _

theorem splitSlashes_append_slash (chars more : List Char) :
    splitSlashes (chars ++ '/' :: more) = splitSlashes chars ++ splitSlashes more := by
  induction chars with
  | nil => rfl
  | cons c rest ih =>
    rw [List.cons_append, splitSlashes, splitSlashes, ih]
    obtain ⟨piece, pieces, hpieces⟩ := List.exists_cons_of_ne_nil (splitSlashes_ne_nil rest)
    rw [hpieces]
    split
    next => rfl
    next => rfl

theorem splitSlashes_of_notMem {chars : List Char} (h : '/' ∉ chars) :
    splitSlashes chars = [chars] := by
  induction chars with
  | nil => rfl
  | cons c rest ih =>
    rw [List.mem_cons, not_or] at h
    obtain ⟨hc, hrest⟩ := h
    rw [splitSlashes, if_neg (Ne.symm hc), ih hrest]

theorem slash_notMem_of_mem_splitSlashes {chars piece : List Char}
    (h : piece ∈ splitSlashes chars) : '/' ∉ piece := by
  induction chars generalizing piece with
  | nil =>
    obtain rfl := List.mem_singleton.mp h
    exact List.not_mem_nil
  | cons c rest ih =>
    obtain ⟨first, pieces, hpieces⟩ := List.exists_cons_of_ne_nil (splitSlashes_ne_nil rest)
    rw [splitSlashes, hpieces] at h
    rw [hpieces] at ih
    split at h
    next =>
      rcases List.mem_cons.mp h with rfl | h
      · exact List.not_mem_nil
      · exact ih h
    next hc =>
      -- the first piece has one more character, and this is no slash
      rcases List.mem_cons.mp h with rfl | h
      · rw [List.mem_cons, not_or]
        exact ⟨Ne.symm hc, ih List.mem_cons_self⟩
      · exact ih (List.mem_cons_of_mem first h)

/-! ### The names in a path -/

theorem isName_of_ofPiece? {piece : List Char} {name : String} (hslash : '/' ∉ piece)
    (h : Component.ofPiece? piece = some (.name name)) : IsName name := by
  unfold Component.ofPiece? at h
  split at h
  next => cases h
  next hpiece =>
    split at h
    next => cases h
    next hdots =>
      obtain rfl := Component.name.inj (Option.some.inj h)
      rw [not_or] at hpiece
      refine ⟨?_, ?_, ?_, ?_⟩
      · exact fun heq => hpiece.1 (by simpa using congrArg String.toList heq)
      · exact fun heq => hpiece.2 (by simpa using congrArg String.toList heq)
      · exact fun heq => hdots (by simpa using congrArg String.toList heq)
      · rwa [String.toList_ofList]

theorem IsName.ofPiece?_eq {name : String} (h : IsName name) :
    Component.ofPiece? name.toList = some (.name name) ∧
      Step.ofPiece? name.toList = some (.down name) := by
  obtain ⟨hempty, hdot, hdots, -⟩ := h
  have hne : name.toList ≠ [] ∧ name.toList ≠ ['.'] ∧ name.toList ≠ ['.', '.'] := by
    refine ⟨?_, ?_, ?_⟩
    · exact fun heq => hempty (String.toList_inj.mp heq)
    · exact fun heq => hdot (String.toList_inj.mp heq)
    · exact fun heq => hdots (String.toList_inj.mp heq)
  rw [Component.ofPiece?, Step.ofPiece?, String.ofList_toList]
  simp [hne]

theorem isName_of_mem_filterMap {pieces : List (List Char)} {name : String}
    (hpieces : ∀ piece ∈ pieces, '/' ∉ piece)
    (h : .name name ∈ pieces.filterMap Component.ofPiece?) : IsName name := by
  obtain ⟨piece, hpiece, hname⟩ := List.mem_filterMap.mp h
  exact isName_of_ofPiece? (hpieces piece hpiece) hname

/-- The names that a path is made of are names of entries. -/
theorem Path.isName_of_mem_components {p : Path} {name : String}
    (h : .name name ∈ p.components) : IsName name := by
  have hpieces : ∀ chars, ∀ piece ∈ splitSlashes chars, '/' ∉ piece :=
    fun chars piece => slash_notMem_of_mem_splitSlashes
  unfold Path.components at h
  split at h
  next rest _ =>
    -- the root is no name
    rcases List.mem_cons.mp h with h | h
    · cases h
    · exact isName_of_mem_filterMap (hpieces rest) h
  next =>
    split at h
    next pieces hsplit =>
      have hrest : ∀ piece ∈ pieces, '/' ∉ piece := by
        intro piece hpiece
        exact hpieces _ piece (hsplit ▸ List.mem_cons_of_mem _ hpiece)
      rcases List.mem_cons.mp h with h | h
      · cases h
      · exact isName_of_mem_filterMap hrest h
    next => exact isName_of_mem_filterMap (hpieces _) h

/-! ### Paths continued by a name -/

namespace Path

variable {p : Path} {name : String}

theorem isAbsolute_eq_false (h : IsName name) : (⟨name⟩ : Path).isAbsolute = false := by
  obtain ⟨-, -, -, hslash⟩ := h
  rw [isAbsolute, beq_eq_false_iff_ne]
  exact fun hhead => hslash (List.mem_of_mem_head? hhead)

/-- A name is put after the slash that the path ends in, or after a new one. -/
theorem toList_join (h : IsName name) :
    (p.text.toList = [] ∧ (p.join ⟨name⟩).text.toList = name.toList) ∨
      ∃ chars, (p.text.toList = chars ∨ p.text.toList = chars ++ ['/']) ∧ p.text.toList ≠ [] ∧
        (p.join ⟨name⟩).text.toList = chars ++ '/' :: name.toList := by
  rw [join, isAbsolute_eq_false h]
  rcases List.eq_nil_or_concat p.text.toList with hnil | ⟨chars, c, hconcat⟩
  · left
    simp [hnil]
  · right
    by_cases hc : c = '/'
    · exact ⟨chars, by simp [hconcat, hc]⟩
    · exact ⟨p.text.toList, by simp [hconcat, hc]⟩

/-- The name is one more piece between slashes, in the stead of the empty one after the last
slash. -/
theorem exists_splitSlashes_join (h : IsName name) :
    ∃ pieces, splitSlashes (p.join ⟨name⟩).text.toList = pieces ++ [name.toList] ∧
      (splitSlashes p.text.toList = pieces ∨ splitSlashes p.text.toList = pieces ++ [[]]) := by
  have hname : splitSlashes name.toList = [name.toList] := splitSlashes_of_notMem h.2.2.2
  rcases toList_join (p := p) h with ⟨hnil, hjoin⟩ | ⟨chars, htext, -, hjoin⟩
  · refine ⟨[], ?_, .inr ?_⟩
    · rw [hjoin, hname, List.nil_append]
    · rw [hnil]
      rfl
  · refine ⟨splitSlashes chars, ?_, ?_⟩
    · rw [hjoin, splitSlashes_append_slash, hname]
    · refine htext.imp (congrArg splitSlashes) ?_
      intro htext
      rw [htext, splitSlashes_append_slash]
      rfl

/-- What the pieces of a path stand for, if an empty piece stands for nothing, and of this path
continued by a name. -/
theorem filterMap_splitSlashes_join {α : Type} {f : List Char → Option α} (hf : f [] = none)
    (h : IsName name) :
    (splitSlashes (p.join ⟨name⟩).text.toList).filterMap f =
      (splitSlashes p.text.toList).filterMap f ++ [name.toList].filterMap f := by
  obtain ⟨pieces, hjoin, hpieces⟩ := exists_splitSlashes_join (p := p) h
  have hempty : [[]].filterMap f = [] := by simp [hf]
  have hsame : (splitSlashes p.text.toList).filterMap f = pieces.filterMap f := by
    rcases hpieces with hpieces | hpieces
    · rw [hpieces]
    · rw [hpieces, List.filterMap_append, hempty, List.append_nil]
  rw [hjoin, List.filterMap_append, hsame]

/-- A path that is continued by a name has one more step. -/
theorem steps_join (h : IsName name) : (p.join ⟨name⟩).steps = p.steps ++ [.down name] := by
  have hstep : [name.toList].filterMap Step.ofPiece? = [.down name] := by
    simp [h.ofPiece?_eq.2]
  rw [steps, filterMap_splitSlashes_join rfl h, hstep, steps]

theorem endsInSlash_join (h : IsName name) : (p.join ⟨name⟩).endsInSlash = false := by
  obtain ⟨chars, hjoin⟩ : ∃ chars, (p.join ⟨name⟩).text.toList = chars ++ name.toList := by
    rcases toList_join (p := p) h with ⟨-, hjoin⟩ | ⟨chars, -, -, hjoin⟩
    · exact ⟨[], hjoin⟩
    · exact ⟨chars ++ ['/'], by rw [hjoin, List.append_assoc, List.singleton_append]⟩
  obtain ⟨hempty, -, -, hslash⟩ := h
  have hne : name.toList ≠ [] := fun heq => hempty (String.toList_inj.mp heq)
  rw [endsInSlash, hjoin, List.getLast?_append_of_ne_nil _ hne, beq_eq_false_iff_ne]
  exact fun hlast => hslash (List.mem_of_mem_getLast? hlast)

theorem allSteps_join (h : IsName name) :
    (p.join ⟨name⟩).allSteps = p.steps ++ [.down name] := by
  rw [allSteps, steps_join h, endsInSlash_join h]
  exact List.append_nil _

theorem isAbsolute_join (h : IsName name) (hp : p.text ≠ "") :
    (p.join ⟨name⟩).isAbsolute = p.isAbsolute := by
  have hne : p.text.toList ≠ [] := fun heq => hp (String.toList_inj.mp heq)
  rcases toList_join (p := p) h with ⟨hnil, -⟩ | ⟨chars, htext, -, hjoin⟩
  · exact absurd hnil hne
  · rw [isAbsolute, isAbsolute, hjoin]
    rcases htext with htext | htext
    · obtain ⟨c, rest, hcons⟩ := List.exists_cons_of_ne_nil hne
      rw [← htext, hcons]
      rfl
    · cases chars with
      | nil => rw [htext, List.nil_append, List.nil_append]; rfl
      | cons c rest => rw [htext]; rfl

/-- A path that is continued by a name ends in this name. -/
theorem fileName?_join (h : IsName name) : (p.join ⟨name⟩).fileName? = some name := by
  obtain ⟨pieces, hjoin, -⟩ := exists_splitSlashes_join (p := p) h
  -- whatever stands before the name, it is the last piece that counts
  have hlast : ∀ before, ((before ++ [name.toList]).filterMap Component.ofPiece?).getLast? =
      some (.name name) := by
    intro before
    simp [List.filterMap_append, h.ofPiece?_eq.1]
  have hcomponents : (p.join ⟨name⟩).components.getLast? = some (.name name) := by
    unfold components
    split
    next rest htext =>
      rw [htext, splitSlashes, if_pos rfl] at hjoin
      cases pieces with
      | nil => exact absurd (List.cons.inj hjoin).1.symm fun heq => h.1 (String.toList_inj.mp heq)
      | cons piece pieces =>
        rw [List.cons_append] at hjoin
        rw [(List.cons.inj hjoin).2, List.getLast?_cons, hlast]
        rfl
    next =>
      rw [hjoin]
      split
      next rest hrest =>
        cases pieces with
        | nil =>
          exact absurd (List.cons.inj hrest).1 fun heq => h.2.1 (String.toList_inj.mp heq)
        | cons piece pieces =>
          rw [List.cons_append] at hrest
          rw [← (List.cons.inj hrest).2, List.getLast?_cons, hlast]
          rfl
      next => exact hlast pieces
  rw [fileName?, hcomponents]

end Path

end GrammarLayers
