import GrammarLayers.Proofs.Tree.Places
import Mathlib.Logic.Relation

/-!
# Spellings of a path

Slashes that follow one another, single dots between them and a slash at the end make no part of a
path. So paths that differ in these have the same parts, and two paths with the same parts lead to
the same directories, whatever the tree.

## Main definitions

* `Path.lead` — what a path starts with before its first name
* `Path.Respells` — a path with slashes and dots that make no part
* `Step.ofComponent?` — the step that a part of a path stands for
* `Path.extend` — a path continued by names

## Main results

* `Path.Respells.components_eq` — paths spelled in two ways have the same parts
* `Path.components_extend` — the parts of a path that is continued by names
* `FileTree.resolve_directory_iff` — paths of the same parts lead to the same directories
-/

namespace GrammarLayers

/-- The step that a part of a path stands for. The slash that a path starts with and a single dot
are none. -/
def Step.ofComponent? : Component → Option Step
  | .root => none
  | .current => none
  | .parent => some .up
  | .name name => some (.down name)

namespace Path

/-- What a path starts with before its first name: the slash of an absolute path, or a single
dot. -/
def lead (chars : List Char) : List Component :=
  if chars.head? = some '/' then [.root]
  else if (splitSlashes chars).head? = some ['.'] then [.current]
  else []

/-- The one text stands for the same path as the other, and has slashes or single dots in it that
make no part of the path. -/
inductive Respells : List Char → List Char → Prop
  | slashes (a b : List Char) : Respells (a ++ '/' :: '/' :: b) (a ++ '/' :: b)
  | dot (a b : List Char) : Respells (a ++ '/' :: '.' :: '/' :: b) (a ++ '/' :: b)
  | lastSlash {a : List Char} : a ≠ [] → Respells (a ++ ['/']) a
  | lastDot {a : List Char} : a ≠ [] → Respells (a ++ ['/', '.']) a

/-- A path continued by names. -/
def extend (p : Path) (names : List String) : Path := names.foldl (fun p name => p.join ⟨name⟩) p

variable {p q : Path} {a b : List Char} {name : String} {names : List String}

/-! ### The parts of a path -/

theorem components_eq_lead (p : Path) :
    p.components =
      lead p.text.toList ++ (splitSlashes p.text.toList).filterMap Component.ofPiece? := by
  unfold components lead
  split
  next rest htext =>
    rw [htext]
    rfl
  next hslash =>
    have hhead : p.text.toList.head? ≠ some '/' := by
      intro hhead
      obtain ⟨rest, htext⟩ := List.head?_eq_some_iff.mp hhead
      exact hslash rest htext
    -- without a slash, a single dot counts only if the path starts with it
    rw [if_neg hhead]
    split
    next pieces hpieces =>
      rw [hpieces]
      rfl
    next hpieces =>
      rw [if_neg]
      · rfl
      · intro hfirst
        obtain ⟨pieces, hsplit⟩ := List.head?_eq_some_iff.mp hfirst
        exact hpieces pieces hsplit

theorem lead_append_slash (ha : a ≠ []) (b : List Char) : lead (a ++ '/' :: b) = lead a := by
  obtain ⟨c, rest, rfl⟩ := List.exists_cons_of_ne_nil ha
  obtain ⟨piece, pieces, hpieces⟩ := List.exists_cons_of_ne_nil (splitSlashes_ne_nil (c :: rest))
  rw [lead, lead, splitSlashes_append_slash, hpieces]
  rfl

theorem lead_slash (b b' : List Char) : lead (a ++ '/' :: b) = lead (a ++ '/' :: b') := by
  by_cases ha : a = []
  · subst ha
    rfl
  · rw [lead_append_slash ha, lead_append_slash ha]

/-- Paths spelled in two ways have the same parts. -/
theorem Respells.components_eq (h : Respells p.text.toList q.text.toList) :
    p.components = q.components := by
  rw [components_eq_lead, components_eq_lead]
  generalize p.text.toList = chars at h ⊢
  generalize q.text.toList = chars' at h ⊢
  let parts (chars : List Char) := (splitSlashes chars).filterMap Component.ofPiece?
  change lead chars ++ parts chars = lead chars' ++ parts chars'
  have happend : ∀ a b, parts (a ++ '/' :: b) = parts a ++ parts b := fun a b => by
    simp only [parts, splitSlashes_append_slash, List.filterMap_append]
  -- an empty piece and a single dot are no parts
  have hempty : parts [] = [] := by decide
  have hdot : parts ['.'] = [] := by decide
  cases h with
  | slashes a b =>
    have hparts : parts ('/' :: b) = parts [] ++ parts b := happend [] b
    rw [happend, hparts, hempty, List.nil_append, ← happend, lead_slash]
  | dot a b =>
    have hparts : parts ('.' :: '/' :: b) = parts ['.'] ++ parts b := happend ['.'] b
    rw [happend, hparts, hdot, List.nil_append, ← happend, lead_slash]
  | lastSlash ha => rw [happend, hempty, lead_append_slash ha, List.append_nil]
  | lastDot ha => rw [happend, hdot, lead_append_slash ha, List.append_nil]

theorem root_notMem_pieces (pieces : List (List Char)) :
    .root ∉ pieces.filterMap Component.ofPiece? := by
  intro hmem
  obtain ⟨piece, -, hpiece⟩ := List.mem_filterMap.mp hmem
  unfold Component.ofPiece? at hpiece
  split at hpiece
  next => cases hpiece
  next => split at hpiece <;> cases hpiece

theorem components_eq_of_eqvGen (h : Relation.EqvGen Respells p.text.toList q.text.toList) :
    p.components = q.components := by
  have hchars : ∀ {chars chars' : List Char}, Relation.EqvGen Respells chars chars' →
      (⟨String.ofList chars⟩ : Path).components = (⟨String.ofList chars'⟩ : Path).components := by
    intro chars chars' hgen
    induction hgen with
    | rel chars chars' hrespells =>
      refine Respells.components_eq ?_
      rwa [String.toList_ofList, String.toList_ofList]
    | refl => rfl
    | symm _ _ _ ih => exact ih.symm
    | trans _ _ _ _ _ ih ih' => exact ih.trans ih'
  simpa using hchars h

theorem isAbsolute_iff : p.isAbsolute ↔ .root ∈ p.components := by
  rw [components_eq_lead, List.mem_append, or_iff_left (root_notMem_pieces _), isAbsolute, lead,
    beq_iff_eq]
  split
  next hhead => exact iff_of_true hhead List.mem_cons_self
  next hhead =>
    refine iff_of_false hhead ?_
    split
    next => decide
    next => exact List.not_mem_nil

/-! ### Paths continued by names -/

theorem components_join (h : IsName name) :
    (p.join ⟨name⟩).components = p.components ++ [.name name] := by
  have hlead : lead (p.join ⟨name⟩).text.toList = lead p.text.toList := by
    rcases toList_join (p := p) h with ⟨hnil, hjoin⟩ | ⟨chars, htext, hne, hjoin⟩
    · have hhead : name.toList.head? ≠ some '/' := fun hhead =>
        h.2.2.2 (List.mem_of_mem_head? hhead)
      have hdot : [name.toList].head? ≠ some ['.'] := fun hdot =>
        h.2.1 (String.toList_inj.mp (Option.some.inj hdot))
      rw [hjoin, hnil, lead, splitSlashes_of_notMem h.2.2.2, if_neg hhead, if_neg hdot]
      rfl
    · rw [hjoin]
      rcases htext with htext | htext
      · rw [htext, lead_append_slash (htext ▸ hne)]
      · rw [htext, lead_slash]
  have hname : [name.toList].filterMap Component.ofPiece? = [.name name] := by
    simp [h.ofPiece?_eq.1]
  rw [components_eq_lead, components_eq_lead, hlead, filterMap_splitSlashes_join rfl h, hname,
    List.append_assoc]

theorem components_extend (h : ∀ name ∈ names, IsName name) :
    (p.extend names).components = p.components ++ names.map .name := by
  induction names generalizing p with
  | nil => exact (List.append_nil _).symm
  | cons name names ih =>
    obtain ⟨hname, hnames⟩ := List.forall_mem_cons.mp h
    rw [extend, List.foldl_cons, ← extend, ih hnames, components_join hname, List.append_assoc]
    rfl

theorem isAbsolute_extend (h : ∀ name ∈ names, IsName name) :
    (p.extend names).isAbsolute = p.isAbsolute := by
  rw [Bool.eq_iff_iff, isAbsolute_iff, isAbsolute_iff, components_extend h, List.mem_append,
    or_iff_left]
  simp

/-- A path that is continued by names has a step for each of them. -/
theorem allSteps_extend (h : ∀ name ∈ names, IsName name) (hne : names ≠ []) :
    (p.extend names).allSteps = p.steps ++ names.map .down := by
  induction names generalizing p with
  | nil => exact absurd rfl hne
  | cons name names ih =>
    obtain ⟨hname, hnames⟩ := List.forall_mem_cons.mp h
    rw [extend, List.foldl_cons, ← extend]
    by_cases hlast : names = []
    · subst hlast
      exact allSteps_join hname
    · rw [ih hnames hlast, steps_join hname, List.append_assoc]
      rfl

/-! ### The steps of a path -/

/-- The steps of a path that do not stay are those that its parts stand for. -/
theorem filter_allSteps (p : Path) :
    p.allSteps.filter (· != .stay) = p.components.filterMap Step.ofComponent? := by
  have hpieces : ∀ pieces : List (List Char),
      (pieces.filterMap Step.ofPiece?).filter (· != .stay) =
        (pieces.filterMap Component.ofPiece?).filterMap Step.ofComponent? := by
    intro pieces
    induction pieces with
    | nil => rfl
    | cons piece pieces ih =>
      rw [List.filterMap_cons, List.filterMap_cons, Step.ofPiece?, Component.ofPiece?]
      by_cases hempty : piece = []
      · simpa [hempty] using ih
      · by_cases hdot : piece = ['.']
        · simpa [hdot] using ih
        · by_cases hdots : piece = ['.', '.']
          · simpa [hdots, Step.ofComponent?] using ih
          · simpa [hempty, hdot, hdots, Step.ofComponent?] using ih
  -- what comes before the first name is no step, and what comes after the last one stays
  have hlead : (lead p.text.toList).filterMap Step.ofComponent? = [] := by
    unfold lead
    split
    next => rfl
    next => split <;> rfl
  have hlast : (if p.endsInSlash then [Step.stay] else []).filter (· != .stay) = [] := by
    split <;> rfl
  rw [allSteps, List.filter_append, hlast, List.append_nil, steps, hpieces, components_eq_lead,
    List.filterMap_append, hlead, List.nil_append]

end Path

namespace FileTree

variable {t : FileTree} {p q : Path} {place : Place} {entries : Directory}

theorem start_extend {names : List String} (h : ∀ name ∈ names, IsName name) :
    t.start (p.extend names) = t.start p := by
  rw [start, start, Path.isAbsolute_extend h]

/-- Two paths whose parts stand for the same steps lead to the same directories. -/
theorem resolve_directory_iff
    (hsteps : p.components.filterMap Step.ofComponent? = q.components.filterMap Step.ofComponent?)
    (hroot : .root ∈ p.components ↔ .root ∈ q.components) :
    t.resolve .look p = .ok ⟨place, some (.directory entries)⟩ ↔
      t.resolve .look q = .ok ⟨place, some (.directory entries)⟩ := by
  have hstart : t.start p = t.start q := by
    rw [start, start]
    congr 1
    rw [Path.isAbsolute_iff, Path.isAbsolute_iff, hroot]
  have hwalks : ∀ p, t.resolve .look p = .ok ⟨place, some (.directory entries)⟩ ↔
      Spot.Walks linkLimit (t.start p) (p.components.filterMap Step.ofComponent?)
        ⟨place, some (.directory entries)⟩ := fun p => by
    rw [← Path.filter_allSteps, ← Spot.Walks.directory_iff _ rfl]
    exact ⟨Spot.walks_of_walk_eq_ok, Spot.Walks.walk_eq⟩
  rw [hwalks, hwalks, hsteps, hstart]

end FileTree

end GrammarLayers
