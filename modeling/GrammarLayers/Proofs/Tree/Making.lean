import GrammarLayers.Proofs.Tree.Changing
import GrammarLayers.Proofs.Tree.WellNamed

/-!
# Trees that are made

Whatever is written, and whatever directories and links are made, the entries of a tree keep names
of their own: a new entry gets the last name of a path, and this is put in the stead of any entry
that had it. No directory goes, and so the working directory stays where it is. So all trees that
can be made are well named and have a working directory, whether or not what makes them succeeds.

## Main definitions

* `TreeAction.Keeps` — an action leaves well-named trees well named
* `FileTree.Made` — trees that are made from one without files
* `FileTree.KeepsWorkingDirectory` — the working directory stays where it is

## Main results

* `Directory.WellNamed.put`, `FileTree.WellNamed.put` — a new entry at a place made of names
* `Spot.Walks.isName_of_mem_place` — a walk leads to places made of names
* `FileTree.Made.wellNamed` — trees that are made are well named
* `FileTree.Made.hasWorkingDirectory` — trees that are made have a working directory
-/

namespace GrammarLayers

/-! ### New entries -/

namespace Directory

variable {d : Directory} {name : String} {entry : Entry}

theorem mem_map_fst_set {other : String} (h : other ∈ (Directory.set name entry d).map Prod.fst) :
    other = name ∨ other ∈ d.map Prod.fst := by
  induction d with
  | nil => exact .inl (List.mem_singleton.mp h)
  | cons first rest ih =>
    rw [Directory.set] at h
    split at h
    next => exact (List.mem_cons.mp h).imp_right (List.mem_cons_of_mem _)
    next =>
      rcases List.mem_cons.mp h with h | h
      · exact .inr (h ▸ List.mem_cons_self)
      · exact (ih h).imp_right (List.mem_cons_of_mem _)

theorem WellNamed.set (h : WellNamed d) (hname : IsName name) (hentry : entry.WellNamed) :
    WellNamed (Directory.set name entry d) := by
  induction d with
  | nil => exact ⟨hname, List.not_mem_nil, hentry, trivial⟩
  | cons first rest ih =>
    obtain ⟨hfirst, hnew, hold, hrest⟩ := h
    rw [Directory.set]
    split
    next heq => exact ⟨hname, heq ▸ hnew, hentry, hrest⟩
    next hne =>
      refine ⟨hfirst, fun hmem => ?_, hold, ih hrest⟩
      exact (mem_map_fst_set hmem).elim hne hnew

/-- Directories that are missing on the way to a place are made, and named as it says. -/
theorem WellNamed.put (h : WellNamed d) {place : Place} (hplace : ∀ name ∈ place, IsName name)
    (hentry : entry.WellNamed) : WellNamed (Directory.put d entry place) := by
  fun_induction Directory.put d entry place with
  | case1 d => exact h
  | case2 d name => exact h.set (hplace name List.mem_cons_self) hentry
  | case3 d name place _ ih =>
    obtain ⟨hname, hplace⟩ := List.forall_mem_cons.mp hplace
    exact h.set hname (ih (h.below name) hplace)

end Directory

theorem FileTree.WellNamed.put {t : FileTree} (h : t.WellNamed) {place : Place}
    (hplace : ∀ name ∈ place, IsName name) {entry : Entry} (hentry : entry.WellNamed) :
    (t.put place entry).WellNamed :=
  ⟨h.top.put hplace hentry, h.workingDirectory⟩

/-! ### Places that walks lead to -/

/-- A piece that is a step down is a name as a part of a path. -/
theorem ofPiece?_eq_name {piece : List Char} {name : String}
    (h : Step.ofPiece? piece = some (.down name)) :
    Component.ofPiece? piece = some (.name name) := by
  unfold Step.ofPiece? at h
  split at h
  next => cases h
  next hempty =>
    split at h
    next => cases h
    next hdot =>
      split at h
      next => cases h
      next hdots =>
        obtain rfl := Step.down.inj (Option.some.inj h)
        rw [Component.ofPiece?, if_neg (not_or.mpr ⟨hempty, hdot⟩), if_neg hdots]

theorem Path.isName_of_mem_steps {p : Path} {name : String} (h : .down name ∈ p.steps) :
    IsName name := by
  obtain ⟨piece, hpiece, hstep⟩ := List.mem_filterMap.mp h
  exact isName_of_ofPiece? (slash_notMem_of_mem_splitSlashes hpiece) (ofPiece?_eq_name hstep)

theorem Path.isName_of_mem_allSteps {p : Path} {name : String} (h : .down name ∈ p.allSteps) :
    IsName name := by
  rcases List.mem_append.mp h with h | h
  · exact isName_of_mem_steps h
  · split at h
    next => cases List.mem_singleton.mp h
    next => cases h

/-- A walk leads to a place made of names, also where nothing is there. -/
theorem Spot.Walks.isName_of_mem_place {links : Nat} {s : Spot} {steps : List Step}
    {target : Target} (h : Walks links s steps target) (hs : s.WellNamed)
    (hsteps : ∀ name, .down name ∈ steps → IsName name) :
    ∀ name ∈ target.place, IsName name := by
  induction h with
  | here links s => exact fun name hname => hs.isName_of_mem_place hname
  | stay _ ih => exact ih hs fun name hname => hsteps name (List.mem_cons_of_mem _ hname)
  | up _ ih => exact ih hs.up fun name hname => hsteps name (List.mem_cons_of_mem _ hname)
  | absent links _ _ =>
    intro other hother
    rcases List.mem_append.mp hother with hother | hother
    · exact hs.isName_of_mem_place hother
    · exact List.mem_singleton.mp hother ▸ hsteps _ List.mem_cons_self
  | file links _ _ =>
    intro other hother
    rcases List.mem_append.mp hother with hother | hother
    · exact hs.isName_of_mem_place hother
    · exact List.mem_singleton.mp hother ▸ hsteps _ List.mem_cons_self
  | directory _ _ _ ih =>
    exact ih (hs.down (hsteps _ List.mem_cons_self)) fun name hname =>
      hsteps name (List.mem_cons_of_mem _ hname)
  | link _ _ _ ih =>
    apply ih
    · split
      next => exact hs.top
      next => exact hs
    · intro name hname
      rcases List.mem_append.mp hname with hname | hname
      · -- the steps of a link are names as those of any path
        exact Path.isName_of_mem_allSteps hname
      · exact hsteps name (List.mem_cons_of_mem _ hname)

/-! ### Actions -/

/-- An action leaves trees well named that were so before, whether or not it succeeds. -/
def TreeAction.Keeps {α : Type} (x : TreeAction α) : Prop :=
  ∀ t : FileTree, t.WellNamed → (x.run.run t).2.WellNamed

namespace FileTree

variable {p : Path}

/-- A path leads to a place made of names, also where nothing is there. -/
theorem WellNamed.isName_of_resolve {t : FileTree} (h : t.WellNamed) {aim : Aim} {target : Target}
    (hresolve : t.resolve aim p = .ok target) : ∀ name ∈ target.place, IsName name :=
  (Spot.walks_of_walk_eq_ok hresolve).isName_of_mem_place (h.start p)
    fun _ => Path.isName_of_mem_allSteps

/-- The directory that a new entry goes to is at a place made of names. -/
theorem WellNamed.isName_of_parent {t : FileTree} (h : t.WellNamed) {place : Place}
    {entries : Directory} (hparent : t.parent p p.steps = .ok (place, entries)) :
    ∀ name ∈ place, IsName name := by
  have hsteps : ∀ name, .down name ∈ p.steps.dropLast ++ [.stay] → IsName name := by
    intro name hname
    rcases List.mem_append.mp hname with hname | hname
    · exact Path.isName_of_mem_steps (List.dropLast_subset _ hname)
    · cases List.mem_singleton.mp hname
  exact (Spot.walks_of_walk_eq_ok (walk_of_parent hparent)).isName_of_mem_place (h.start p) hsteps

theorem keeps_write (bytes : ByteArray) : (write p bytes).Keeps := by
  intro t h
  rcases write_cases p bytes t with ⟨cause, hrun⟩ | ⟨target, -, hresolve, -, hrun⟩
  · rw [hrun]
    exact h
  · rw [hrun]
    exact h.put (h.isName_of_resolve hresolve) trivial

/-- A new entry is made under the last name of a path. -/
theorem keeps_create {entry : Entry} (hentry : entry.WellNamed) : (create p entry).Keeps := by
  intro t h
  rcases create_cases p entry t with
    ⟨cause, hrun⟩ | ⟨place, entries, name, hparent, hlast, -, hrun⟩
  · rw [hrun]
    exact h
  · rw [hrun]
    have hname : IsName name := Path.isName_of_mem_steps (List.mem_of_getLast? hlast)
    refine h.put ?_ hentry
    rw [List.forall_mem_append, List.forall_mem_singleton]
    exact ⟨h.isName_of_parent hparent, hname⟩

theorem keeps_makeLink (target : Path) : (makeLink p target).Keeps := by
  have hlink : (Entry.link target).WellNamed := trivial
  intro t h
  unfold makeLink
  rcases target.check with cause | _
  · exact h
  · rw [TreeAction.run_ok_bind]
    exact keeps_create hlink t h

theorem keeps_createDirectories : (createDirectories p).Keeps := by
  have hempty : (Entry.directory []).WellNamed := trivial
  have htrans : ∀ t t' t'' : FileTree, (t.WellNamed → t'.WellNamed) →
      (t'.WellNamed → t''.WellNamed) → t.WellNamed → t''.WellNamed := fun _ _ _ h h' => h' ∘ h
  exact relates_createDirectories (fun _ => id) htrans (fun _ => keeps_create hempty) p

/-- Trees that are made from one that holds nothing but the working directory. -/
inductive Made : FileTree → Prop
  | empty {place : Place} : (∀ name ∈ place, IsName name) →
    Made ⟨Directory.put [] (.directory []) place, place⟩
  | write {t : FileTree} (p : Path) (bytes : ByteArray) : Made t →
    Made ((FileTree.write p bytes).run.run t).2
  | createDirectories {t : FileTree} (p : Path) : Made t →
    Made ((FileTree.createDirectories p).run.run t).2
  | makeLink {t : FileTree} (p target : Path) : Made t →
    Made ((FileTree.makeLink p target).run.run t).2

/-- All trees that can be made are well named. -/
theorem Made.wellNamed {t : FileTree} (h : t.Made) : t.WellNamed := by
  induction h with
  | @empty place hplace =>
    have hempty : Directory.WellNamed [] := trivial
    exact ⟨hempty.put hplace hempty, hplace⟩
  | write p bytes _ ih => exact keeps_write bytes _ ih
  | createDirectories p _ ih => exact keeps_createDirectories _ ih
  | makeLink p target _ ih => exact keeps_makeLink target _ ih

/-! ### The working directory -/

/-- The working directory is the same, and it is still there if it was before. -/
structure KeepsWorkingDirectory (t t' : FileTree) : Prop where
  workingDirectory_eq : t'.workingDirectory = t.workingDirectory
  hasWorkingDirectory : t.HasWorkingDirectory → t'.HasWorkingDirectory

theorem KeepsWorkingDirectory.refl (t : FileTree) : t.KeepsWorkingDirectory t := ⟨rfl, id⟩

theorem KeepsWorkingDirectory.trans (t t' t'' : FileTree) (h : t.KeepsWorkingDirectory t')
    (h' : t'.KeepsWorkingDirectory t'') : t.KeepsWorkingDirectory t'' :=
  ⟨h'.workingDirectory_eq.trans h.workingDirectory_eq,
    h'.hasWorkingDirectory ∘ h.hasWorkingDirectory⟩

theorem keepsWorkingDirectory_create {entry : Entry} (hfile : ∀ bytes, entry ≠ .file bytes)
    (hnew : ∀ inner, entry = .directory inner → inner = []) (p : Path) :
    TreeAction.Relates KeepsWorkingDirectory (create p entry) := by
  intro t
  refine ⟨?_, fun hw => (keepsFiles_create hfile hnew p t hw).hasWorkingDirectory hw⟩
  rcases create_cases p entry t with ⟨cause, hrun⟩ | ⟨place, entries, name, -, -, -, hrun⟩
  · rw [hrun]
  · rw [hrun]
    rfl

theorem keepsWorkingDirectory_write (p : Path) (bytes : ByteArray) :
    TreeAction.Relates KeepsWorkingDirectory (write p bytes) := by
  intro t
  constructor
  · rcases write_cases p bytes t with ⟨cause, hrun⟩ | ⟨target, -, -, -, hrun⟩
    · rw [hrun]
    · rw [hrun]
      rfl
  · intro hw
    rcases write_eq hw p bytes with ⟨cause, hrun⟩ | ⟨place, t', hrun, hwrites, -⟩
    · rw [hrun]
      exact hw
    · rw [hrun]
      exact hwrites.hasWorkingDirectory hw

theorem keepsWorkingDirectory_makeLink (p target : Path) :
    TreeAction.Relates KeepsWorkingDirectory (makeLink p target) := by
  intro t
  unfold makeLink
  rcases target.check with cause | _
  · exact .refl t
  · rw [TreeAction.run_ok_bind]
    exact keepsWorkingDirectory_create (by rintro _ ⟨⟩) (by rintro _ ⟨⟩) p t

theorem keepsWorkingDirectory_createDirectories (p : Path) :
    TreeAction.Relates KeepsWorkingDirectory (createDirectories p) :=
  relates_createDirectories KeepsWorkingDirectory.refl KeepsWorkingDirectory.trans
    (keepsWorkingDirectory_create (by rintro _ ⟨⟩) (by rintro _ ⟨⟩; rfl)) p

/-- All trees that can be made have their working directory, if its names are short enough. -/
theorem Made.hasWorkingDirectory {t : FileTree} (h : t.Made)
    (hsize : ∀ name ∈ t.workingDirectory, name.utf8ByteSize ≤ nameLimit) :
    t.HasWorkingDirectory := by
  induction h with
  | @empty place _ =>
    refine ⟨?_, hsize⟩
    rcases List.eq_nil_or_concat' place with rfl | ⟨init, last, rfl⟩
    · exact ⟨[], rfl⟩
    · exact ⟨[], Directory.at?_put_self init last _ _⟩
  | write p bytes _ ih =>
    obtain ⟨hsame, hkeeps⟩ := keepsWorkingDirectory_write p bytes _
    exact hkeeps (ih (hsame ▸ hsize))
  | createDirectories p _ ih =>
    obtain ⟨hsame, hkeeps⟩ := keepsWorkingDirectory_createDirectories p _
    exact hkeeps (ih (hsame ▸ hsize))
  | makeLink p target _ ih =>
    obtain ⟨hsame, hkeeps⟩ := keepsWorkingDirectory_makeLink p target _
    exact hkeeps (ih (hsame ▸ hsize))

end FileTree

end GrammarLayers
