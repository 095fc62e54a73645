import GrammarLayers.Proofs.Tree.Following

/-!
# Trees whose entries have names of their own

In a file system, the entries of a directory have names that can stand in a path, and no two of them
have the same name. This holds of everything that is found on a walk as well.

## Main definitions

* `Directory.WellNamed`, `FileTree.WellNamed` — entries have names of their own

## Main results

* `Directory.WellNamed.lookup_eq_some_iff` — an entry is what is found under its name
* `Spot.Walks.wellNamed` — what a walk gets to is well named
* `FileTree.WellNamed.stat`, `FileTree.WellNamed.canonical?` — the same for paths
-/

namespace GrammarLayers

mutual

/-- The entries at and below this one have names of their own. -/
def Entry.WellNamed : Entry → Prop
  | .file _ => True
  | .directory entries => Directory.WellNamed entries
  | .link _ => True

/-- The entries in and below a directory have names that can stand in a path, and no two in one
directory have the same. -/
def Directory.WellNamed : List (String × Entry) → Prop
  | [] => True
  | (name, entry) :: rest =>
    IsName name ∧ name ∉ rest.map Prod.fst ∧ Entry.WellNamed entry ∧ Directory.WellNamed rest

end

mutual

/-- Decides whether the entries at and below this one have names of their own. -/
def Entry.decidableWellNamed : (entry : Entry) → Decidable entry.WellNamed
  | .file _ => .isTrue trivial
  | .directory entries => Directory.decidableWellNamed entries
  | .link _ => .isTrue trivial

/-- Decides whether the entries in and below a directory have names of their own. -/
def Directory.decidableWellNamed : (d : List (String × Entry)) → Decidable (Directory.WellNamed d)
  | [] => .isTrue trivial
  | (name, entry) :: rest =>
    have := Entry.decidableWellNamed entry
    have := Directory.decidableWellNamed rest
    inferInstanceAs (Decidable (IsName name ∧ name ∉ rest.map Prod.fst ∧ entry.WellNamed ∧
      Directory.WellNamed rest))

end

instance : DecidablePred Directory.WellNamed := Directory.decidableWellNamed

/-- The entries of a tree have names of their own, and the way to the working directory is made of
names. -/
structure FileTree.WellNamed (t : FileTree) : Prop where
  top : Directory.WellNamed t.top
  workingDirectory : ∀ name ∈ t.workingDirectory, IsName name

/-- The directory of a spot and those above it are well named, and so is the way to it. -/
structure Spot.WellNamed (s : Spot) : Prop where
  here : Directory.WellNamed s.here
  above : ∀ outer ∈ s.above, IsName outer.1 ∧ Directory.WellNamed outer.2

namespace Directory

variable {d : Directory} {name : String} {entry : Entry}

theorem WellNamed.of_mem (h : WellNamed d) {e : String × Entry} (he : e ∈ d) :
    IsName e.1 ∧ e.2.WellNamed := by
  induction d with
  | nil => cases he
  | cons first rest ih =>
    obtain ⟨hname, -, hentry, hrest⟩ := h
    rcases List.mem_cons.mp he with rfl | he
    · exact ⟨hname, hentry⟩
    · exact ih hrest he

theorem WellNamed.nodup (h : WellNamed d) : (d.map Prod.fst).Nodup := by
  induction d with
  | nil => exact List.nodup_nil
  | cons first rest ih =>
    obtain ⟨-, hnew, -, hrest⟩ := h
    exact List.nodup_cons.mpr ⟨hnew, ih hrest⟩

theorem mem_of_lookup (h : d.lookup name = some entry) : (name, entry) ∈ d := by
  obtain ⟨before, after, rfl, -⟩ := List.lookup_eq_some_iff.mp h
  exact List.mem_append_right _ List.mem_cons_self

/-- An entry is what is found under its name. -/
theorem WellNamed.lookup_eq_some_iff (h : WellNamed d) :
    d.lookup name = some entry ↔ (name, entry) ∈ d := by
  constructor
  · exact mem_of_lookup
  · intro hmem
    obtain ⟨before, after, rfl⟩ := List.append_of_mem hmem
    have hnodup := h.nodup
    rw [List.map_append, List.nodup_append] at hnodup
    refine List.lookup_eq_some_iff.mpr ⟨before, after, rfl, ?_⟩
    intro e he
    have hne := hnodup.2.2 e.1 (List.mem_map_of_mem he) name (by simp)
    simpa using Ne.symm hne

/-- The directory under a name is well named, as is the empty one where there is none. -/
theorem WellNamed.below (h : WellNamed d) (name : String) : WellNamed (d.below name) := by
  unfold Directory.below
  split
  next entries hlookup => exact (h.of_mem (mem_of_lookup hlookup)).2
  next => exact trivial

end Directory

namespace Spot

variable {links : Nat} {s : Spot} {steps : List Step} {target : Target} {name : String}

theorem WellNamed.up (h : s.WellNamed) : s.up.WellNamed := by
  unfold Spot.up
  split
  next => exact h
  next hcons =>
    obtain ⟨houter, habove⟩ := List.forall_mem_cons.mp (hcons ▸ h.above)
    exact ⟨houter.2, habove⟩

theorem WellNamed.top (h : s.WellNamed) : s.top.WellNamed := by
  refine ⟨?_, fun outer houter => absurd houter List.not_mem_nil⟩
  unfold Spot.top
  cases hlast : s.above.getLast? with
  | none => exact h.here
  | some outer => exact (h.above outer (List.mem_of_getLast? hlast)).2

theorem WellNamed.down (h : s.WellNamed) (hname : IsName name) : (s.down name).WellNamed := by
  refine ⟨h.here.below name, ?_⟩
  exact List.forall_mem_cons.mpr ⟨⟨hname, h.here⟩, h.above⟩

theorem WellNamed.descend (h : s.WellNamed) {place : Place}
    (hplace : ∀ name ∈ place, IsName name) : (s.descend place).WellNamed := by
  induction place generalizing s with
  | nil => exact h
  | cons name place ih =>
    obtain ⟨hname, hplace⟩ := List.forall_mem_cons.mp hplace
    exact ih (h.down hname) hplace

theorem WellNamed.isName_of_mem_place (h : s.WellNamed) (hname : name ∈ s.place) :
    IsName name := by
  rw [place, List.mem_reverse] at hname
  obtain ⟨outer, houter, rfl⟩ := List.mem_map.mp hname
  exact (h.above outer houter).1

/-- What a walk gets to has a place made of names, and is well named. -/
theorem Walks.wellNamed (h : Walks links s steps target) (hs : s.WellNamed) {entry : Entry}
    (htarget : target.entry? = some entry) :
    (∀ name ∈ target.place, IsName name) ∧ entry.WellNamed := by
  induction h with
  | here links s =>
    obtain rfl := Option.some.inj htarget
    exact ⟨fun name hname => hs.isName_of_mem_place hname, hs.here⟩
  | stay _ ih => exact ih hs htarget
  | up _ ih => exact ih hs.up htarget
  | absent links _ _ => cases htarget
  | file links _ hlookup =>
    obtain rfl := Option.some.inj htarget
    have hname := (hs.here.of_mem (Directory.mem_of_lookup hlookup)).1
    refine ⟨?_, trivial⟩
    intro other hother
    rcases List.mem_append.mp hother with hother | hother
    · exact hs.isName_of_mem_place hother
    · exact List.mem_singleton.mp hother ▸ hname
  | directory _ hlookup _ ih =>
    have hname := (hs.here.of_mem (Directory.mem_of_lookup hlookup)).1
    exact ih (hs.down hname) htarget
  | link _ _ _ ih =>
    apply ih _ htarget
    split
    next => exact hs.top
    next => exact hs

end Spot

namespace FileTree

variable {t : FileTree} {p : Path}

theorem WellNamed.start (h : t.WellNamed) (p : Path) : (t.start p).WellNamed := by
  have htop : (⟨t.top, []⟩ : Spot).WellNamed :=
    ⟨h.top, fun outer houter => absurd houter List.not_mem_nil⟩
  unfold FileTree.start
  split
  next => exact htop
  next => exact htop.descend h.workingDirectory

theorem WellNamed.resolve (h : t.WellNamed) {aim : Aim} {place : Place} {entry : Entry}
    (hresolve : t.resolve aim p = .ok ⟨place, some entry⟩) :
    (∀ name ∈ place, IsName name) ∧ entry.WellNamed :=
  (Spot.walks_of_walk_eq_ok hresolve).wellNamed (h.start p) rfl

/-- A directory that a path leads to is well named. -/
theorem WellNamed.stat (h : t.WellNamed) {place : Place} {entries : Directory}
    (hstat : t.stat p = .ok (place, .directory entries)) : Directory.WellNamed entries :=
  (h.resolve (stat_eq_ok_iff.mp hstat).2).2

/-- The place that a path leads to is made of names. -/
theorem WellNamed.canonical? (h : t.WellNamed) {place : Place}
    (hplace : t.canonical? p = some place) : ∀ name ∈ place, IsName name := by
  unfold FileTree.canonical? at hplace
  split at hplace
  next hresolve =>
    obtain rfl := Option.some.inj hplace
    exact (h.resolve hresolve).1
  next => cases hplace

end FileTree

end GrammarLayers
