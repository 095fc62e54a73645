import GrammarLayers.Proofs.Tree.Following

/-!
# The places that walks get to

A walk starts at the top of a tree or at its working directory, and all directories that it goes
through lie in the tree under the names that lead to them. So what a walk finds is what the tree
has at the place that the walk leads to. Steps to the place itself are made by a walk, but what
a directory is cannot be told from them.

## Main definitions

* `FileTree.HasWorkingDirectory` — the working directory is one that a walk can start from
* `Spot.LiesIn` — the directories of a spot are found under their names
* `DropsStays` — steps from which some that stay have been taken out

## Main results

* `Directory.at?_append` — a place in a directory that is at a place
* `Spot.Walks.at?_eq` — what a walk finds is what is at the place it leads to
* `Spot.Walks.walk_eq` — steps lead to one target
* `Spot.Walks.directory_iff` — steps that stay make no difference to where a directory is
-/

namespace GrammarLayers

/-- The working directory of a tree is there, and a walk can go through its names. -/
structure FileTree.HasWorkingDirectory (t : FileTree) : Prop where
  exists_entries : ∃ entries, t.entry? t.workingDirectory = some (.directory entries)
  size_le : ∀ name ∈ t.workingDirectory, name.utf8ByteSize ≤ nameLimit

/-- The second steps are the first ones without some that stay. -/
inductive DropsStays : List Step → List Step → Prop
  | nil : DropsStays [] []
  | stay {a b : List Step} : DropsStays a b → DropsStays (.stay :: a) b
  | cons {a b : List Step} (step : Step) : DropsStays a b → DropsStays (step :: a) (step :: b)

namespace DropsStays

variable {a b : List Step}

theorem append_left (h : DropsStays a b) (steps : List Step) :
    DropsStays (steps ++ a) (steps ++ b) := by
  induction steps with
  | nil => exact h
  | cons step steps ih => exact .cons step ih

/-- All steps that stay may be taken out. -/
theorem filter (steps : List Step) : DropsStays steps (steps.filter (· != .stay)) := by
  induction steps with
  | nil => exact .nil
  | cons step steps ih =>
    cases step with
    | stay => exact .stay ih
    | up | down => exact .cons _ ih

theorem eq_replicate (h : DropsStays a []) : ∃ k, a = List.replicate k .stay := by
  generalize hb : ([] : List Step) = b at h
  induction h with
  | nil => exact ⟨0, rfl⟩
  | stay _ ih =>
    obtain ⟨k, rfl⟩ := ih hb
    exact ⟨k + 1, rfl⟩
  | cons => cases hb

theorem exists_append {step : Step} (h : DropsStays a (step :: b)) :
    ∃ k a', a = List.replicate k .stay ++ step :: a' ∧ DropsStays a' b := by
  generalize hb : step :: b = steps at h
  induction h with
  | nil => cases hb
  | stay _ ih =>
    obtain ⟨k, a', rfl, hdrops⟩ := ih hb
    exact ⟨k + 1, a', rfl, hdrops⟩
  | cons _ hdrops =>
    obtain ⟨rfl, rfl⟩ := List.cons.inj hb
    exact ⟨0, _, rfl, hdrops⟩

end DropsStays

/-- A place in a directory that is at a place. -/
theorem Directory.at?_append {d entries : Directory} {place : Place}
    (h : d.at? place = some (.directory entries)) (names : Place) :
    d.at? (place ++ names) = Directory.at? entries names := by
  induction place generalizing d with
  | nil =>
    obtain rfl := Entry.directory.inj (Option.some.inj h)
    rfl
  | cons name place ih =>
    cases place with
    | nil =>
      have hlookup : d.lookup name = some (.directory entries) := h
      cases names with
      | nil => exact h
      | cons next names =>
        -- a place of one name is looked up at once, a longer one goes through what is below
        change (d.below name).at? (next :: names) = _
        rw [below_of_lookup hlookup]
    | cons next place =>
      obtain ⟨inner, hlookup, hinner⟩ := exists_of_at?_cons h
      change (d.below name).at? (next :: place ++ names) = _
      rw [below_of_lookup hlookup, ih hinner]

namespace Spot

variable {links : Nat} {s : Spot} {steps : List Step} {target : Target} {name : String}
  {d entries : Directory}

/-! ### Spots in a tree -/

/-- The directory of a spot is found in this one under the names that lead to the spot, and so are
those on the way. -/
inductive LiesIn (d : Directory) : Spot → Prop
  | top : LiesIn d ⟨d, []⟩
  | down {s : Spot} {name : String} {entries : Directory} : LiesIn d s →
    s.here.lookup name = some (.directory entries) → LiesIn d (s.down name)

namespace LiesIn

theorem here_down (hlookup : s.here.lookup name = some (.directory entries)) :
    (s.down name).here = entries :=
  Directory.below_of_lookup hlookup

theorem at?_place (h : LiesIn d s) : d.at? s.place = some (.directory s.here) := by
  induction h with
  | top => rfl
  | down _ hlookup ih =>
    rw [place_down, Directory.at?_append ih, here_down hlookup]
    exact hlookup

/-- What a spot has under a name is in the tree at the place of this name. -/
theorem at?_concat (h : LiesIn d s) (name : String) :
    d.at? (s.place ++ [name]) = s.here.lookup name :=
  Directory.at?_append h.at?_place [name]

theorem up (h : LiesIn d s) : LiesIn d s.up := by
  cases h with
  | top => exact .top
  | down hs _ => exact hs

theorem top_eq (h : LiesIn d s) : s.top = ⟨d, []⟩ := by
  induction h with
  | top => rfl
  | @down s name _ _ _ ih =>
    have htop : (s.above.getLast?.map (·.2)).getD s.here = d := congrArg Spot.here ih
    have hlast : ((s.down name).above.getLast?.map (·.2)).getD (s.down name).here =
        (s.above.getLast?.map (·.2)).getD s.here := by
      simp only [Spot.down, List.getLast?_cons]
      cases s.above.getLast? <;> rfl
    rw [Spot.top, hlast, htop]

/-- A walk goes on from the top or from where it is if it follows a link. -/
theorem follow (h : LiesIn d s) (path : Path) :
    LiesIn d (if path.isAbsolute then s.top else s) := by
  split
  next => exact h.top_eq ▸ .top
  next => exact h

theorem descend (h : LiesIn d s) {names : Place}
    (hat : s.here.at? names = some (.directory entries)) :
    LiesIn d (s.descend names) ∧ (s.descend names).place = s.place ++ names ∧
      (s.descend names).here = entries := by
  induction names generalizing s with
  | nil => exact ⟨h, (List.append_nil _).symm, Entry.directory.inj (Option.some.inj hat)⟩
  | cons name names ih =>
    have hnext : ∃ inner, s.here.lookup name = some (.directory inner) ∧
        Directory.at? inner names = some (.directory entries) := by
      cases names with
      | nil => exact ⟨entries, hat, rfl⟩
      | cons next names => exact Directory.exists_of_at?_cons hat
    obtain ⟨inner, hlookup, hinner⟩ := hnext
    obtain ⟨hlies, hplace, hhere⟩ := ih (h.down hlookup) ((here_down hlookup).symm ▸ hinner)
    refine ⟨hlies, ?_, hhere⟩
    rw [Spot.descend, List.foldl_cons]
    rw [place_down, List.append_assoc] at hplace
    exact hplace

end LiesIn

/-! ### What walks find -/

namespace Walks

/-- What a walk finds is what is at the place that it leads to. -/
theorem at?_eq (h : Walks links s steps target) (hs : LiesIn d s) :
    d.at? target.place = target.entry? := by
  induction h with
  | here links s => exact hs.at?_place
  | stay _ ih => exact ih hs
  | up _ ih => exact ih hs.up
  | absent links _ hlookup | file links _ hlookup => rw [hs.at?_concat, hlookup]
  | directory _ hlookup _ ih => exact ih (hs.down hlookup)
  | link _ _ _ ih => exact ih (hs.follow _)

/-- Steps that lead to a target are followed to this target. -/
theorem walk_eq (h : Walks links s steps target) : s.walk .look links steps = .ok target := by
  induction h with
  | here links s => rw [walk]
  | stay _ ih | up _ ih => rw [walk, ih]
  | absent links hname hlookup =>
    rw [walk, reaches_look, hlookup, if_neg]
    · rfl
    · simpa using hname
  | file links hname hlookup => exact walk_down_file hname hlookup
  | directory hname hlookup _ ih => rw [walk_down_directory hname hlookup, ih]
  | link hname hlookup _ ih => rw [walk_down_link hname hlookup, ih]

/-- No name that a walk has gone through is too long, if none is on the way to where it starts. -/
theorem size_le (h : Walks links s steps target)
    (hs : ∀ outer ∈ s.above, outer.1.utf8ByteSize ≤ nameLimit) :
    ∀ name ∈ target.place, name.utf8ByteSize ≤ nameLimit := by
  have hplace : ∀ {s : Spot}, (∀ outer ∈ s.above, outer.1.utf8ByteSize ≤ nameLimit) →
      ∀ name ∈ s.place, name.utf8ByteSize ≤ nameLimit := by
    intro s hs name hname
    obtain ⟨outer, houter, rfl⟩ := List.mem_map.mp (List.mem_reverse.mp hname)
    exact hs outer houter
  induction h with
  | here links s => exact hplace hs
  | stay _ ih => exact ih hs
  | @up _ s _ _ _ ih =>
    refine ih fun outer houter => hs outer ?_
    unfold Spot.up at houter
    split at houter
    next => exact houter
    next habove => exact habove ▸ List.mem_cons_of_mem _ houter
  | absent links hname _ | file links hname _ =>
    intro other hother
    rcases List.mem_append.mp hother with hother | hother
    · exact hplace hs other hother
    · exact List.mem_singleton.mp hother ▸ hname
  | directory hname _ _ ih => exact ih (List.forall_mem_cons.mpr ⟨hname, hs⟩)
  | link _ _ _ ih =>
    -- nothing is above the top, where an absolute link starts
    apply ih
    split
    next => exact fun outer houter => absurd houter List.not_mem_nil
    next => exact hs

end Walks

/-! ### Steps that stay -/

namespace Walks

variable {steps' : List Step}

/-- A walk gets there without staying on the way. -/
theorem dropsStays (h : Walks links s steps target) (hdrops : DropsStays steps steps') :
    Walks links s steps' target := by
  -- all steps of the walk but those that stay are left
  induction h generalizing steps' with
  | here links s =>
    cases hdrops
    exact .here links s
  | stay _ ih =>
    cases hdrops with
    | stay hdrops => exact ih hdrops
    | cons _ hdrops => exact .stay (ih hdrops)
  | up _ ih =>
    cases hdrops with
    | cons _ hdrops => exact .up (ih hdrops)
  | absent links hname hlookup =>
    cases hdrops with
    | cons _ hdrops =>
      cases hdrops
      exact .absent links hname hlookup
  | file links hname hlookup =>
    cases hdrops with
    | cons _ hdrops =>
      cases hdrops
      exact .file links hname hlookup
  | directory hname hlookup _ ih =>
    cases hdrops with
    | cons _ hdrops => exact .directory hname hlookup (ih hdrops)
  | @link _ _ _ path _ _ hname hlookup _ ih =>
    cases hdrops with
    | cons _ hdrops => exact .link hname hlookup (ih (hdrops.append_left path.allSteps))

theorem replicate_stay (h : Walks links s steps target) (k : Nat) :
    Walks links s (List.replicate k .stay ++ steps) target := by
  induction k with
  | zero => exact h
  | succ k ih => exact .stay ih

/-- A walk to a directory may stay on the way, as often as it likes. -/
theorem of_dropsStays (h : Walks links s steps' target)
    (htarget : target.entry? = some (.directory entries)) (hdrops : DropsStays steps steps') :
    Walks links s steps target := by
  -- before each step of the walk, and after the last one, there may be some that stay
  induction h generalizing steps with
  | here links s =>
    obtain ⟨k, rfl⟩ := hdrops.eq_replicate
    have hstays := (Walks.here links s).replicate_stay k
    rwa [List.append_nil] at hstays
  | stay _ ih =>
    obtain ⟨k, rest, rfl, hrest⟩ := hdrops.exists_append
    exact (Walks.stay (ih htarget hrest)).replicate_stay k
  | up _ ih =>
    obtain ⟨k, rest, rfl, hrest⟩ := hdrops.exists_append
    exact (Walks.up (ih htarget hrest)).replicate_stay k
  -- a file has no room to stay in
  | absent links hname hlookup => cases htarget
  | file links hname hlookup => cases htarget
  | directory hname hlookup _ ih =>
    obtain ⟨k, rest, rfl, hrest⟩ := hdrops.exists_append
    exact (Walks.directory hname hlookup (ih htarget hrest)).replicate_stay k
  | @link _ _ _ path _ _ hname hlookup _ ih =>
    obtain ⟨k, rest, rfl, hrest⟩ := hdrops.exists_append
    have hnext := ih htarget (hrest.append_left path.allSteps)
    exact (Walks.link hname hlookup hnext).replicate_stay k

/-- Steps that stay make no difference to where a directory is. -/
theorem directory_iff (steps : List Step) (htarget : target.entry? = some (.directory entries)) :
    Walks links s steps target ↔ Walks links s (steps.filter (· != .stay)) target :=
  ⟨fun h => h.dropsStays (.filter steps), fun h => h.of_dropsStays htarget (.filter steps)⟩

end Walks

end Spot

/-! ### Trees -/

namespace FileTree

variable {t : FileTree} {p : Path} {aim : Aim} {target : Target} {place : Place}

theorem HasWorkingDirectory.liesIn_start (h : t.HasWorkingDirectory) (p : Path) :
    Spot.LiesIn t.top (t.start p) := by
  unfold start
  split
  next => exact .top
  next =>
    obtain ⟨entries, hentry⟩ := h.exists_entries
    exact (Spot.LiesIn.top.descend (s := ⟨t.top, []⟩) hentry).1

theorem HasWorkingDirectory.place_start (h : t.HasWorkingDirectory) (p : Path) :
    (t.start p).place = if p.isAbsolute then [] else t.workingDirectory := by
  unfold start
  split
  next => rfl
  next =>
    obtain ⟨entries, hentry⟩ := h.exists_entries
    exact (Spot.LiesIn.top.descend (s := ⟨t.top, []⟩) hentry).2.1

theorem HasWorkingDirectory.size_le_start (h : t.HasWorkingDirectory) (p : Path) :
    ∀ outer ∈ (t.start p).above, outer.1.utf8ByteSize ≤ nameLimit := by
  intro outer houter
  have hmem : outer.1 ∈ (t.start p).place := List.mem_reverse.mpr (List.mem_map_of_mem houter)
  rw [h.place_start] at hmem
  split at hmem
  next => exact absurd hmem List.not_mem_nil
  next => exact h.size_le outer.1 hmem

/-- What a path leads to is what the tree has at this place. -/
theorem HasWorkingDirectory.entry?_eq (h : t.HasWorkingDirectory)
    (hresolve : t.resolve aim p = .ok target) : t.entry? target.place = target.entry? :=
  (Spot.walks_of_walk_eq_ok hresolve).at?_eq (h.liesIn_start p)

theorem HasWorkingDirectory.size_le_place (h : t.HasWorkingDirectory)
    (hresolve : t.resolve aim p = .ok target) :
    ∀ name ∈ target.place, name.utf8ByteSize ≤ nameLimit :=
  (Spot.walks_of_walk_eq_ok hresolve).size_le (h.size_le_start p)

end FileTree

end GrammarLayers
