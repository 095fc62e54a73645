import GrammarLayers.Proofs.Tree.Looking
import GrammarLayers.Proofs.Tree.Naming

/-!
# Following paths

A walk that succeeds goes through directories and links up to the place where its path leads. What
it went through on the way does not matter for what follows: a path that leads to a directory and is
continued by a name leads to the entry of that name in this directory, if the entry is no link.

## Main definitions

* `Spot.Walks` — where a walk gets to
* `Path.checkName` — refuses the entries of a directory that no system call takes

## Main results

* `Spot.walks_of_walk_eq_ok` — whatever a walk is for, it gets where its steps lead
* `Spot.Walks.exists_directory` — a walk that leads to a directory can go on from there
* `FileTree.stat_join` — what a directory has under a name
-/

namespace GrammarLayers

/-! ### Walks that succeed -/

/-- From the directory of a spot, these steps lead to the target, and take no more links than
these. -/
inductive Spot.Walks : Nat → Spot → List Step → Target → Prop
  | here (links : Nat) (s : Spot) : Walks links s [] ⟨s.place, some (.directory s.here)⟩
  | stay {links : Nat} {s : Spot} {rest : List Step} {target : Target} :
    Walks links s rest target → Walks links s (.stay :: rest) target
  | up {links : Nat} {s : Spot} {rest : List Step} {target : Target} :
    Walks links s.up rest target → Walks links s (.up :: rest) target
  | absent (links : Nat) {s : Spot} {name : String} : name.utf8ByteSize ≤ nameLimit →
    s.here.lookup name = none → Walks links s [.down name] ⟨s.place ++ [name], none⟩
  | file (links : Nat) {s : Spot} {name : String} {bytes : ByteArray} :
    name.utf8ByteSize ≤ nameLimit → s.here.lookup name = some (.file bytes) →
      Walks links s [.down name] ⟨s.place ++ [name], some (.file bytes)⟩
  | directory {links : Nat} {s : Spot} {name : String} {entries : Directory} {rest : List Step}
    {target : Target} : name.utf8ByteSize ≤ nameLimit →
      s.here.lookup name = some (.directory entries) → Walks links (s.down name) rest target →
      Walks links s (.down name :: rest) target
  | link {links : Nat} {s : Spot} {name : String} {path : Path} {rest : List Step}
    {target : Target} : name.utf8ByteSize ≤ nameLimit → s.here.lookup name = some (.link path) →
      Walks links (if path.isAbsolute then s.top else s) (path.allSteps ++ rest) target →
      Walks (links + 1) s (.down name :: rest) target

namespace Spot

variable {aim : Aim} {links : Nat} {s : Spot} {steps rest more : List Step} {target : Target}
  {name : String}

/-- Whatever a walk is for, it gets where its steps lead. -/
theorem walks_of_walk_eq_ok (h : s.walk aim links steps = .ok target) :
    Walks links s steps target := by
  fun_induction Spot.walk aim links s steps
  case case1 links s =>
    obtain rfl := Except.ok.inj h
    exact .here links s
  case case2 ih => exact .stay (ih h)
  case case3 ih => exact .up (ih h)
  case case5 hname hlookup hrest =>
    obtain rfl := Except.ok.inj h
    obtain rfl := List.isEmpty_iff.mp hrest
    exact .absent _ (by simp_all) hlookup
  case case7 hname _ hlookup hrest =>
    obtain rfl := Except.ok.inj h
    obtain rfl := List.isEmpty_iff.mp hrest
    exact .file _ (by simp_all) hlookup
  case case10 hname _ hlookup _ ih => exact .directory (by simp_all) hlookup (ih h)
  case case12 links start _ _ =>
    -- nothing is written through a link to a directory
    cases hwalk : start.walk aim links _ with
    | error cause =>
      rw [hwalk] at h
      cases h
    | ok _ =>
      rw [hwalk] at h
      cases h
  case case13 hname _ hlookup _ _ _ ih => exact .link (by simp_all) hlookup (ih h)
  all_goals cases h

/-- A walk goes on where a link leads. -/
theorem walk_down_link {path : Path} (hname : name.utf8ByteSize ≤ nameLimit)
    (hentry : s.here.lookup name = some (.link path)) :
    s.walk .look (links + 1) (.down name :: rest) =
      (if path.isAbsolute then s.top else s).walk .look links (path.allSteps ++ rest) := by
  rw [walk, reaches_look, hentry, if_neg]
  · simp
  · simpa using hname

namespace Walks

/-- A walk that leads to a directory can go on from there. -/
theorem exists_directory (h : Walks links s steps target) {entries : Directory}
    (htarget : target.entry? = some (.directory entries)) :
    ∃ (left : Nat) (stop : Spot), stop.place = target.place ∧ stop.here = entries ∧
      ∀ more, s.walk .look links (steps ++ more) = stop.walk .look left more := by
  induction h with
  | here links s =>
    obtain rfl := Entry.directory.inj (Option.some.inj htarget)
    exact ⟨links, s, rfl, rfl, fun more => rfl⟩
  | stay _ ih | up _ ih =>
    obtain ⟨left, stop, hplace, hhere, hmore⟩ := ih htarget
    refine ⟨left, stop, hplace, hhere, fun more => ?_⟩
    rw [List.cons_append, walk, hmore]
  | absent links _ _ => cases htarget
  | file links _ _ => cases htarget
  | directory hname hlookup _ ih =>
    obtain ⟨left, stop, hplace, hhere, hmore⟩ := ih htarget
    refine ⟨left, stop, hplace, hhere, fun more => ?_⟩
    rw [List.cons_append, walk_down_directory hname hlookup, hmore]
  | link hname hlookup _ ih =>
    obtain ⟨left, stop, hplace, hhere, hmore⟩ := ih htarget
    refine ⟨left, stop, hplace, hhere, fun more => ?_⟩
    rw [List.cons_append, walk_down_link hname hlookup, ← List.append_assoc, hmore]

/-- That a walk ends with a step to the place itself changes nothing about where it gets. -/
theorem of_concat_stay (h : Walks links s (steps ++ [.stay]) target) :
    Walks links s steps target := by
  -- the step at the end is the first one only if there are no others
  generalize hall : steps ++ [.stay] = all at h
  induction h generalizing steps with
  | here links s => simp at hall
  | stay hrest ih =>
    cases steps with
    | nil =>
      obtain rfl := (List.cons.inj hall).2
      exact hrest
    | cons step steps =>
      obtain ⟨rfl, hrest⟩ := List.cons.inj hall
      exact .stay (ih hrest)
  | up _ ih =>
    cases steps with
    | nil => cases hall
    | cons step steps =>
      obtain ⟨rfl, hrest⟩ := List.cons.inj hall
      exact .up (ih hrest)
  | absent links _ _ =>
    cases steps with
    | nil => cases hall
    | cons step steps => simp at hall
  | file links _ _ =>
    cases steps with
    | nil => cases hall
    | cons step steps => simp at hall
  | directory hname hlookup _ ih =>
    cases steps with
    | nil => cases hall
    | cons step steps =>
      obtain ⟨rfl, hrest⟩ := List.cons.inj hall
      exact .directory hname hlookup (ih hrest)
  | link hname hlookup _ ih =>
    cases steps with
    | nil => cases hall
    | cons step steps =>
      obtain ⟨rfl, rfl⟩ := List.cons.inj hall
      exact .link hname hlookup (ih (List.append_assoc _ _ _))

theorem entry?_ne_link (h : Walks links s steps target) (path : Path) :
    target.entry? ≠ some (.link path) := by
  induction h with
  | here links s => exact fun heq => Entry.noConfusion (Option.some.inj heq)
  | stay _ ih => exact ih
  | up _ ih => exact ih
  | absent links _ _ => exact fun heq => Option.some_ne_none _ heq.symm
  | file links _ _ => exact fun heq => Entry.noConfusion (Option.some.inj heq)
  | directory _ _ _ ih => exact ih
  | link _ _ _ ih => exact ih

/-- A walk that finds something under a name goes through the entry of this name. -/
theorem exists_lookup (h : Walks links s (.down name :: rest) target)
    (htarget : target.entry? ≠ none) :
    name.utf8ByteSize ≤ nameLimit ∧ ∃ entry, s.here.lookup name = some entry := by
  cases h with
  | absent _ _ _ => exact absurd rfl htarget
  | file _ hsize hlookup => exact ⟨hsize, _, hlookup⟩
  | directory hsize hlookup _ => exact ⟨hsize, _, hlookup⟩
  | link hsize hlookup _ => exact ⟨hsize, _, hlookup⟩

end Walks

/-- A walk ends at a name that is too long. -/
theorem walk_down_of_lt (hname : nameLimit < name.utf8ByteSize) :
    s.walk .look links (.down name :: rest) = .error .nameTooLong := by
  rw [walk, if_pos]
  simp [hname]

end Spot

/-! ### What a directory has under a name -/

/-- Refuses the entries of a directory that no system call takes, because their paths or their names
are too long. -/
def Path.checkName (p : Path) (name : String) : Except SystemError Unit := do
  (p.join ⟨name⟩).check
  if nameLimit < name.utf8ByteSize then throw .nameTooLong

namespace FileTree

variable {t : FileTree} {p : Path} {place : Place} {entries : Directory} {name : String}

theorem stat_eq_ok_iff {found : Entry} :
    t.stat p = .ok (place, found) ↔
      p.check = .ok () ∧ t.resolve .look p = .ok ⟨place, some found⟩ := by
  rw [stat]
  cases p.check with
  | error cause => simp [bind, Except.bind]
  | ok _ =>
    rcases t.resolve .look p with cause | ⟨place', found' | found'⟩
    · simp [bind, Except.bind]
    · simp [bind, Except.bind, throw, throwThe, MonadExceptOf.throw]
    · simp [bind, Except.bind, pure, Except.pure]

theorem exists_stat_of_isFile (h : t.isFile p = true) :
    ∃ place bytes, t.stat p = .ok (place, .file bytes) := by
  unfold isFile at h
  split at h
  next place bytes hstat => exact ⟨place, bytes, hstat⟩
  next => cases h

theorem exists_stat_of_isDirectory (h : t.isDirectory p = true) :
    ∃ place entries, t.stat p = .ok (place, .directory entries) := by
  unfold isDirectory at h
  split at h
  next place entries hstat => exact ⟨place, entries, hstat⟩
  next => cases h

/-- Looking at a path never ends at a link. -/
theorem stat_ne_link (target : Path) : t.stat p ≠ .ok (place, .link target) := by
  intro h
  obtain ⟨-, hresolve⟩ := stat_eq_ok_iff.mp h
  exact (Spot.walks_of_walk_eq_ok hresolve).entry?_ne_link target rfl

/-- What a path leads to is where its steps lead, without the one for a slash at its end. -/
theorem walks_steps {aim : Aim} {target : Target} (h : t.resolve aim p = .ok target) :
    Spot.Walks linkLimit (t.start p) p.steps target := by
  have hall := Spot.walks_of_walk_eq_ok h
  rw [Path.allSteps] at hall
  split at hall
  next => exact hall.of_concat_stay
  next => rwa [List.append_nil] at hall

/-- A directory that a path leads to is where the walk to an entry of it goes through. -/
theorem exists_walk_join (h : t.stat p = .ok (place, .directory entries)) (hname : IsName name) :
    ∃ (left : Nat) (stop : Spot), stop.place = place ∧ stop.here = entries ∧
      t.resolve .look (p.join ⟨name⟩) = stop.walk .look left [.down name] := by
  obtain ⟨hcheck, hresolve⟩ := stat_eq_ok_iff.mp h
  have hne : p.text ≠ "" := by
    rintro hempty
    rw [Path.check, Path.checkText, hempty] at hcheck
    cases hcheck
  obtain ⟨left, stop, hplace, hhere, hmore⟩ := (walks_steps hresolve).exists_directory rfl
  have hstart : t.start (p.join ⟨name⟩) = t.start p := by
    rw [start, start, Path.isAbsolute_join hname hne]
  refine ⟨left, stop, hplace, hhere, ?_⟩
  rw [resolve, hstart, Path.allSteps_join hname, hmore]

/-- A path that leads to a directory and is continued by the name of an entry leads to this entry,
unless it is a link. -/
theorem stat_join (h : t.stat p = .ok (place, .directory entries)) (hname : IsName name)
    {entry : Entry} (hlookup : entries.lookup name = some entry)
    (hlink : ∀ target, entry ≠ .link target) :
    t.stat (p.join ⟨name⟩) = (p.checkName name).map fun _ => (place ++ [name], entry) := by
  obtain ⟨left, stop, rfl, rfl, hresolve⟩ := exists_walk_join h hname
  rw [stat, Path.checkName, hresolve]
  cases (p.join ⟨name⟩).check with
  | error cause => rfl
  | ok _ =>
    by_cases hsize : nameLimit < name.utf8ByteSize
    · rw [Spot.walk_down_of_lt hsize]
      simp [hsize, bind, Except.bind, Except.map, throw, throwThe, MonadExceptOf.throw]
    · have hle : name.utf8ByteSize ≤ nameLimit := Nat.le_of_not_lt hsize
      have hwalk : stop.walk .look left [.down name] = .ok ⟨stop.place ++ [name], some entry⟩ := by
        have hat : stop.here.at? [name] = some entry := hlookup
        exact Spot.walk_of_at? hat hlink (by simpa using hle)
      rw [hwalk]
      simp [hsize, bind, Except.bind, Except.map, pure, Except.pure]

theorem eq_of_stat_join (h : t.stat p = .ok (place, .directory entries)) (hname : IsName name)
    {entry : Entry} (hlookup : entries.lookup name = some entry)
    (hlink : ∀ target, entry ≠ .link target) {found : Place × Entry}
    (hfound : t.stat (p.join ⟨name⟩) = .ok found) : found = (place ++ [name], entry) := by
  rw [stat_join h hname hlookup hlink] at hfound
  cases hcheck : p.checkName name with
  | error cause =>
    rw [hcheck] at hfound
    cases hfound
  | ok _ =>
    rw [hcheck] at hfound
    exact (Except.ok.inj hfound).symm

/-- What a path leads to through a directory is an entry of it, or what this is a link to. -/
theorem exists_lookup_of_stat_join (h : t.stat p = .ok (place, .directory entries))
    (hname : IsName name) {found : Place × Entry} (hfound : t.stat (p.join ⟨name⟩) = .ok found) :
    p.checkName name = .ok () ∧ ∃ entry, entries.lookup name = some entry := by
  obtain ⟨left, stop, rfl, rfl, hresolve⟩ := exists_walk_join h hname
  obtain ⟨hcheck, hwalk⟩ := stat_eq_ok_iff.mp hfound
  rw [hresolve] at hwalk
  obtain ⟨hsize, hlookup⟩ :=
    (Spot.walks_of_walk_eq_ok hwalk).exists_lookup (Option.some_ne_none _)
  refine ⟨?_, hlookup⟩
  rw [Path.checkName, hcheck]
  simp [Nat.not_lt.mpr hsize, bind, Except.bind, pure, Except.pure]

end FileTree
end GrammarLayers
