import GrammarLayers.Proofs.Tree.Actions
import GrammarLayers.Proofs.Tree.Places

/-!
# What changes in a file tree

An entry that is put at a place leaves everything at other places as it was, but that the
directories on the way have one more entry. So making directories touches no file, and writing one
touches no other. The path that a file is written to leads to this file afterwards, because nothing
that a walk can go through has changed.

## Main definitions

* `Entry.Alike` — the same is there, or a directory both times
* `FileTree.KeepsFiles` — the same files are in both trees
* `FileTree.Writes` — one file has been written
* `Path.Spells` — a path goes from the top through these names

## Main results

* `Directory.at?_put_self`, `Directory.at?_put_of_ne` — what is at a place after an entry was put
* `FileTree.keepsFiles_createDirectories` — making directories
* `Spot.Walks.of_writes` — walks after a file was written
* `FileTree.write_eq` — writing a file
* `FileTree.run_write_of_spells`, `FileTree.run_createDirectories_of_spells` — writing a file in a
  directory that is there
-/

namespace GrammarLayers

/-! ### An entry at a place -/

/-- The same as before is found, or it was a directory and is one. -/
def Entry.Alike (e e' : Option Entry) : Prop :=
  e' = e ∨ ∃ before after, e = some (.directory before) ∧ e' = some (.directory after)

namespace Entry.Alike

variable {e e' : Option Entry}

theorem file_iff (h : Alike e e') (bytes : ByteArray) :
    e' = some (.file bytes) ↔ e = some (.file bytes) := by
  rcases h with rfl | ⟨before, after, rfl, rfl⟩
  · rfl
  · exact iff_of_false (by rintro ⟨⟩) (by rintro ⟨⟩)

theorem exists_directory {entries : Directory} (h : Alike e e')
    (he : e = some (.directory entries)) : ∃ entries', e' = some (.directory entries') := by
  rcases h with rfl | ⟨before, after, -, rfl⟩
  · exact ⟨entries, he⟩
  · exact ⟨after, rfl⟩

end Entry.Alike

namespace Directory

variable {d entries : Directory} {place other : Place} {name : String} {entry : Entry}

theorem lookup_set_self (name : String) (entry : Entry) (d : Directory) :
    List.lookup name (d.set name entry) = some entry := by
  induction d with
  | nil => simp [Directory.set]
  | cons first rest ih =>
    rw [Directory.set]
    split
    next => simp
    next hkey =>
      have hbeq : (name == first.1) = false := beq_eq_false_iff_ne.mpr (Ne.symm hkey)
      rw [List.lookup_cons, hbeq]
      exact ih

theorem lookup_set_of_ne {key : String} (hne : key ≠ name) (entry : Entry) (d : Directory) :
    List.lookup key (d.set name entry) = d.lookup key := by
  have hbeq : (key == name) = false := beq_eq_false_iff_ne.mpr hne
  induction d with
  | nil => rw [Directory.set, List.lookup_cons, hbeq]
  | cons first rest ih =>
    rw [Directory.set]
    split
    next hkey => rw [List.lookup_cons, List.lookup_cons, hkey, hbeq]
    next => rw [List.lookup_cons, List.lookup_cons, ih]

theorem at?_cons (hne : place ≠ []) : d.at? (name :: place) = (d.below name).at? place := by
  obtain ⟨next, place, rfl⟩ := List.exists_cons_of_ne_nil hne
  rfl

theorem at?_set_of_ne {key : String} (hne : key ≠ name) (entry : Entry) (d : Directory)
    (place : Place) : (d.set name entry).at? (key :: place) = d.at? (key :: place) := by
  have hlookup := lookup_set_of_ne hne entry d
  cases place with
  | nil => exact hlookup
  | cons next place =>
    have hbelow : (d.set name entry).below key = d.below key := by
      rw [below, below, hlookup]
    change ((d.set name entry).below key).at? (next :: place) = (d.below key).at? (next :: place)
    rw [hbelow]

theorem put_cons (hne : place ≠ []) :
    d.put entry (name :: place) = d.set name (.directory ((d.below name).put entry place)) := by
  obtain ⟨next, place, rfl⟩ := List.exists_cons_of_ne_nil hne
  rfl

/-- A directory under a name, and what is at a place in it. -/
theorem exists_of_at?_directory (h : d.at? (name :: place) = some (.directory entries)) :
    ∃ inner, d.lookup name = some (.directory inner) ∧
      Directory.at? inner place = some (.directory entries) := by
  cases place with
  | nil => exact ⟨entries, h, rfl⟩
  | cons next place => exact exists_of_at?_cons h

/-- What has been put at a place is there. -/
theorem at?_put_self (place : Place) (name : String) (entry : Entry) (d : Directory) :
    (d.put entry (place ++ [name])).at? (place ++ [name]) = some entry := by
  induction place generalizing d with
  | nil =>
    exact lookup_set_self name entry d
  | cons first place ih =>
    have hne : place ++ [name] ≠ [] := List.append_ne_nil_of_right_ne_nil _ (List.cons_ne_nil _ _)
    rw [List.cons_append, put_cons hne, at?_cons hne, below_of_lookup (lookup_set_self _ _ _)]
    exact ih _

/-- An entry that holds nothing, put into a directory where there was no directory, leaves all other
places alike. -/
theorem at?_put_of_ne (hparent : d.at? place = some (.directory entries))
    (hold : ∀ inner, entries.lookup name ≠ some (.directory inner))
    (hnew : ∀ inner, entry = .directory inner → inner = []) (hne : other ≠ place ++ [name]) :
    Entry.Alike (d.at? other) ((d.put entry (place ++ [name])).at? other) := by
  -- the induction is on the way to the parent, along which `other` may turn off
  induction place generalizing d other with
  | nil =>
    obtain rfl := Entry.directory.inj (Option.some.inj hparent)
    change Entry.Alike _ ((d.set name entry).at? other)
    cases other with
    | nil => exact .inr ⟨d, _, rfl, rfl⟩
    | cons key rest =>
      left
      by_cases hkey : key = name
      · -- there is nothing below the entry, as there was nothing before
        subst hkey
        have hrest : rest ≠ [] := by
          rintro rfl
          exact hne rfl
        have hbefore : d.below key = [] := by
          unfold below
          split
          next inner hlookup => exact absurd hlookup (hold inner)
          next => rfl
        have hafter : (d.set key entry).below key = [] := by
          rw [below, lookup_set_self]
          split
          next hentry => exact hnew _ (Option.some.inj hentry)
          next => rfl
        rw [at?_cons hrest, at?_cons hrest, hbefore, hafter]
      · exact at?_set_of_ne hkey entry d rest
  | cons first place ih =>
    obtain ⟨inner, hlookup, hinner⟩ := exists_of_at?_directory hparent
    have hplace : place ++ [name] ≠ [] :=
      List.append_ne_nil_of_right_ne_nil _ (List.cons_ne_nil _ _)
    rw [List.cons_append] at hne ⊢
    rw [put_cons hplace, below_of_lookup hlookup]
    cases other with
    | nil => exact .inr ⟨d, _, rfl, rfl⟩
    | cons key rest =>
      by_cases hkey : key = first
      · subst hkey
        by_cases hrest : rest = []
        · subst hrest
          exact .inr ⟨inner, _, hlookup, lookup_set_self _ _ _⟩
        · rw [at?_cons hrest, at?_cons hrest, below_of_lookup (lookup_set_self _ _ _),
            below_of_lookup hlookup]
          exact ih hinner fun heq => hne (by rw [heq])
      · exact .inl (at?_set_of_ne hkey _ d rest)

end Directory

/-! ### Trees with the same files -/

namespace FileTree

/-- The same files are in both trees, with the same bytes, and no directory has gone. -/
structure KeepsFiles (t t' : FileTree) : Prop where
  workingDirectory_eq : t'.workingDirectory = t.workingDirectory
  file_iff : ∀ place bytes,
    t'.entry? place = some (.file bytes) ↔ t.entry? place = some (.file bytes)
  exists_directory : ∀ place entries, t.entry? place = some (.directory entries) →
    ∃ entries', t'.entry? place = some (.directory entries')

/-- Before, nothing or a file was at this place, and afterwards there is this file. All other places
are alike before and afterwards. -/
structure Writes (t : FileTree) (place : Place) (bytes : ByteArray) (t' : FileTree) : Prop where
  workingDirectory_eq : t'.workingDirectory = t.workingDirectory
  before : t.entry? place = none ∨ ∃ old, t.entry? place = some (.file old)
  after : t'.entry? place = some (.file bytes)
  alike : ∀ other ≠ place, Entry.Alike (t.entry? other) (t'.entry? other)

variable {t t' t'' : FileTree} {p : Path} {place : Place} {name : String} {bytes : ByteArray}
  {entries : Directory} {entry : Entry}

theorem KeepsFiles.refl (t : FileTree) : t.KeepsFiles t :=
  ⟨rfl, fun _ _ => Iff.rfl, fun _ entries h => ⟨entries, h⟩⟩

theorem KeepsFiles.trans (h : t.KeepsFiles t') (h' : t'.KeepsFiles t'') : t.KeepsFiles t'' where
  workingDirectory_eq := h'.workingDirectory_eq.trans h.workingDirectory_eq
  file_iff place bytes := (h'.file_iff place bytes).trans (h.file_iff place bytes)
  exists_directory place entries hentry := by
    obtain ⟨entries', hentry'⟩ := h.exists_directory place entries hentry
    exact h'.exists_directory place entries' hentry'

theorem KeepsFiles.hasWorkingDirectory (h : t.KeepsFiles t') (hw : t.HasWorkingDirectory) :
    t'.HasWorkingDirectory := by
  obtain ⟨entries, hentries⟩ := hw.exists_entries
  refine ⟨?_, h.workingDirectory_eq ▸ hw.size_le⟩
  rw [h.workingDirectory_eq]
  exact h.exists_directory _ entries hentries

theorem Writes.exists_eq_file (h : t.Writes place bytes t') (hentry : t.entry? place = some entry) :
    ∃ old, entry = .file old := by
  rcases h.before with hnone | ⟨old, hold⟩
  · rw [hnone] at hentry
    cases hentry
  · exact ⟨old, Option.some.inj (hentry.symm.trans hold)⟩

/-- A file that is written is the only file that is not as before. -/
theorem Writes.file_iff (h : t.Writes place bytes t') {other : Place} (hne : other ≠ place)
    (found : ByteArray) :
    t'.entry? other = some (.file found) ↔ t.entry? other = some (.file found) :=
  (h.alike other hne).file_iff found

theorem Writes.hasWorkingDirectory (h : t.Writes place bytes t') (hw : t.HasWorkingDirectory) :
    t'.HasWorkingDirectory := by
  obtain ⟨entries, hentries⟩ := hw.exists_entries
  refine ⟨?_, h.workingDirectory_eq ▸ hw.size_le⟩
  rw [h.workingDirectory_eq]
  have hne : t.workingDirectory ≠ place := by
    intro heq
    obtain ⟨old, ⟨⟩⟩ := h.exists_eq_file (heq ▸ hentries)
  exact (h.alike _ hne).exists_directory hentries

/-- A file that is put into a directory, where nothing or a file was. -/
theorem writes_put (hparent : t.entry? place = some (.directory entries))
    (hbefore : entries.lookup name = none ∨ ∃ old, entries.lookup name = some (.file old)) :
    t.Writes (place ++ [name]) bytes (t.put (place ++ [name]) (.file bytes)) where
  workingDirectory_eq := rfl
  before := by
    have hat : t.entry? (place ++ [name]) = entries.lookup name :=
      Directory.at?_append hparent [name]
    rwa [hat]
  after := Directory.at?_put_self place name _ t.top
  alike other hne := by
    refine Directory.at?_put_of_ne hparent ?_ (by rintro _ ⟨⟩) hne
    intro inner hlookup
    rcases hbefore with hnone | ⟨old, hold⟩
    · rw [hnone] at hlookup
      cases hlookup
    · rw [hold] at hlookup
      cases hlookup

/-- An empty directory or a link that is put into a directory, where nothing was. -/
theorem keepsFiles_put (hparent : t.entry? place = some (.directory entries))
    (hbefore : entries.lookup name = none) (hfile : ∀ bytes, entry ≠ .file bytes)
    (hnew : ∀ inner, entry = .directory inner → inner = []) :
    t.KeepsFiles (t.put (place ++ [name]) entry) := by
  have hnone : t.entry? (place ++ [name]) = none :=
    (Directory.at?_append hparent [name]).trans hbefore
  have hsome : entry? (t.put (place ++ [name]) entry) (place ++ [name]) = some entry :=
    Directory.at?_put_self place name _ t.top
  have halike : ∀ other ≠ place ++ [name],
      Entry.Alike (t.entry? other) <| entry? (t.put (place ++ [name]) entry) other := by
    intro other hother
    refine Directory.at?_put_of_ne hparent ?_ hnew hother
    intro inner hlookup
    rw [hbefore] at hlookup
    cases hlookup
  refine ⟨rfl, ?_, ?_⟩
  · intro other bytes
    by_cases hother : other = place ++ [name]
    · rw [hother, hnone, hsome]
      exact iff_of_false (fun heq => hfile bytes (Option.some.inj heq)) (by rintro ⟨⟩)
    · exact (halike other hother).file_iff bytes
  · intro other found hfound
    by_cases hother : other = place ++ [name]
    · rw [hother, hnone] at hfound
      cases hfound
    · exact (halike other hother).exists_directory hfound

/-- Where a new entry is put, there is a directory. -/
theorem HasWorkingDirectory.entry?_of_parent (hw : t.HasWorkingDirectory) {steps : List Step}
    (h : t.parent p steps = .ok (place, entries)) :
    t.entry? place = some (.directory entries) :=
  (Spot.walks_of_walk_eq_ok (walk_of_parent h)).at?_eq (hw.liesIn_start p)

/-! ### Making directories -/

/-- If a tree has a working directory, its files are in the other tree as well. -/
def KeepsFilesFrom (t t' : FileTree) : Prop := t.HasWorkingDirectory → t.KeepsFiles t'

theorem KeepsFilesFrom.refl (t : FileTree) : t.KeepsFilesFrom t := fun _ => .refl t

theorem KeepsFilesFrom.trans (t t' t'' : FileTree) (h : t.KeepsFilesFrom t')
    (h' : t'.KeepsFilesFrom t'') : t.KeepsFilesFrom t'' := fun hw =>
  (h hw).trans (h' ((h hw).hasWorkingDirectory hw))

theorem keepsFiles_create (hfile : ∀ bytes, entry ≠ .file bytes)
    (hnew : ∀ inner, entry = .directory inner → inner = []) (p : Path) :
    TreeAction.Relates KeepsFilesFrom (create p entry) := by
  intro t hw
  rcases create_cases p entry t with
    ⟨cause, hrun⟩ | ⟨place, entries, name, hparent, -, hlookup, hrun⟩
  · rw [hrun]
    exact .refl t
  · rw [hrun]
    exact keepsFiles_put (hw.entry?_of_parent hparent) hlookup hfile hnew

theorem keepsFiles_createDirectory (p : Path) :
    TreeAction.Relates KeepsFilesFrom (create p (.directory [])) :=
  keepsFiles_create (by rintro _ ⟨⟩) (by rintro _ ⟨⟩; rfl) p

/-- Making directories touches no file, whether or not it succeeds. -/
theorem keepsFiles_createDirectories (hw : t.HasWorkingDirectory) (p : Path) :
    t.KeepsFiles ((createDirectories p).run.run t).2 :=
  relates_createDirectories KeepsFilesFrom.refl KeepsFilesFrom.trans keepsFiles_createDirectory p t
    hw

end FileTree

/-! ### Writing a file -/

namespace Spot

variable {links : Nat} {s s' : Spot} {steps : List Step} {target : Target} {d : Directory}

theorem place_up (s : Spot) : s.up.place = s.place.dropLast := by
  obtain ⟨here, _ | ⟨outer, above⟩⟩ := s
  · rfl
  · simp [up, place]

/-- What is under a name after a file was written: a directory or a link if it was one before, and
otherwise a file or nothing. -/
theorem lookup_of_writes {t t' : FileTree} {written : Place} {bytes : ByteArray}
    (hwrites : t.Writes written bytes t') (hs : LiesIn t.top s) (hs' : LiesIn t'.top s')
    (hplace : s'.place = s.place) (name : String) :
    (∀ before, s.here.lookup name = some (.directory before) →
        ∃ after, s'.here.lookup name = some (.directory after)) ∧
      (∀ path, s.here.lookup name = some (.link path) →
        s'.here.lookup name = some (.link path)) ∧
      ((s.here.lookup name = none ∨ ∃ old, s.here.lookup name = some (.file old)) →
        s'.here.lookup name = none ∨ ∃ new, s'.here.lookup name = some (.file new)) := by
  have hbefore : t.entry? (s.place ++ [name]) = s.here.lookup name := hs.at?_concat name
  have hafter : t'.entry? (s.place ++ [name]) = s'.here.lookup name :=
    hplace ▸ hs'.at?_concat name
  rw [← hbefore, ← hafter]
  by_cases hwritten : s.place ++ [name] = written
  · -- here is the file now, and there was none of the others before
    rw [hwritten]
    refine ⟨fun before hold => ?_, fun path hold => ?_, fun _ => .inr ⟨bytes, hwrites.after⟩⟩
    · obtain ⟨old, ⟨⟩⟩ := hwrites.exists_eq_file hold
    · obtain ⟨old, ⟨⟩⟩ := hwrites.exists_eq_file hold
  · have halike := hwrites.alike _ hwritten
    refine ⟨fun before hold => halike.exists_directory hold, fun path hold => ?_, fun hold => ?_⟩
    · rcases halike with heq | ⟨before, after, hdirectory, -⟩
      · exact heq.trans hold
      · exact absurd (hdirectory.symm.trans hold) (by rintro ⟨⟩)
    · rcases halike with heq | ⟨before, after, hdirectory, -⟩
      · rwa [heq]
      · rw [hdirectory] at hold
        rcases hold with hold | ⟨old, hold⟩ <;> cases hold

namespace Walks

/-- The place that a walk leads to lies in a directory, if there is none at the place itself. -/
theorem exists_parent (h : Walks links s steps target) (hs : LiesIn d s)
    (hdirectory : ∀ entries, target.entry? ≠ some (.directory entries)) :
    ∃ place name entries, target.place = place ++ [name] ∧
      d.at? place = some (.directory entries) ∧ entries.lookup name = target.entry? := by
  induction h with
  | here links s => exact absurd rfl (hdirectory _)
  | stay _ ih => exact ih hs hdirectory
  | up _ ih => exact ih hs.up hdirectory
  | @absent links s name _ hlookup => exact ⟨s.place, name, s.here, rfl, hs.at?_place, hlookup⟩
  | @file links s name _ _ hlookup => exact ⟨s.place, name, s.here, rfl, hs.at?_place, hlookup⟩
  | directory _ hlookup _ ih => exact ih (hs.down hlookup) hdirectory
  | link _ _ _ ih => exact ih (hs.follow _) hdirectory

/-- A walk ends at a name that nothing or a file has. -/
theorem exists_of_lookup {name : String} (hname : name.utf8ByteSize ≤ nameLimit)
    (hlookup : s.here.lookup name = none ∨ ∃ bytes, s.here.lookup name = some (.file bytes)) :
    ∃ target, Walks links s [.down name] target ∧ target.place = s.place ++ [name] := by
  rcases hlookup with hnone | ⟨bytes, hfile⟩
  · exact ⟨_, .absent links hname hnone, rfl⟩
  · exact ⟨_, .file links hname hfile, rfl⟩

/-- A walk leads to the same place after a file was written, because it cannot have gone through
what was there before. -/
theorem of_writes {t t' : FileTree} {written : Place} {bytes : ByteArray}
    (h : Walks links s steps target) (hwrites : t.Writes written bytes t')
    (hs : LiesIn t.top s) (hs' : LiesIn t'.top s') (hplace : s'.place = s.place) :
    ∃ target', Walks links s' steps target' ∧ target'.place = target.place := by
  induction h generalizing s' with
  | here links s => exact ⟨_, .here links s', hplace⟩
  | stay _ ih =>
    obtain ⟨target', hwalks, htarget⟩ := ih hs hs' hplace
    exact ⟨target', .stay hwalks, htarget⟩
  | up _ ih =>
    obtain ⟨target', hwalks, htarget⟩ :=
      ih hs.up hs'.up (by rw [place_up, place_up, hplace])
    exact ⟨target', .up hwalks, htarget⟩
  | @absent links s name hname hlookup =>
    obtain ⟨-, -, hends⟩ := lookup_of_writes hwrites hs hs' hplace name
    rw [← hplace]
    exact exists_of_lookup hname (hends (.inl hlookup))
  | @file links s name old hname hlookup =>
    obtain ⟨-, -, hends⟩ := lookup_of_writes hwrites hs hs' hplace name
    rw [← hplace]
    exact exists_of_lookup hname (hends (.inr ⟨old, hlookup⟩))
  | @directory links s name entries rest target hname hlookup _ ih =>
    obtain ⟨hdirectory, -, -⟩ := lookup_of_writes hwrites hs hs' hplace name
    obtain ⟨entries', hlookup'⟩ := hdirectory entries hlookup
    obtain ⟨target', hwalks, htarget⟩ := ih (hs.down hlookup) (hs'.down hlookup')
      (by rw [place_down, place_down, hplace])
    exact ⟨target', .directory hname hlookup' hwalks, htarget⟩
  | @link links s name path rest target hname hlookup _ ih =>
    obtain ⟨-, hlink, -⟩ := lookup_of_writes hwrites hs hs' hplace name
    -- an absolute link starts from the top of its tree, another one from where it is
    have hstart : (if path.isAbsolute then s'.top else s').place =
        (if path.isAbsolute then s.top else s).place := by
      rw [hs.top_eq, hs'.top_eq]
      split
      next => rfl
      next => exact hplace
    obtain ⟨target', hwalks, htarget⟩ := ih (hs.follow path) (hs'.follow path) hstart
    exact ⟨target', .link hname (hlink path hlookup) hwalks, htarget⟩

end Walks

end Spot

namespace FileTree

variable {t : FileTree}

/-- A file is written where the path leads to, and the path leads to this file afterwards; or
nothing is done. -/
theorem write_eq (hw : t.HasWorkingDirectory) (p : Path) (bytes : ByteArray) :
    (∃ cause, (write p bytes).run.run t = (.error cause, t)) ∨
      ∃ place t', (write p bytes).run.run t = (.ok (), t') ∧ t.Writes place bytes t' ∧
        t'.stat p = .ok (place, .file bytes) := by
  rcases write_cases p bytes t with herror | ⟨target, hcheck, hresolve, hdirectory, hrun⟩
  · exact .inl herror
  · right
    have hwalks := Spot.walks_of_walk_eq_ok hresolve
    obtain ⟨place, name, entries, hplace, hparent, hlookup⟩ :=
      hwalks.exists_parent (hw.liesIn_start p) hdirectory
    have hbefore : entries.lookup name = none ∨ ∃ old, entries.lookup name = some (.file old) := by
      rw [hlookup]
      rcases hentry : target.entry? with _ | old | inner | path
      · exact .inl rfl
      · exact .inr ⟨old, rfl⟩
      · exact absurd hentry (hdirectory inner)
      · exact absurd hentry (hwalks.entry?_ne_link path)
    have hwrites : t.Writes (place ++ [name]) bytes (t.put (place ++ [name]) (.file bytes)) :=
      writes_put hparent hbefore
    rw [hplace] at hrun
    refine ⟨_, _, hrun, hwrites, ?_⟩
    -- the path still leads to this place, and the file is there now
    have hw' := hwrites.hasWorkingDirectory hw
    obtain ⟨target', hwalks', htarget⟩ := hwalks.of_writes hwrites (hw.liesIn_start p)
      (hw'.liesIn_start p) (by rw [hw'.place_start, hw.place_start, hwrites.workingDirectory_eq])
    have hentry := hwalks'.at?_eq (hw'.liesIn_start p)
    obtain ⟨place', entry?⟩ := target'
    obtain rfl : place' = place ++ [name] := htarget.trans hplace
    obtain rfl : some (Entry.file bytes) = entry? := hwrites.after.symm.trans hentry
    exact stat_eq_ok_iff.mpr ⟨hcheck, hwalks'.walk_eq⟩

end FileTree

/-! ### A new file in a directory -/

namespace Spot

variable {s : Spot} {links : Nat} {name : String} {entries : Directory} {names : Place}

theorem reaches_write (s : Spot) (name : String) (more : Nat) :
    Aim.reaches .write s name more = true := rfl

/-- A walk to write goes through directories to a name under which there is nothing. -/
theorem walk_write_of_at? (hat : s.here.at? names = some (.directory entries))
    (hlookup : entries.lookup name = none)
    (hnames : ∀ other ∈ names ++ [name], other.utf8ByteSize ≤ nameLimit) :
    s.walk .write links ((names ++ [name]).map .down) =
      .ok ⟨s.place ++ (names ++ [name]), none⟩ := by
  induction names generalizing s with
  | nil =>
    obtain rfl := Entry.directory.inj (Option.some.inj hat)
    have hname := hnames name (by simp)
    rw [List.nil_append, List.map_singleton, walk, reaches_write, hlookup, if_neg]
    · rfl
    · simpa using hname
  | cons first names ih =>
    obtain ⟨inner, hfirst, hinner⟩ := Directory.exists_of_at?_directory hat
    obtain ⟨hname, hnames⟩ := List.forall_mem_cons.mp hnames
    have hhere : (s.down first).here = inner := Directory.below_of_lookup hfirst
    -- the rest of the walk is one from the directory below
    have hrest := ih (hhere ▸ hinner) hnames
    rw [place_down, List.append_assoc] at hrest
    rw [List.cons_append, List.map_cons, walk, reaches_write, reaches_write, hfirst, if_neg]
    · simpa using hrest
    · simpa using hname

end Spot

/-- The path goes from the top through these names, none of them too long, and ends in the last of
them. -/
structure Path.Spells (p : Path) (names : Place) : Prop where
  check_eq : p.check = .ok ()
  isAbsolute : p.isAbsolute
  endsInSlash_eq : p.endsInSlash = false
  steps_eq : p.steps = names.map .down
  size_le : ∀ name ∈ names, name.utf8ByteSize ≤ nameLimit

namespace Path.Spells

variable {p : Path} {names : Place} {name : String}

theorem allSteps_eq (h : p.Spells names) : p.allSteps = names.map .down := by
  rw [allSteps, h.endsInSlash_eq, h.steps_eq]
  exact List.append_nil _

theorem start_eq (h : p.Spells names) (t : FileTree) : t.start p = ⟨t.top, []⟩ :=
  if_pos h.isAbsolute

theorem getLast?_steps (h : p.Spells (names ++ [name])) :
    p.steps.getLast? = some (.down name) := by
  simp [h.steps_eq]

end Path.Spells

namespace FileTree

variable {t : FileTree} {p : Path} {names : Place} {name : String} {entries inner : Directory}

/-- A new file is put where the path leads to. -/
theorem run_write_of_spells (hp : p.Spells (names ++ [name]))
    (hat : t.top.at? names = some (.directory entries)) (hlookup : entries.lookup name = none)
    (bytes : ByteArray) :
    (write p bytes).run.run t = (.ok (), t.put (names ++ [name]) (.file bytes)) := by
  have hresolve : t.resolve .write p = .ok ⟨names ++ [name], none⟩ := by
    rw [resolve, hp.start_eq, hp.allSteps_eq, Spot.walk_write_of_at? hat hlookup hp.size_le]
    rfl
  rw [write, TreeAction.run_get_bind, hp.check_eq, TreeAction.run_ok_bind, hp.endsInSlash_eq,
    hp.getLast?_steps]
  dsimp only
  rw [hresolve, TreeAction.run_ok_bind]
  rfl

theorem parent_of_spells (hp : p.Spells (names ++ [name]))
    (hat : t.top.at? names = some (.directory entries)) :
    t.parent p p.steps = .ok (names, entries) := by
  have hwalk : (⟨t.top, []⟩ : Spot).walk .look linkLimit (names.map .down) =
      .ok ⟨names, some (.directory entries)⟩ :=
    Spot.walk_of_at? hat (fun target => Entry.noConfusion)
      fun other hother => hp.size_le other (List.mem_append_left _ hother)
  obtain ⟨left, stop, hplace, hhere, hmore⟩ :=
    (Spot.walks_of_walk_eq_ok hwalk).exists_directory rfl
  rw [parent, hp.start_eq, hp.steps_eq, List.map_append, List.map_singleton, List.dropLast_concat,
    hmore, Spot.walk, Spot.walk, hplace, hhere]
  rfl

/-- Making a directory that is there already does nothing. -/
theorem run_createDirectories_of_spells (hp : p.Spells (names ++ [name]))
    (hat : t.top.at? names = some (.directory entries))
    (hlookup : entries.lookup name = some (.directory inner)) :
    (createDirectories p).run.run t = (.ok (), t) := by
  have hcreate : (create p (.directory [])).run.run t = (.error .alreadyExists, t) := by
    have hname : name.utf8ByteSize ≤ nameLimit := hp.size_le name (by simp)
    rw [create, TreeAction.run_get_bind, hp.check_eq, TreeAction.run_ok_bind]
    dsimp only
    rw [parent_of_spells hp hat, TreeAction.run_ok_bind]
    dsimp only
    rw [hp.getLast?_steps]
    dsimp only
    rw [if_neg (Nat.not_lt.mpr hname), hlookup]
    rfl
  have hdirectory : t.isDirectory p = true := by
    have hplace : t.top.at? (names ++ [name]) = some (.directory inner) :=
      (Directory.at?_append hat [name]).trans hlookup
    rw [isDirectory, stat_of_at? hp.check_eq hp.isAbsolute hp.allSteps_eq hplace
      (fun target => Entry.noConfusion) hp.size_le]
  -- that the name is taken does not matter, as it is that of a directory
  have hensure : (ensureDirectory p).run.run t = (.ok (), t) := by
    rw [ensureDirectory, ExceptT.run_tryCatch, StateT.run_bind, hcreate]
    change (do unless (← get).isDirectory p do throw .alreadyExists : TreeAction Unit).run.run t = _
    rw [TreeAction.run_get_bind, hdirectory]
    rfl
  rw [createDirectories]
  unfold createDirectoriesFrom
  rw [ExceptT.run_tryCatch, StateT.run_bind, hensure]
  rfl

end FileTree

end GrammarLayers
