import GrammarLayers.Layer.Route
import GrammarLayers.Proofs.Layer.FragmentOrder
import GrammarLayers.Proofs.Tree.WellNamed

/-!
# What a directory lists

A directory can be listed if it is there, and none of its entries is a link that leads nowhere or
back to the directory. What it lists then depends on its entries alone, in the order of their names:
the fragments, the token tables and the directories. Where there is a file instead of a directory,
nothing is listed.

## Main definitions

* `Listing.fault?` — what keeps a directory from being listed
* `fragmentsIn`, `tablesIn` — the files that a directory lists
* `hasDirectory` — whether a directory lists one of this name

## Main results

* `Listing.ofDirectory_eq_error_iff` — when a directory cannot be listed
* `Listing.fragments_of_ofDirectory`, `Listing.tables_of_ofDirectory`,
  `Listing.directory?_of_ofDirectory` — what is listed
* `hasDirectory_of_stat` — a directory that a path leads to is listed under its name
-/

namespace GrammarLayers

namespace Listing

/-- What keeps an entry from being listed: it is a link that leads nowhere, or back to the directory
it is in. -/
def entryFault? (t : FileTree) (directory : Path) (place : Place) (e : String × Entry) :
    Option Failure :=
  match e.2 with
  | .link _ =>
    match t.stat (directory.join ⟨e.1⟩) with
    | .error cause => some (.unlistable (directory.join ⟨e.1⟩) (.system cause))
    | .ok (target, .directory _) =>
      if target = place then some (.unlistable (directory.join ⟨e.1⟩) (.loop directory)) else none
    | .ok _ => none
  | _ => none

/-- What keeps a directory from being listed: it is not there, or one of its entries cannot be
listed, the first by name. -/
def fault? (t : FileTree) (directory : Path) : Option Failure :=
  match t.stat directory with
  | .error cause => some (.unlistable directory (.system cause))
  | .ok (place, .directory entries) =>
    (Directory.sorted entries).findSome? (entryFault? t directory place)
  | .ok _ => none

/-- An entry is a directory, or leads to one. -/
def IsDirectory (t : FileTree) (directory : Path) (place : Place) (e : String × Entry) : Prop :=
  isDirectoryEntry t directory place (directory.join ⟨e.1⟩) e.2 = .ok true

instance (t : FileTree) (directory : Path) (place : Place) :
    DecidablePred (IsDirectory t directory place) :=
  fun _ => inferInstanceAs (Decidable (_ = _))

/-- The kind of table that an entry counts as: it is, or leads to, a file, and has the name of such
a table. -/
def tableKind? (t : FileTree) (directory : Path) (place : Place) (e : String × Entry) :
    Option TableKind :=
  if isDirectoryEntry t directory place (directory.join ⟨e.1⟩) e.2 = .ok false then
    (directory.join ⟨e.1⟩).fileName?.bind TableKind.ofFile?
  else none

end Listing

/-- The fragments in a directory, in the order of their names. -/
def fragmentsIn (t : FileTree) (extension : String) (directory : Path) : List Path :=
  match t.stat directory with
  | .ok (place, .directory entries) =>
    ((Directory.sorted entries).filter (Listing.IsFragment t extension directory place)).map
      fun e => directory.join ⟨e.1⟩
  | _ => []

/-- The token tables in a directory, in the order of their names. -/
def tablesIn (t : FileTree) (directory : Path) : List (TableKind × Path) :=
  match t.stat directory with
  | .ok (place, .directory entries) =>
    (Directory.sorted entries).filterMap fun e =>
      (Listing.tableKind? t directory place e).map fun kind => (kind, directory.join ⟨e.1⟩)
  | _ => []

/-- There is an entry of this name in a directory that is a directory, or leads to one. -/
def hasDirectory (t : FileTree) (directory : Path) (name : String) : Bool :=
  match t.stat directory with
  | .ok (place, .directory entries) =>
    entries.any fun e => e.1 = name && Listing.IsDirectory t directory place e
  | _ => false

namespace Listing

variable {t : FileTree} {extension : String} {directory : Path} {place : Place}
  {e : String × Entry} {l l' : Listing} {failure : Failure}

theorem isDirectoryEntry_eq_error_iff :
    isDirectoryEntry t directory place (directory.join ⟨e.1⟩) e.2 = .error failure ↔
      entryFault? t directory place e = some failure := by
  obtain ⟨name, entry⟩ := e
  cases entry with
  | file bytes => simp [isDirectoryEntry, entryFault?]
  | directory entries => simp [isDirectoryEntry, entryFault?]
  | link target =>
    simp only [isDirectoryEntry, entryFault?]
    rcases t.stat (directory.join ⟨name⟩) with cause | ⟨target, bytes | entries | path⟩
    · simp
    · simp
    · by_cases htarget : target = place
      · simp [htarget]
      · simp [htarget]
    · simp

theorem tables_addEntry {isDirectory : Bool}
    (h : isDirectoryEntry t directory place (directory.join ⟨e.1⟩) e.2 = .ok isDirectory) :
    (l.addEntry extension (directory.join ⟨e.1⟩) isDirectory).tables =
      l.tables ++ ((tableKind? t directory place e).map fun kind =>
        (kind, directory.join ⟨e.1⟩)).toList := by
  rw [tableKind?, h, addEntry]
  cases isDirectory with
  | true => simp
  | false =>
    rw [if_pos rfl, if_neg Bool.false_ne_true]
    cases (directory.join ⟨e.1⟩).fileName?.bind TableKind.ofFile? with
    | some kind => rfl
    | none =>
      dsimp only
      split
      next => simp
      next => simp

theorem directories_addEntry {isDirectory : Bool}
    (h : isDirectoryEntry t directory place (directory.join ⟨e.1⟩) e.2 = .ok isDirectory) :
    (l.addEntry extension (directory.join ⟨e.1⟩) isDirectory).directories =
      l.directories ++
        if IsDirectory t directory place e then [directory.join ⟨e.1⟩] else [] := by
  have hiff : IsDirectory t directory place e ↔ isDirectory = true := by
    unfold IsDirectory
    rw [h, Except.ok.injEq]
  rw [addEntry]
  simp only [hiff]
  cases isDirectory with
  | true => simp
  | false =>
    rw [if_neg Bool.false_ne_true]
    split
    next => simp
    next =>
      split
      next => simp
      next => simp

/-- What entries add to a listing when all of them can be listed. -/
theorem addEntries_eq_ok {entries : List (String × Entry)}
    (h : addEntries t directory place extension l entries = .ok l') :
    l'.tables = l.tables ++ entries.filterMap (fun e =>
        (tableKind? t directory place e).map fun kind => (kind, directory.join ⟨e.1⟩)) ∧
      l'.directories = l.directories ++
        (entries.filter (IsDirectory t directory place)).map fun e => directory.join ⟨e.1⟩ := by
  induction entries generalizing l with
  | nil =>
    obtain rfl := Except.ok.inj h
    simp
  | cons e entries ih =>
    rw [addEntries] at h
    cases hentry : isDirectoryEntry t directory place (directory.join ⟨e.1⟩) e.2 with
    | error cause =>
      rw [hentry] at h
      cases h
    | ok isDirectory =>
      rw [hentry] at h
      obtain ⟨htables, hdirectories⟩ := ih h
      rw [htables, tables_addEntry hentry, hdirectories, directories_addEntry hentry,
        List.filterMap_cons, List.filter_cons, List.append_assoc, List.append_assoc]
      constructor
      · cases tableKind? t directory place e with
        | none => rfl
        | some kind => rfl
      · by_cases hdirectory : IsDirectory t directory place e
        · simp [hdirectory]
        · simp [hdirectory]

/-- The first entry that cannot be listed is what all fail with. -/
theorem addEntries_eq_error_iff {entries : List (String × Entry)} :
    addEntries t directory place extension l entries = .error failure ↔
      entries.findSome? (entryFault? t directory place) = some failure := by
  induction entries generalizing l with
  | nil => simp [addEntries]
  | cons e entries ih =>
    rw [addEntries, List.findSome?_cons]
    cases hentry : isDirectoryEntry t directory place (directory.join ⟨e.1⟩) e.2 with
    | error cause =>
      rw [isDirectoryEntry_eq_error_iff.mp hentry]
      simp [bind, Except.bind]
    | ok isDirectory =>
      have hfault : entryFault? t directory place e = none := by
        rw [Option.eq_none_iff_forall_ne_some]
        intro cause hcause
        rw [← isDirectoryEntry_eq_error_iff, hentry] at hcause
        cases hcause
      rw [hfault]
      exact ih

/-! ### Listing a directory -/

/-- What a directory cannot be listed for. -/
theorem ofDirectory_eq_error_iff :
    ofDirectory t extension directory = .error failure ↔ fault? t directory = some failure := by
  unfold ofDirectory fault?
  rcases t.stat directory with cause | ⟨place, bytes | entries | path⟩
  · simp
  · simp
  · exact addEntries_eq_error_iff
  · simp

theorem fragments_of_ofDirectory (h : ofDirectory t extension directory = .ok l) :
    l.fragments = fragmentsIn t extension directory := by
  unfold ofDirectory at h
  unfold fragmentsIn
  generalize t.stat directory = looked at h ⊢
  rcases looked with cause | ⟨place, bytes | entries | path⟩
  · cases h
  · cases h
    rfl
  · exact fragments_addEntries h
  · cases h
    rfl

theorem tables_of_ofDirectory (h : ofDirectory t extension directory = .ok l) :
    l.tables = tablesIn t directory := by
  unfold ofDirectory at h
  unfold tablesIn
  generalize t.stat directory = looked at h ⊢
  rcases looked with cause | ⟨place, bytes | entries | path⟩
  · cases h
  · cases h
    rfl
  · exact (addEntries_eq_ok h).1
  · cases h
    rfl

/-- Of entries that have proper names, the first directory of a name is where this name leads. -/
theorem find?_directories {entries : List (String × Entry)} (hnames : ∀ e ∈ entries, IsName e.1)
    (name : String) :
    ((entries.filter (IsDirectory t directory place)).map fun e => directory.join ⟨e.1⟩).find?
        (·.fileName? == some name) =
      if entries.any fun e => e.1 = name && IsDirectory t directory place e then
        some (directory.join ⟨name⟩)
      else none := by
  induction entries with
  | nil => rfl
  | cons e entries ih =>
    obtain ⟨hname, hnames⟩ := List.forall_mem_cons.mp hnames
    rw [List.any_cons, List.filter_cons]
    by_cases hdirectory : IsDirectory t directory place e
    · rw [if_pos (decide_eq_true hdirectory), List.map_cons, List.find?_cons,
        Path.fileName?_join hname, ih hnames]
      by_cases hsame : e.1 = name
      · simp [hsame, hdirectory]
      · have hbeq : (some e.1 == some name) = false := by simpa using hsame
        rw [hbeq, decide_eq_false hsame, Bool.false_and, Bool.false_or]
    · rw [if_neg (mt of_decide_eq_true hdirectory), ih hnames, decide_eq_false hdirectory,
        Bool.and_false, Bool.false_or]

/-- A listed directory is where its name leads from the directory that lists it. -/
theorem directory?_of_ofDirectory (ht : t.WellNamed)
    (h : ofDirectory t extension directory = .ok l) (name : String) :
    l.directory? name =
      if hasDirectory t directory name then some (directory.join ⟨name⟩) else none := by
  unfold ofDirectory at h
  rw [hasDirectory, directory?]
  rcases hstat : t.stat directory with cause | ⟨place, bytes | entries | path⟩
  · rw [hstat] at h
    cases h
  · rw [hstat] at h
    obtain rfl := Except.ok.inj h
    rfl
  · rw [hstat] at h
    -- the order of the entries does not matter to whether one is among them
    have hperm := Directory.sorted_perm entries
    have hnames : ∀ e ∈ Directory.sorted entries, IsName e.1 := by
      intro e he
      exact ((ht.stat hstat).of_mem (hperm.mem_iff.mp he)).1
    rw [(addEntries_eq_ok h).2, List.nil_append, find?_directories hnames,
      hperm.any_eq]
  · rw [hstat] at h
    obtain rfl := Except.ok.inj h
    rfl

theorem fault?_eq_none_iff {entries : Directory}
    (hstat : t.stat directory = .ok (place, .directory entries)) :
    fault? t directory = none ↔ ∀ e ∈ entries, entryFault? t directory place e = none := by
  rw [fault?, hstat]
  dsimp only
  rw [List.findSome?_eq_none_iff]
  simp only [(Directory.sorted_perm entries).mem_iff]

end Listing

/-! ### Files in a directory -/

section
variable {t : FileTree} {extension : String} {directory : Path} {place : Place}
  {entries : Directory}

theorem forall_mem_fragmentsIn_iff (hstat : t.stat directory = .ok (place, .directory entries))
    {p : Path → Prop} :
    (∀ path ∈ fragmentsIn t extension directory, p path) ↔
      ∀ e ∈ entries, Listing.IsFragment t extension directory place e →
        p (directory.join ⟨e.1⟩) := by
  rw [fragmentsIn, hstat]
  simp only [List.forall_mem_map, List.mem_filter, (Directory.sorted_perm entries).mem_iff,
    decide_eq_true_eq, and_imp]

theorem forall_mem_tablesIn_iff (hstat : t.stat directory = .ok (place, .directory entries))
    {p : TableKind × Path → Prop} :
    (∀ file ∈ tablesIn t directory, p file) ↔
      ∀ e ∈ entries, ∀ kind, Listing.tableKind? t directory place e = some kind →
        p (kind, directory.join ⟨e.1⟩) := by
  rw [tablesIn, hstat]
  simp only [List.mem_filterMap, (Directory.sorted_perm entries).mem_iff, Option.map_eq_some_iff]
  constructor
  · intro h e he kind hkind
    exact h (kind, directory.join ⟨e.1⟩) ⟨e, he, kind, hkind, rfl⟩
  · rintro h _ ⟨e, he, kind, hkind, rfl⟩
    exact h e he kind hkind

end

/-! ### Directories in a directory -/

section
variable {t : FileTree} {directory : Path} {name : String}

theorem hasDirectory_iff :
    hasDirectory t directory name = true ↔
      ∃ place entries, t.stat directory = .ok (place, .directory entries) ∧
        ∃ e ∈ entries, e.1 = name ∧ Listing.IsDirectory t directory place e := by
  unfold hasDirectory
  rcases t.stat directory with cause | ⟨place, bytes | entries | path⟩
  · simp
  · simp
  · simp only [List.any_eq_true, Bool.and_eq_true, decide_eq_true_eq, Except.ok.injEq,
      Prod.mk.injEq, Entry.directory.injEq]
    constructor
    · intro h
      exact ⟨place, entries, ⟨rfl, rfl⟩, h⟩
    · rintro ⟨_, _, ⟨rfl, rfl⟩, h⟩
      exact h
  · simp

/-- A directory that a path leads to through a listed directory is listed there. -/
theorem hasDirectory_of_stat {place : Place} {entries : Directory}
    (hstat : t.stat directory = .ok (place, .directory entries))
    (hlisted : Listing.fault? t directory = none) (hname : IsName name) {target : Place}
    {below : Directory} (hbelow : t.stat (directory.join ⟨name⟩) = .ok (target, .directory below)) :
    hasDirectory t directory name = true := by
  obtain ⟨-, entry, hlookup⟩ := FileTree.exists_lookup_of_stat_join hstat hname hbelow
  have hmem := Directory.mem_of_lookup hlookup
  refine hasDirectory_iff.mpr ⟨place, entries, hstat, (name, entry), hmem, rfl, ?_⟩
  have hfault := (Listing.fault?_eq_none_iff hstat).mp hlisted _ hmem
  unfold Listing.IsDirectory
  cases entry with
  | file bytes =>
    have hfound := FileTree.eq_of_stat_join hstat hname hlookup (fun _ => Entry.noConfusion) hbelow
    cases hfound
  | directory _ => rfl
  | link path =>
    -- a link back to the directory would have kept it from being listed
    rw [Listing.entryFault?, hbelow] at hfault
    rw [Listing.isDirectoryEntry, hbelow]
    dsimp only at hfault ⊢
    split at hfault
    next => cases hfault
    next hne => rw [if_neg hne]

/-- Where there is a directory of this name, the path to it leads to no file. -/
theorem stat_of_hasDirectory (ht : t.WellNamed) (h : hasDirectory t directory name = true)
    {found : Place × Entry} (hfound : t.stat (directory.join ⟨name⟩) = .ok found) :
    ∃ below, found.2 = .directory below := by
  obtain ⟨place, entries, hstat, ⟨_, entry⟩, hmem, rfl, hdirectory⟩ := hasDirectory_iff.mp h
  have hentries := ht.stat hstat
  unfold Listing.IsDirectory at hdirectory
  cases entry with
  | file bytes => cases hdirectory
  | directory below =>
    have hlookup := hentries.lookup_eq_some_iff.mpr hmem
    have hname := (hentries.of_mem hmem).1
    -- an entry that is no link is what its path leads to
    obtain rfl := FileTree.eq_of_stat_join hstat hname hlookup (fun _ => Entry.noConfusion) hfound
    exact ⟨below, rfl⟩
  | link path =>
    obtain ⟨target, entry⟩ := found
    rw [Listing.isDirectoryEntry, hfound] at hdirectory
    cases entry with
    | file bytes => cases hdirectory
    | directory below => exact ⟨below, rfl⟩
    | link path' => exact absurd hfound (FileTree.stat_ne_link path')

end

end GrammarLayers
