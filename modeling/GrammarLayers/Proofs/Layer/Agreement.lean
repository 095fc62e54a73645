import GrammarLayers.Proofs.Layer.Visits

/-!
# What a dialect depends on

Of a file tree, only the fragments and the token tables in the directories on the way to a dialect
count. Two trees that have the same files of these kinds there give the same assembly or the same
failure, whatever else is in them and in whatever order a directory has its entries.

## Main definitions

* `Listing.IsRead` — a file at this path is a fragment or a token table
* `HasFile` — what files there are in a directory
* `Agrees` — two trees have the same fragments and token tables in a directory
* `filesIn` — the names of the fragments and the token tables in a directory

## Main results

* `Agrees.filesIn_eq`, `Agrees.readText_eq` — the same names and texts are found
* `Assembly.addLayers_eq_of_agrees` — a walk only depends on what the trees agree on
* `assemble_eq_of_agrees` — so does an assembly
-/

namespace GrammarLayers

/-- The bytes of the file that an entry of a directory is, or leads to. -/
def Listing.fileBytes? (t : FileTree) (directory : Path) (e : String × Entry) :
    Option ByteArray :=
  match e.2 with
  | .file bytes => some bytes
  | .directory _ => none
  | .link _ =>
    match t.stat (directory.join ⟨e.1⟩) with
    | .ok (_, .file bytes) => some bytes
    | _ => none

/-- A file at this path is read: it is a token table by its name, or a fragment by its extension. -/
def Listing.IsRead (extension : String) (path : Path) : Prop :=
  (path.fileName?.bind TableKind.ofFile?).isSome ∨ path.extension? = some extension

instance (extension : String) : DecidablePred (Listing.IsRead extension) :=
  fun _ => inferInstanceAs (Decidable (_ ∨ _))

/-- There is an entry of this name in a directory that is, or leads to, a file with these bytes. -/
def HasFile (t : FileTree) (directory : Path) (name : String) (bytes : ByteArray) : Prop :=
  ∃ place entries, t.stat directory = .ok (place, .directory entries) ∧
    ∃ e ∈ entries, e.1 = name ∧ Listing.fileBytes? t directory e = some bytes

/-- A directory is there in both trees and can be listed, and the trees agree on the names and the
bytes of the fragments and the token tables in it. -/
structure Agrees (t t' : FileTree) (extension : String) (directory : Path) : Prop where
  isDirectory : t.isDirectory directory = true ∧ t'.isDirectory directory = true
  listed : Listing.fault? t directory = none ∧ Listing.fault? t' directory = none
  hasFile_iff : ∀ name, Listing.IsRead extension (directory.join ⟨name⟩) → ∀ bytes,
    HasFile t directory name bytes ↔ HasFile t' directory name bytes

/-- The names of the fragments and the token tables in a directory, in order. -/
def filesIn (t : FileTree) (extension : String) (directory : Path) : List String :=
  match t.stat directory with
  | .ok (_, .directory entries) =>
    ((Directory.sorted entries).filter fun e =>
      Listing.IsRead extension (directory.join ⟨e.1⟩) ∧
        (Listing.fileBytes? t directory e).isSome).map Prod.fst
  | _ => []

section
variable {t t' : FileTree} {options : Options} {extension name : String} {directory path : Path}
  {place : Place} {e : String × Entry} {bytes : ByteArray}

/-! ### Files in a directory -/

/-- An entry is listed as a file if it is one, or leads to one. -/
theorem Listing.isDirectoryEntry_eq_false_iff :
    isDirectoryEntry t directory place (directory.join ⟨e.1⟩) e.2 = .ok false ↔
      (fileBytes? t directory e).isSome := by
  obtain ⟨name, entry⟩ := e
  cases entry with
  | file bytes => simp [isDirectoryEntry, fileBytes?]
  | directory entries => simp [isDirectoryEntry, fileBytes?]
  | link target =>
    simp only [isDirectoryEntry, fileBytes?]
    rcases hstat : t.stat (directory.join ⟨name⟩) with cause | ⟨target, bytes | entries | path⟩
    · simp
    · simp
    · by_cases htarget : target = place
      · simp [htarget]
      · simp [htarget]
    · exact absurd hstat (FileTree.stat_ne_link path)

theorem fragmentsIn_eq (t : FileTree) (extension : String) (directory : Path) :
    fragmentsIn t extension directory =
      ((filesIn t extension directory).map fun name => directory.join ⟨name⟩).filter fun path =>
        path.fileName?.bind TableKind.ofFile? = none ∧ path.extension? = some extension := by
  unfold fragmentsIn filesIn
  rcases t.stat directory with cause | ⟨place, bytes | entries | target⟩
  · rfl
  · rfl
  · dsimp only
    rw [List.map_map, List.filter_map, List.filter_filter]
    congr 1
    apply List.filter_congr
    intro e _
    rw [Bool.eq_iff_iff, Bool.and_eq_true, decide_eq_true_eq, Function.comp_apply,
      decide_eq_true_eq, decide_eq_true_eq, Listing.IsFragment, Listing.IsRead,
      Listing.isDirectoryEntry_eq_false_iff]
    tauto
  · rfl

theorem tablesIn_eq (t : FileTree) (extension : String) (directory : Path) :
    tablesIn t directory =
      ((filesIn t extension directory).map fun name => directory.join ⟨name⟩).filterMap fun path =>
        (path.fileName?.bind TableKind.ofFile?).map fun kind => (kind, path) := by
  unfold tablesIn filesIn
  rcases t.stat directory with cause | ⟨place, bytes | entries | target⟩
  · rfl
  · rfl
  · dsimp only
    -- both sides go through the same entries in the same order
    rw [List.map_map, List.filterMap_map, List.filterMap_filter]
    apply List.filterMap_congr
    intro e _
    simp only [Listing.tableKind?, Listing.isDirectoryEntry_eq_false_iff, decide_eq_true_eq,
      Function.comp_apply]
    by_cases hfile : (Listing.fileBytes? t directory e).isSome
    · cases hkind : (directory.join ⟨e.1⟩).fileName?.bind TableKind.ofFile? with
      | none => simp
      | some kind => simp [Listing.IsRead, hkind, hfile]
    · simp [hfile]
  · rfl

theorem mem_filesIn_iff :
    name ∈ filesIn t extension directory ↔
      Listing.IsRead extension (directory.join ⟨name⟩) ∧
        ∃ bytes, HasFile t directory name bytes := by
  unfold filesIn HasFile
  rcases t.stat directory with cause | ⟨place, bytes | entries | target⟩
  · simp
  · simp
  · simp only [List.mem_map, List.mem_filter, (Directory.sorted_perm entries).mem_iff,
      decide_eq_true_eq, Option.isSome_iff_exists]
    constructor
    · rintro ⟨e, ⟨he, hread, bytes, hbytes⟩, rfl⟩
      exact ⟨hread, bytes, place, entries, rfl, e, he, rfl, hbytes⟩
    · rintro ⟨hread, bytes, _, _, ⟨rfl, rfl⟩, e, he, rfl, hbytes⟩
      exact ⟨e, ⟨he, hread, bytes, hbytes⟩, rfl⟩
  · simp

/-- Names are listed in order, and none of them twice. -/
theorem filesIn_pairwise (ht : t.WellNamed) (extension : String) (directory : Path) :
    (filesIn t extension directory).Pairwise (· ≤ ·) ∧ (filesIn t extension directory).Nodup := by
  unfold filesIn
  rcases hstat : t.stat directory with cause | ⟨place, bytes | entries | target⟩
  · simp
  · simp
  · have hperm := Directory.sorted_perm entries
    have hnodup := (hperm.map Prod.fst).nodup_iff.mpr (ht.stat hstat).nodup
    have hsorted : (Directory.sorted entries).Pairwise fun a b => a.1 ≤ b.1 :=
      (Directory.sorted_pairwise entries).imp nameBytes_le_iff.mp
    constructor
    · exact (hsorted.filter _).map Prod.fst fun _ _ h => h
    · exact hnodup.sublist (List.filter_sublist.map Prod.fst)
  · simp

/-- Reading a file in a directory gives its bytes, unless its path or its name is too long. -/
theorem HasFile.readBytes_eq (ht : t.WellNamed) (h : HasFile t directory name bytes) :
    t.readBytes (directory.join ⟨name⟩) = (directory.checkName name).map fun _ => bytes := by
  obtain ⟨place, entries, hstat, ⟨name, entry⟩, hmem, rfl, hbytes⟩ := h
  have hentries := ht.stat hstat
  have hname : IsName name := (hentries.of_mem hmem).1
  cases entry with
  | file found =>
    obtain rfl := Option.some.inj hbytes
    have hlookup := hentries.lookup_eq_some_iff.mpr hmem
    rw [FileTree.readBytes, FileTree.stat_join hstat hname hlookup fun _ => Entry.noConfusion]
    cases directory.checkName name with
    | error cause => rfl
    | ok _ => rfl
  | directory _ => cases hbytes
  | link target =>
    dsimp only [Listing.fileBytes?] at hbytes
    split at hbytes
    next place' found hfound =>
      obtain rfl := Option.some.inj hbytes
      -- the link has been looked at already, so that its path and its name are not too long
      have hcheck := (FileTree.exists_lookup_of_stat_join hstat hname hfound).1
      rw [FileTree.readBytes, hfound, hcheck]
      rfl
    next => cases hbytes

/-! ### Trees that agree -/

section
variable (ht : t.WellNamed) (ht' : t'.WellNamed) (h : Agrees t t' extension directory)
include ht ht' h

/-- The same names are found in both trees, in the same order. -/
theorem Agrees.filesIn_eq : filesIn t extension directory = filesIn t' extension directory := by
  have hmem : ∀ name, name ∈ filesIn t extension directory ↔
      name ∈ filesIn t' extension directory := by
    intro name
    rw [mem_filesIn_iff, mem_filesIn_iff]
    refine and_congr_right fun hread => ?_
    simp only [h.hasFile_iff name hread]
  -- lists that are sorted and have no name twice are told by the names in them
  obtain ⟨hsorted, hnodup⟩ := filesIn_pairwise ht extension directory
  obtain ⟨hsorted', hnodup'⟩ := filesIn_pairwise ht' extension directory
  have hperm := (List.perm_ext_iff_of_nodup hnodup hnodup').mpr hmem
  exact hperm.eq_of_pairwise (fun _ _ _ _ => String.le_antisymm) hsorted hsorted'

theorem Agrees.fragmentsIn_eq :
    fragmentsIn t extension directory = fragmentsIn t' extension directory := by
  rw [GrammarLayers.fragmentsIn_eq, GrammarLayers.fragmentsIn_eq, h.filesIn_eq ht ht']

theorem Agrees.tablesIn_eq : tablesIn t directory = tablesIn t' directory := by
  rw [GrammarLayers.tablesIn_eq t extension, GrammarLayers.tablesIn_eq t' extension,
    h.filesIn_eq ht ht']

/-- The same texts are read from both trees, or the same is wrong with them. -/
theorem Agrees.readText_eq {name : String} (hname : name ∈ filesIn t extension directory) :
    t.readText (directory.join ⟨name⟩) = t'.readText (directory.join ⟨name⟩) := by
  obtain ⟨hread, bytes, hfile⟩ := mem_filesIn_iff.mp hname
  have hfile' := (h.hasFile_iff name hread bytes).mp hfile
  rw [FileTree.readText, FileTree.readText, hfile.readBytes_eq ht, hfile'.readBytes_eq ht']

theorem Agrees.readText_eq_of_mem_fragmentsIn {path : Path}
    (hpath : path ∈ fragmentsIn t extension directory) : t.readText path = t'.readText path := by
  rw [GrammarLayers.fragmentsIn_eq] at hpath
  obtain ⟨name, hname, rfl⟩ := List.mem_map.mp (List.mem_filter.mp hpath).1
  exact h.readText_eq ht ht' hname

theorem Agrees.readText_eq_of_mem_tablesIn {file : TableKind × Path}
    (hfile : file ∈ tablesIn t directory) : t.readText file.2 = t'.readText file.2 := by
  rw [GrammarLayers.tablesIn_eq t extension] at hfile
  obtain ⟨path, hpath, hfound⟩ := List.mem_filterMap.mp hfile
  obtain ⟨kind, -, rfl⟩ := Option.map_eq_some_iff.mp hfound
  obtain ⟨name, hname, rfl⟩ := List.mem_map.mp hpath
  exact h.readText_eq ht ht' hname

end

/-- A directory that both trees have in a directory is listed in both of them. -/
theorem Agrees.hasDirectory (h : Agrees t t' extension directory) (hname : IsName name)
    (hbelow : Agrees t t' extension (directory.join ⟨name⟩)) :
    hasDirectory t directory name = true ∧ hasDirectory t' directory name = true := by
  obtain ⟨place, entries, hstat⟩ := FileTree.exists_stat_of_isDirectory h.isDirectory.1
  obtain ⟨place', entries', hstat'⟩ := FileTree.exists_stat_of_isDirectory h.isDirectory.2
  obtain ⟨target, below, hbelow₁⟩ := FileTree.exists_stat_of_isDirectory hbelow.isDirectory.1
  obtain ⟨target', below', hbelow₂⟩ := FileTree.exists_stat_of_isDirectory hbelow.isDirectory.2
  exact ⟨hasDirectory_of_stat hstat h.listed.1 hname hbelow₁,
    hasDirectory_of_stat hstat' h.listed.2 hname hbelow₂⟩

end

/-! ### Loading the same texts -/

namespace Assembly

variable {t t' : FileTree} {options : Options} {directory : Path}

theorem addFragments_congr {paths : List Path}
    (h : ∀ path ∈ paths, t.readText path = t'.readText path) :
    addFragments t paths = addFragments t' paths := by
  induction paths with
  | nil => rfl
  | cons path paths ih =>
    obtain ⟨hpath, hpaths⟩ := List.forall_mem_cons.mp h
    have hload : Grammar.load t path = Grammar.load t' path := by
      rw [Grammar.load, Grammar.load, productionsOfFile, productionsOfFile, readTextAs, readTextAs,
        hpath]
    rw [addFragments, addFragments, addFragment, addFragment, hload, ih hpaths]

theorem addTables_congr {license : Option (List Char)} {files : List (TableKind × Path)}
    (h : ∀ file ∈ files, t.readText file.2 = t'.readText file.2) :
    addTables t license files = addTables t' license files := by
  induction files with
  | nil => rfl
  | cons file files ih =>
    obtain ⟨hfile, hfiles⟩ := List.forall_mem_cons.mp h
    have hload : Lexicon.load t license file.1 file.2 = Lexicon.load t' license file.1 file.2 := by
      rw [Lexicon.load, Lexicon.load, readTextAs, readTextAs, hfile]
    rw [addTables, addTables, addTable, addTable, hload, ih hfiles]

/-- What is read in a directory that can be listed, and where it goes on from there. -/
theorem addLayers_of_listed (ht : t.WellNamed) (h : Listing.fault? t directory = none)
    (names : List String) :
    addLayers t options directory names =
      addFragments t (fragmentsIn t options.extension directory) >>= fun _ =>
        addTables t options.license (tablesIn t directory) >>= fun _ =>
          match names with
          | [] => pure ()
          | name :: rest =>
            if hasDirectory t directory name then addLayers t options (directory.join ⟨name⟩) rest
            else throw (.missingDirectory name directory) := by
  -- without a fault there is a listing, and it has the fragments and tables of the directory
  cases hlisted : Listing.ofDirectory t options.extension directory with
  | error failure =>
    rw [Listing.ofDirectory_eq_error_iff.mp hlisted] at h
    cases h
  | ok listing =>
    have hpure : (liftM (Except.ok listing : Except Failure Listing) : Loading Assembly Listing) =
        pure listing := rfl
    rw [addLayers, hlisted, hpure, pure_bind, Listing.fragments_of_ofDirectory hlisted,
      Listing.tables_of_ofDirectory hlisted]
    cases names with
    | nil => rfl
    | cons name rest =>
      dsimp only
      rw [Listing.directory?_of_ofDirectory ht hlisted]
      cases hasDirectory t directory name with
      | true => rfl
      | false => rfl

/-- Where trees agree, the same fragments are read. -/
theorem addFragments_eq_of_agrees (ht : t.WellNamed) (ht' : t'.WellNamed)
    (h : Agrees t t' options.extension directory) :
    addFragments t (fragmentsIn t options.extension directory) =
      addFragments t' (fragmentsIn t' options.extension directory) := by
  rw [← h.fragmentsIn_eq ht ht']
  exact addFragments_congr fun path hpath => h.readText_eq_of_mem_fragmentsIn ht ht' hpath

/-- Where trees agree, the same token tables are read. -/
theorem addTables_eq_of_agrees (ht : t.WellNamed) (ht' : t'.WellNamed)
    (h : Agrees t t' options.extension directory) :
    addTables t options.license (tablesIn t directory) =
      addTables t' options.license (tablesIn t' directory) := by
  rw [← h.tablesIn_eq ht ht']
  exact addTables_congr fun file hfile => h.readText_eq_of_mem_tablesIn ht ht' hfile

/-- A walk reads the same from trees that agree in all directories on the way. -/
theorem addLayers_eq_of_agrees (ht : t.WellNamed) (ht' : t'.WellNamed) {names : List String}
    (hnames : ∀ name ∈ names, IsName name)
    (h : ∀ d ∈ wayFrom directory names, Agrees t t' options.extension d) :
    addLayers t options directory names = addLayers t' options directory names := by
  induction names generalizing directory with
  | nil =>
    have hhere := h directory (mem_wayFrom _ _)
    rw [addLayers_of_listed ht hhere.listed.1, addLayers_of_listed ht' hhere.listed.2,
      addFragments_eq_of_agrees ht ht' hhere,
      addTables_eq_of_agrees ht ht' hhere]
  | cons name names ih =>
    obtain ⟨hname, hnames⟩ := List.forall_mem_cons.mp hnames
    obtain ⟨hhere, hbelow⟩ := List.forall_mem_cons.mp h
    -- both walks find the next directory, whatever else is beside it
    obtain ⟨hhas, hhas'⟩ := hhere.hasDirectory hname (hbelow _ (mem_wayFrom _ _))
    rw [addLayers_of_listed ht hhere.listed.1, addLayers_of_listed ht' hhere.listed.2,
      addFragments_eq_of_agrees ht ht' hhere,
      addTables_eq_of_agrees ht ht' hhere]
    dsimp only
    rw [hhas, hhas', ih hnames hbelow]

end Assembly

/-- Nothing counts but the fragments and the token tables in the directories on the way to a
dialect: trees that agree on their names and bytes give the same assembly, or the same failure. -/
theorem assemble_eq_of_agrees {t t' : FileTree} {options : Options} {root dialect dialect' : Path}
    {names : List String} (ht : t.WellNamed) (ht' : t'.WellNamed)
    (hroute : route t root dialect = .ok names) (hroute' : route t' root dialect' = .ok names)
    (h : ∀ directory ∈ wayFrom root names, Agrees t t' options.extension directory) :
    assemble t options root dialect = assemble t' options root dialect' := by
  rw [assemble_of_route hroute, assemble_of_route hroute',
    Assembly.addLayers_eq_of_agrees ht ht' (isName_of_route ht hroute) h]

/-! ### Two trees that agree -/

/-- The lower directory of the sample in another order, and with a directory in it. -/
def shuffledBelow : Directory :=
  [("keywords.txt", .ofText "c: 3\nA : 4"), ("f", .directory [("b.ftl", .ofText "T")]),
    ("b.ftl", .ofText "T B():\x7bx\x7d\x7b\x7dT C():\x7b\x7d\x7b\x7d")]

/-- The upper directory of the sample in another order, with another dialect beside the lower one, a
directory named like a fragment, and a file that is none. -/
def shuffledDirectory : Directory :=
  [("x.ftl", .directory []), ("keywords.txt", .ofText "a: 1\nb: 2"),
    ("e", .directory [("e.ftl", .ofText "T")]), ("d", .directory shuffledBelow),
    ("notes.md", .ofText "T"), ("nonReservedKeywords.txt", .ofText "c\n\u00df"),
    ("a.ftl", .ofText "T A():\x7b\x7d\x7b\x7dT B():\x7b\x7d\x7b\x7d")]

/-- The grammar of the sample among other files. -/
def shuffledTree : FileTree where
  top := [("h", .directory []), ("g", .directory shuffledDirectory)]
  workingDirectory := ["h"]

theorem hasFile_iff_of_stat {t : FileTree} {directory : Path} {place : Place} {entries : Directory}
    (hstat : t.stat directory = .ok (place, .directory entries)) {name : String}
    {bytes : ByteArray} :
    HasFile t directory name bytes ↔
      ∃ e ∈ entries, e.1 = name ∧ Listing.fileBytes? t directory e = some bytes := by
  rw [HasFile, hstat]
  constructor
  · rintro ⟨_, _, ⟨⟩, h⟩
    exact h
  · intro h
    exact ⟨place, entries, rfl, h⟩

/-- Trees agree on a directory if its entries can be listed and agree on files that are read. -/
theorem agrees_of_stat {t t' : FileTree} {extension : String} {directory : Path}
    {place place' : Place} {entries entries' : Directory}
    (hstat : t.stat directory = .ok (place, .directory entries))
    (hstat' : t'.stat directory = .ok (place', .directory entries'))
    (hlisted : ∀ e ∈ entries, Listing.entryFault? t directory place e = none)
    (hlisted' : ∀ e ∈ entries', Listing.entryFault? t' directory place' e = none)
    (hfiles : ∀ name, Listing.IsRead extension (directory.join ⟨name⟩) → ∀ bytes,
      (∃ e ∈ entries, e.1 = name ∧ Listing.fileBytes? t directory e = some bytes) ↔
        ∃ e ∈ entries', e.1 = name ∧ Listing.fileBytes? t' directory e = some bytes) :
    Agrees t t' extension directory where
  isDirectory := by
    rw [FileTree.isDirectory, FileTree.isDirectory, hstat, hstat']
    exact ⟨rfl, rfl⟩
  listed := by
    rw [Listing.fault?_eq_none_iff hstat, Listing.fault?_eq_none_iff hstat']
    exact ⟨hlisted, hlisted'⟩
  hasFile_iff := by
    intro name hread bytes
    rw [hasFile_iff_of_stat hstat, hasFile_iff_of_stat hstat']
    exact hfiles name hread bytes

theorem shuffledTree_agrees : Agrees sampleTree shuffledTree "ftl" ⟨"/g"⟩ := by
  have hsteps : (⟨"/g"⟩ : Path).allSteps = ["g"].map .down := by decide
  have hstat : sampleTree.stat ⟨"/g"⟩ = .ok (["g"], .directory sampleDirectory) :=
    FileTree.stat_of_at? rfl rfl hsteps rfl (fun target => Entry.noConfusion) (by decide)
  have hstat' : shuffledTree.stat ⟨"/g"⟩ = .ok (["g"], .directory shuffledDirectory) :=
    FileTree.stat_of_at? rfl rfl hsteps rfl (fun target => Entry.noConfusion) (by decide)
  apply agrees_of_stat hstat hstat'
  · simp [sampleDirectory, Listing.entryFault?, Entry.ofText]
  · simp [shuffledDirectory, Listing.entryFault?, Entry.ofText]
  · intro name hread bytes
    have hname : "notes.md" ≠ name := by
      rintro rfl
      revert hread
      decide
    simp only [sampleDirectory, shuffledDirectory, Entry.ofText, Listing.fileBytes?,
      List.exists_mem_cons_iff, List.not_mem_nil, reduceCtorEq, false_and, exists_false, and_false,
      or_false, false_or, hname]
    tauto

theorem shuffledTree_agrees_below : Agrees sampleTree shuffledTree "ftl" ⟨"/g/d"⟩ := by
  have hsteps : (⟨"/g/d"⟩ : Path).allSteps = ["g", "d"].map .down := by decide
  have hstat : sampleTree.stat ⟨"/g/d"⟩ = .ok (["g", "d"], .directory sampleBelow) :=
    FileTree.stat_of_at? rfl rfl hsteps rfl (fun target => Entry.noConfusion) (by decide)
  have hstat' : shuffledTree.stat ⟨"/g/d"⟩ = .ok (["g", "d"], .directory shuffledBelow) :=
    FileTree.stat_of_at? rfl rfl hsteps rfl (fun target => Entry.noConfusion) (by decide)
  apply agrees_of_stat hstat hstat'
  · simp [sampleBelow, Listing.entryFault?, Entry.ofText]
  · simp [shuffledBelow, Listing.entryFault?, Entry.ofText]
  · intro name _ bytes
    simp only [sampleBelow, shuffledBelow, Entry.ofText, Listing.fileBytes?,
      List.exists_mem_cons_iff, List.not_mem_nil, reduceCtorEq, false_and, exists_false, and_false,
      or_false, false_or]
    tauto

theorem shuffledTree_wellNamed : shuffledTree.WellNamed where
  top := by decide
  workingDirectory := by decide

/-- The sample is assembled from both trees, and to the same. -/
theorem shuffledTree_assembles :
    shuffledTree.WellNamed ∧
      assemble shuffledTree ⟨"ftl", none⟩ ⟨"/g"⟩ ⟨"/g/./d"⟩ =
        assemble sampleTree ⟨"ftl", none⟩ ⟨"/g"⟩ ⟨"/g/d"⟩ := by
  have hroute : route sampleTree ⟨"/g"⟩ ⟨"/g/d"⟩ = .ok ["d"] := by rfl
  have hroute' : route shuffledTree ⟨"/g"⟩ ⟨"/g/./d"⟩ = .ok ["d"] := by rfl
  refine ⟨shuffledTree_wellNamed, ?_⟩
  symm
  apply assemble_eq_of_agrees sampleTree_wellNamed shuffledTree_wellNamed hroute hroute'
  intro directory hdirectory
  rcases List.mem_pair.mp hdirectory with rfl | rfl
  · exact shuffledTree_agrees
  · exact shuffledTree_agrees_below

end GrammarLayers
