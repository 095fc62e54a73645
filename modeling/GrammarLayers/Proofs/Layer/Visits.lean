import GrammarLayers.Proofs.Layer.Listed
import GrammarLayers.Proofs.Layer.Overriding
import GrammarLayers.Proofs.Table.Entries

/-!
# All or nothing

Assembling a dialect is a sequence of visits: each directory on the way is listed, its fragments and
then its token tables are read, and the next directory is looked for in it. Either all visits go
well, and then everything on the way could be listed, read and understood, or the assembly fails
with the fault of the first visit that does not. There is one exception: where the root is a file
and the dialect is the root, nothing is read and nothing fails.

## Main definitions

* `Visit`, `Visit.fault?` — what is done on the way to a dialect, and what may be wrong with it
* `visits` — the visits on the way to a dialect
* `HoldsText` — a path leads to a text
* `IsReadable` — everything in a directory can be listed, read and understood
* `Loading.FailsWith` — what an action fails with

## Main results

* `Assembly.addLayers_failsWith` — a walk fails with the first fault of its visits
* `findSome?_visits_eq_none_iff` — when there is no fault
* `assemble_reads_all_or_fails_first` — when a dialect can be assembled, and what it fails with
-/

namespace GrammarLayers

/-! ### Visits -/

/-- Something that is done on the way to a dialect. -/
inductive Visit where
  /-- List a directory. -/
  | list (directory : Path)
  /-- Read a fragment. -/
  | fragment (path : Path)
  /-- Read a token table. -/
  | table (kind : TableKind) (path : Path)
  /-- Go to a directory in another one. -/
  | enter (name : String) (parent : Path)

/-- A path leads to a file whose bytes are this text. -/
def HoldsText (t : FileTree) (path : Path) (text : String) : Prop :=
  ∃ place, t.stat path = .ok (place, .ofText text)

/-- What is wrong with a visit, if anything is. -/
def Visit.fault? (t : FileTree) (options : Options) : Visit → Option Failure
  | .list directory => Listing.fault? t directory
  | .fragment path =>
    match t.readText path with
    | .error cause => some (.unreadable path .fragment cause)
    | .ok text =>
      match Production.readAll text.toList with
      | .error fault => some (.inFile path fault)
      | .ok _ => none
  | .table kind path =>
    match t.readText path with
    | .error cause => some (.unreadable path .tokenTable cause)
    | .ok text =>
      if kind = .nonReserved then none
      else
        ((entryLines (dropLicense options.license text.toList)).find? fun line => ':' ∉ line.2).map
          fun line => .inFile path (.malformedEntry line.1 line.2)
  | .enter name parent =>
    if hasDirectory t parent name then none else some (.missingDirectory name parent)

/-- The visits to one directory: it is listed, and its files are read. -/
def visitsIn (t : FileTree) (options : Options) (directory : Path) : List Visit :=
  .list directory :: (fragmentsIn t options.extension directory).map .fragment ++
    (tablesIn t directory).map fun (kind, path) => .table kind path

/-- The visits from a directory on the way down along these names, in order. -/
def visits (t : FileTree) (options : Options) (directory : Path) : List String → List Visit
  | [] => visitsIn t options directory
  | name :: names =>
    visitsIn t options directory ++ .enter name directory ::
      visits t options (directory.join ⟨name⟩) names

/-- The directories from one on along these names. -/
def wayFrom (directory : Path) : List String → List Path
  | [] => [directory]
  | name :: names => directory :: wayFrom (directory.join ⟨name⟩) names

/-- A directory is there and all its entries can be listed, its fragments are texts that can be read
as productions, its tables are texts, and where they assign values, every line after the license
header has a colon, unless it is blank. -/
def IsReadable (t : FileTree) (options : Options) (directory : Path) : Prop :=
  ∃ place entries, t.stat directory = .ok (place, .directory entries) ∧
    (∀ e ∈ entries, Listing.entryFault? t directory place e = none) ∧
    (∀ e ∈ entries, Listing.IsFragment t options.extension directory place e →
      ∃ text, HoldsText t (directory.join ⟨e.1⟩) text ∧
        ∃ ps, Production.readAll text.toList = .ok ps) ∧
    ∀ e ∈ entries, ∀ kind, Listing.tableKind? t directory place e = some kind →
      ∃ text, HoldsText t (directory.join ⟨e.1⟩) text ∧
        (kind ≠ .nonReserved → ∀ line ∈ splitLines (dropLicense options.license text.toList),
          trim line ≠ [] → ':' ∈ line)

/-! ### What actions fail with -/

theorem findSome?_cons {α β : Type} (f : α → Option β) (a : α) (as : List α) :
    (a :: as).findSome? f = (f a).or (as.findSome? f) := by
  rw [List.findSome?_cons]
  cases f a with
  | none => rfl
  | some b => rfl

namespace Loading

variable {σ ρ α β ι : Type} {x : Loading σ α} {f : α → Loading σ β} {fault fault' : Option Failure}

/-- An action fails with this fault, whatever the state, or else succeeds if there is none. -/
def FailsWith (x : Loading σ α) (fault : Option Failure) : Prop :=
  ∀ s failure, (x.run.run s).1 = .error failure ↔ fault = some failure

theorem FailsWith.pure (a : α) : (pure a : Loading σ α).FailsWith none := by
  intro s failure
  exact iff_of_false (by rintro ⟨⟩) (Option.some_ne_none failure).symm

theorem FailsWith.throw (failure : Failure) :
    (throw failure : Loading σ α).FailsWith (some failure) := by
  intro s failure'
  constructor
  · rintro ⟨⟩
    rfl
  · rintro ⟨⟩
    rfl

theorem FailsWith.liftM {x : Except Failure α}
    (h : ∀ failure, x = .error failure ↔ fault = some failure) :
    (liftM x : Loading σ α).FailsWith fault := by
  intro s failure
  rw [run_liftM]
  exact h failure

theorem FailsWith.eq_none_of_ok (h : x.FailsWith fault) {s s' : σ} {a : α}
    (hrun : x.run.run s = (.ok a, s')) : fault = none := by
  rw [Option.eq_none_iff_forall_ne_some]
  intro failure hfault
  have herror := (h s failure).mpr hfault
  rw [hrun] at herror
  cases herror

/-- Of two actions, the second one can only fail where the first one succeeds. -/
theorem FailsWith.bind (hx : x.FailsWith fault)
    (hf : ∀ s a s', x.run.run s = (.ok a, s') → (f a).FailsWith fault') :
    (x >>= f).FailsWith (fault.or fault') := by
  intro s failure
  rw [run_bind]
  rcases hrun : x.run.run s with ⟨e | a, s'⟩
  · have hfault : fault = some e := (hx s e).mp (by rw [hrun])
    rw [hfault, Option.some_or, Except.error.injEq, Option.some.injEq]
  · rw [hx.eq_none_of_ok hrun, Option.none_or]
    exact hf s a s' hrun s' failure

/-- Of many actions, the first one that has a fault fails. -/
theorem FailsWith.all {add : ι → Loading σ ρ} {fault? : ι → Option Failure}
    (hadd : ∀ i, (add i).FailsWith (fault? i)) {all : List ι → Loading σ Unit}
    (hnil : all [] = Pure.pure ()) (hcons : ∀ i is, all (i :: is) = add i >>= fun _ => all is)
    (is : List ι) : (all is).FailsWith (is.findSome? fault?) := by
  induction is with
  | nil =>
    rw [hnil]
    exact .pure ()
  | cons i is ih =>
    rw [hcons, findSome?_cons]
    exact (hadd i).bind fun _ _ _ _ => ih

end Loading

/-! ### What loading fails with -/

section
variable {t : FileTree} {options : Options} {path directory : Path} {kind : TableKind}

theorem Grammar.load_failsWith :
    (Grammar.load t path).FailsWith (Visit.fault? t options (.fragment path)) := by
  intro g failure
  rw [Grammar.run_load, Visit.fault?, productionsOfFile, readTextAs]
  cases t.readText path with
  | error cause => simp [Except.mapError, bind, Except.bind]
  | ok text =>
    simp only [Except.mapError, bind, Except.bind]
    cases Production.readAll text.toList with
    | error fault => simp
    | ok ps => simp [pure, Except.pure]

theorem Lexicon.load_failsWith :
    (Lexicon.load t options.license kind path).FailsWith
      (Visit.fault? t options (.table kind path)) := by
  intro l failure
  rw [Lexicon.run_load, Visit.fault?, readTextAs]
  cases t.readText path with
  | error cause => simp [Except.mapError]
  | ok text =>
    cases kind with
    | nonReserved => simp [Except.mapError]
    | assignments c =>
      dsimp only [Except.mapError]
      -- only the list of words has no lines that could be malformed
      rw [if_neg (by rintro ⟨⟩)]
      cases hread : readAssignments (dropLicense options.license text.toList) with
      | error fault =>
        have hfault := readEntries_eq_error_iff.mp hread
        obtain ⟨line, hline, rfl⟩ := Option.map_eq_some_iff.mp hfault
        rw [hline]
        simp
      | ok entries =>
        rw [exists_readEntries_iff.mp ⟨entries, hread⟩]
        simp

namespace Assembly

/-- Adding a fragment to an assembly fails as loading it does. -/
theorem addFragment_failsWith :
    (addFragment t path).FailsWith (Visit.fault? t options (.fragment path)) := by
  intro a failure
  have hget : (get : Loading Assembly Assembly).run.run a = (.ok a, a) := rfl
  rw [← Grammar.load_failsWith a.grammar failure, addFragment, Loading.run_bind_of_ok hget]
  rcases (Grammar.load t path).run.run a.grammar with ⟨cause | report, g⟩
  · rfl
  · exact iff_of_false (by rintro ⟨⟩) (by rintro ⟨⟩)

/-- Adding a table to an assembly fails as loading it does. -/
theorem addTable_failsWith :
    (addTable t options.license kind path).FailsWith
      (Visit.fault? t options (.table kind path)) := by
  intro a failure
  have hget : (get : Loading Assembly Assembly).run.run a = (.ok a, a) := rfl
  rw [← Lexicon.load_failsWith a.lexicon failure, addTable, Loading.run_bind_of_ok hget]
  rcases (Lexicon.load t options.license kind path).run.run a.lexicon with ⟨cause | report, l⟩
  · rfl
  · exact iff_of_false (by rintro ⟨⟩) (by rintro ⟨⟩)

theorem addLayer_failsWith :
    (addLayer t options directory).FailsWith
      ((visitsIn t options directory).findSome? (Visit.fault? t options)) := by
  have hlist : (liftM (Listing.ofDirectory t options.extension directory) :
      Loading Assembly Listing).FailsWith (Visit.fault? t options (.list directory)) :=
    .liftM fun _ => Listing.ofDirectory_eq_error_iff
  have hfragments : ∀ paths, (addFragments t paths).FailsWith
      (paths.findSome? fun path => Visit.fault? t options (.fragment path)) :=
    Loading.FailsWith.all (fun _ => addFragment_failsWith) rfl fun _ _ => rfl
  have htables : ∀ files, (addTables t options.license files).FailsWith
      (files.findSome? fun file => Visit.fault? t options (.table file.1 file.2)) :=
    Loading.FailsWith.all (fun _ => addTable_failsWith) rfl fun _ _ => rfl
  rw [visitsIn, List.findSome?_append, findSome?_cons, List.findSome?_map, List.findSome?_map,
    Option.or_assoc, addLayer]
  -- once the directory can be listed, its files are those that the tree has there
  apply hlist.bind
  intro _ listing _ hrun
  rw [Loading.run_liftM] at hrun
  have hlisted := (Prod.mk.inj hrun).1
  rw [← Listing.fragments_of_ofDirectory hlisted, ← Listing.tables_of_ofDirectory hlisted]
  apply (hfragments listing.fragments).bind
  intro _ _ _ _
  have htables := (htables listing.tables).bind fun _ _ _ _ => .pure listing
  rw [Option.or_none] at htables
  exact htables

/-- A walk fails with the first fault of its visits. -/
theorem addLayers_failsWith (ht : t.WellNamed) (names : List String) :
    (addLayers t options directory names).FailsWith
      ((visits t options directory names).findSome? (Visit.fault? t options)) := by
  induction names generalizing directory with
  | nil =>
    rw [addLayers_nil, visits, ← @Option.or_none _ (List.findSome? _ _)]
    exact addLayer_failsWith.bind fun _ _ _ _ => .pure ()
  | cons name names ih =>
    -- whether the walk goes on does not depend on what has been read
    rw [addLayers_cons, visits, List.findSome?_append]
    apply addLayer_failsWith.bind
    intro _ listing _ hrun
    have hlisted := (addLayer_eq_ok_iff.mp hrun).1
    rw [Listing.directory?_of_ofDirectory ht hlisted, findSome?_cons, Visit.fault?]
    cases hasDirectory t directory name with
    | true => exact ih
    | false => exact .throw _

end Assembly

/-! ### When nothing is wrong -/

theorem FileTree.readText_eq_ok_iff {text : String} :
    t.readText path = .ok text ↔ HoldsText t path text := by
  rw [readText_eq_ok_iff_readBytes, readBytes_eq_ok_iff]
  rfl

theorem Visit.fault?_fragment_eq_none_iff :
    Visit.fault? t options (.fragment path) = none ↔
      ∃ text, HoldsText t path text ∧ ∃ ps, Production.readAll text.toList = .ok ps := by
  simp only [← FileTree.readText_eq_ok_iff, Visit.fault?]
  cases t.readText path with
  | error cause => simp
  | ok text =>
    dsimp only
    cases hread : Production.readAll text.toList with
    | error fault => simp [hread]
    | ok ps => simp [hread]

theorem Visit.fault?_table_eq_none_iff :
    Visit.fault? t options (.table kind path) = none ↔
      ∃ text, HoldsText t path text ∧
        (kind ≠ .nonReserved → ∀ line ∈ splitLines (dropLicense options.license text.toList),
          trim line ≠ [] → ':' ∈ line) := by
  simp only [← FileTree.readText_eq_ok_iff, Visit.fault?, ← exists_readAssignments_iff,
    readAssignments, exists_readEntries_iff]
  cases t.readText path with
  | error cause => simp
  | ok text =>
    by_cases hkind : kind = .nonReserved
    · simp [hkind]
    · simp only [hkind, if_false, Option.map_eq_none_iff, Except.ok.injEq, exists_eq_left',
        ne_eq, not_false_eq_true, true_imp_iff]

/-- Nothing is wrong with a directory if it is readable, or if there is a file in its place. -/
theorem findSome?_visitsIn_eq_none_iff :
    (visitsIn t options directory).findSome? (Visit.fault? t options) = none ↔
      IsReadable t options directory ∨ t.isFile directory = true := by
  unfold visitsIn IsReadable FileTree.isFile
  simp only [List.findSome?_eq_none_iff, List.forall_mem_append, List.forall_mem_cons,
    List.forall_mem_map, Visit.fault?_fragment_eq_none_iff, Visit.fault?_table_eq_none_iff]
  rcases hstat : t.stat directory with cause | ⟨place, bytes | entries | target⟩
  · simp [Visit.fault?, Listing.fault?, hstat]
  · simp [Visit.fault?, Listing.fault?, fragmentsIn, tablesIn, hstat]
  · have hlisted := Listing.fault?_eq_none_iff hstat
    simp only [Visit.fault?, hlisted, forall_mem_fragmentsIn_iff hstat,
      forall_mem_tablesIn_iff hstat]
    constructor
    · rintro ⟨⟨hlisted, hfragments⟩, htables⟩
      exact .inl ⟨place, entries, rfl, hlisted, hfragments, htables⟩
    · rintro (⟨_, _, ⟨rfl, rfl⟩, hlisted, hfragments, htables⟩ | hfile)
      · exact ⟨⟨hlisted, hfragments⟩, htables⟩
      · cases hfile
  · exact absurd hstat (FileTree.stat_ne_link target)

theorem mem_wayFrom (directory : Path) (names : List String) :
    directory ∈ wayFrom directory names := by
  cases names with
  | nil => exact List.mem_singleton_self directory
  | cons name names => exact List.mem_cons_self

/-- A directory that is readable and leads on to another one has it in it. -/
theorem IsReadable.hasDirectory {name : String} (hname : IsName name)
    (h : IsReadable t options directory) (hbelow : IsReadable t options (directory.join ⟨name⟩)) :
    hasDirectory t directory name = true := by
  obtain ⟨place, entries, hstat, hlisted, -⟩ := h
  obtain ⟨target, below, hbelow, -⟩ := hbelow
  exact hasDirectory_of_stat hstat ((Listing.fault?_eq_none_iff hstat).mpr hlisted) hname hbelow

/-- Nothing is wrong on the way to a dialect if all directories on it are readable. Only for a
dialect that is the root itself there may be a file in its place. -/
theorem findSome?_visits_eq_none_iff (ht : t.WellNamed) {names : List String}
    (hnames : ∀ name ∈ names, IsName name) :
    (visits t options directory names).findSome? (Visit.fault? t options) = none ↔
      (∀ d ∈ wayFrom directory names, IsReadable t options d) ∨
        names = [] ∧ t.isFile directory = true := by
  induction names generalizing directory with
  | nil =>
    rw [visits, findSome?_visitsIn_eq_none_iff, wayFrom, List.forall_mem_singleton]
    simp only [true_and]
  | cons name names ih =>
    obtain ⟨hname, hnames⟩ := List.forall_mem_cons.mp hnames
    have henter : Visit.fault? t options (.enter name directory) = none ↔
        hasDirectory t directory name = true := by
      simp [Visit.fault?]
    rw [visits, List.findSome?_append, findSome?_cons, Option.or_eq_none_iff,
      Option.or_eq_none_iff, findSome?_visitsIn_eq_none_iff, henter, ih hnames, wayFrom,
      List.forall_mem_cons]
    constructor
    · rintro ⟨hhere, hhas, hbelow⟩
      -- a file has no directory in it, and where a directory has one of this name, there is no file
      refine .inl ⟨hhere.resolve_right fun hfile => ?_, hbelow.resolve_right fun hfile => ?_⟩
      · obtain ⟨place, bytes, hfile⟩ := FileTree.exists_stat_of_isFile hfile
        obtain ⟨_, _, hdirectory, -⟩ := hasDirectory_iff.mp hhas
        rw [hfile] at hdirectory
        cases hdirectory
      · obtain ⟨place, bytes, hfile⟩ := FileTree.exists_stat_of_isFile hfile.2
        obtain ⟨_, hdirectory⟩ := stat_of_hasDirectory ht hhas hfile
        cases hdirectory
    · rintro (⟨hhere, hbelow⟩ | ⟨⟨⟩, -⟩)
      exact ⟨.inl hhere, hhere.hasDirectory hname (hbelow _ (mem_wayFrom _ _)), .inl hbelow⟩

/-! ### The way to a dialect -/

variable {root dialect : Path}

theorem mem_of_namesOf_eq_ok {components : List Component} {names : List String}
    (h : namesOf root dialect components = .ok names) :
    ∀ name ∈ names, .name name ∈ components := by
  induction components generalizing names with
  | nil =>
    obtain rfl := Except.ok.inj h
    intro name hname
    cases hname
  | cons component components ih =>
    cases component with
    | name first =>
      obtain ⟨rest, hrest, h⟩ := exists_of_bind_eq_ok h
      obtain rfl := Except.ok.inj h
      intro name hname
      rcases List.mem_cons.mp hname with rfl | hname
      · exact List.mem_cons_self
      · exact List.mem_cons_of_mem _ (ih hrest name hname)
    | current => exact fun name hname => List.mem_cons_of_mem _ (ih h name hname)
    | _ => cases h

/-- The directories on the way have names of entries. -/
theorem isName_of_route (ht : t.WellNamed) {names : List String}
    (h : route t root dialect = .ok names) : ∀ name ∈ names, IsName name := by
  obtain ⟨components, hcomponents, h⟩ := exists_of_bind_eq_ok h
  intro name hname
  have hmem := mem_of_namesOf_eq_ok h name hname
  unfold componentsBelow at hcomponents
  split at hcomponents
  next hbelow =>
    obtain rfl := Except.ok.inj hcomponents
    unfold Path.below? at hbelow
    split at hbelow
    next =>
      obtain rfl := Option.some.inj hbelow
      -- the names are in the path of the dialect
      exact Path.isName_of_mem_components (List.mem_of_mem_drop hmem)
    next => cases hbelow
  next =>
    split at hcomponents
    next top bottom _ hbottom =>
      split at hcomponents
      next =>
        obtain rfl := Except.ok.inj hcomponents
        -- the names are in the place that the dialect leads to
        obtain ⟨_, hplace, ⟨⟩⟩ := List.mem_map.mp hmem
        exact ht.canonical? hbottom name (List.mem_of_mem_drop hplace)
      next => cases hcomponents
    next => cases hcomponents

/-- A dialect can be assembled if the way to it can be told and all directories on it are readable.
Otherwise the assembly fails, and with the first thing that is wrong: that there is no way, or the
fault of the first visit on it that has one. Only where the dialect is the root itself and the root
is a file, nothing is wrong although there is no directory. -/
theorem assemble_reads_all_or_fails_first (ht : t.WellNamed) :
    ((∃ a, assemble t options root dialect = .ok a) ↔
      ∃ names, route t root dialect = .ok names ∧
        ((∀ directory ∈ wayFrom root names, IsReadable t options directory) ∨
          names = [] ∧ t.isFile root = true)) ∧
    ∀ failure, assemble t options root dialect = .error failure ↔
      route t root dialect = .error failure ∨
        ∃ names, route t root dialect = .ok names ∧
          (visits t options root names).findSome? (Visit.fault? t options) = some failure := by
  cases hroute : route t root dialect with
  | error cause =>
    have herror : assemble t options root dialect = .error cause := by
      rw [assemble, hroute]
      rfl
    simp [herror]
  | ok names =>
    -- loading fails just with the first fault on the way
    have hfails : (Assembly.addLayers t options root names).FailsWith _ :=
      Assembly.addLayers_failsWith ht names
    simp only [Except.ok.injEq, exists_eq_left', reduceCtorEq, false_or]
    rw [← findSome?_visits_eq_none_iff ht (isName_of_route ht hroute), assemble_of_route hroute]
    rcases hrun : (Assembly.addLayers t options root names).run.run .empty with ⟨cause | ⟨⟩, a⟩
    · have hfault := (hfails .empty cause).mp (by rw [hrun])
      rw [hfault]
      simp
    · rw [hfails.eq_none_of_ok hrun]
      simp

end

theorem sampleTree_wellNamed : sampleTree.WellNamed where
  top := by decide
  workingDirectory := fun _ hname => absurd hname List.not_mem_nil

/-- Both directories of the sample are readable. -/
theorem sampleTree_reads_all :
    sampleTree.WellNamed ∧
      ∀ directory ∈ wayFrom ⟨"/g"⟩ ["d"], IsReadable sampleTree ⟨"ftl", none⟩ directory := by
  refine ⟨sampleTree_wellNamed, ?_⟩
  obtain ⟨names, hroute, hreadable⟩ :=
    (assemble_reads_all_or_fails_first sampleTree_wellNamed).1.mp sampleTree_assembles
  have hnames : names = ["d"] := (Except.ok.inj hroute).symm
  subst hnames
  exact hreadable.resolve_right fun h => List.cons_ne_nil "d" [] h.1

/-- A file where the root of a grammar should be. -/
def rootFile : FileTree where
  top := [("g", .ofText "void a() : \x7b\x7d \x7b\x7d\n")]
  workingDirectory := []

/-- With a file as its root, the dialect that is the root itself is assembled out of nothing. -/
theorem rootFile_assembles :
    rootFile.WellNamed ∧ route rootFile ⟨"/g"⟩ ⟨"/g"⟩ = .ok [] ∧
      (∃ a, assemble rootFile ⟨"g", none⟩ ⟨"/g"⟩ ⟨"/g"⟩ = .ok a ∧
        a.fragments = [] ∧ a.tables = []) ∧
      ¬ ∀ directory ∈ wayFrom ⟨"/g"⟩ [], IsReadable rootFile ⟨"g", none⟩ directory := by
  have hnamed : rootFile.WellNamed := ⟨by decide, by decide⟩
  have hroute : route rootFile ⟨"/g"⟩ ⟨"/g"⟩ = .ok [] := by rfl
  have hsteps : (⟨"/g"⟩ : Path).allSteps = ["g"].map .down := by decide
  have hstat : rootFile.stat ⟨"/g"⟩ = .ok (["g"], .ofText "void a() : \x7b\x7d \x7b\x7d\n") :=
    FileTree.stat_of_at? rfl rfl hsteps rfl (fun target => Entry.noConfusion) (by decide)
  -- a file has no entries, but is not refused
  have hlisted : Listing.ofDirectory rootFile "g" ⟨"/g"⟩ = .ok {} := by
    rw [Listing.ofDirectory, hstat]
    rfl
  have hgathers : Assembly.Gathers rootFile ⟨"g", none⟩ [(⟨"/g"⟩, {})] .empty .empty :=
    .intro (.nil _) (.nil _)
  have hassembles := assemble_eq_ok_iff.mpr ⟨[], _, _, hroute, .last hlisted, hgathers, rfl⟩
  refine ⟨hnamed, hroute, ⟨_, hassembles, rfl, rfl⟩, ?_⟩
  intro hreadable
  obtain ⟨place, entries, hdirectory, -⟩ := hreadable ⟨"/g"⟩ (mem_wayFrom _ _)
  rw [hstat] at hdirectory
  cases hdirectory

end GrammarLayers
