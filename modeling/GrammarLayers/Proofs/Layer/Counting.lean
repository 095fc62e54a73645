import GrammarLayers.Proofs.Layer.TokenOrder
import GrammarLayers.Proofs.Merge.Repeats

/-!
# What is overridden, and how often

For each file that is read, there is a report on the names whose earlier definition it overrides.
Over all fragments these are the repeats among the names of all productions, file by file, and over
all tables of one class they are the repeats among the names that these assign. So a name that is
defined `k` times is reported `k - 1` times, and what is overridden and what is left make up all
that was read.

## Main definitions

* `fragmentReports`, `tableReports` — the reports on files
* `Assembly.Tallies` — the reports and the numbers of an assembly fit the files it was read from

## Main results

* `Loads.exists_fragmentReports`, `TableFile.reports_eq_of_loads` — loading files gives the reports
* `overridden_fragmentReports`, `overridden_tableReports` — all that reports say is overridden
* `assemble_tallies` — the reports and the numbers of an assembly
-/

namespace GrammarLayers

/-- The reports on fragments with these productions, where these names came up before. -/
def fragmentReports (seen : Finset String) : List (Path × List Production) → List FragmentReport
  | [] => []
  | (path, ps) :: files =>
    ⟨path, ps.length, repeats seen (ps.map Production.name)⟩ ::
      fragmentReports (seen ∪ (ps.map Production.name).toFinset) files

/-- The report on a table file, where these names came up before in each class. -/
def TableFile.report (seen : TokenClass → Finset String) (f : TableFile) : TableReport :=
  match f.kind with
  | .nonReserved => ⟨f.path, .nonReserved, f.listed.length, []⟩
  | .assignments c =>
    ⟨f.path, .assignments c, (f.assigned c).length,
      repeats (seen c) ((f.assigned c).map TokenDef.name)⟩

/-- The reports on table files, where these names came up before in each class. -/
def tableReports (seen : TokenClass → Finset String) : List TableFile → List TableReport
  | [] => []
  | f :: files =>
    f.report seen ::
      tableReports (fun c => seen c ∪ ((f.assigned c).map TokenDef.name).toFinset) files

/-- The reports of an assembly are those on these fragments and tables. A name that fragments
define, or tables of one class assign, `k` times is reported `k - 1` times; what is overridden and
the distinct names make up all productions and assignments; and what is overridden and the grammar
make up all productions, apart from the one for the listed words, where it is added as a new one. -/
structure Assembly.Tallies (a : Assembly) (fragments : List (Path × List Production))
    (tables : List TableFile) : Prop where
  fragments_eq : a.fragments = fragmentReports ∅ fragments
  tables_eq : a.tables = tableReports (fun _ => ∅) tables
  count_fragments : ∀ name, (a.fragments.flatMap (·.overridden)).count name =
    ((fragments.flatMap (·.2)).map Production.name).count name - 1
  count_tables : ∀ c name,
    ((a.tables.filter (·.kind = .assignments c)).flatMap (·.overridden)).count name =
      ((tables.flatMap (·.assigned c)).map TokenDef.name).count name - 1
  overrides_add : a.overrides + (((fragments.flatMap (·.2)).map Production.name).toFinset.card +
      (TokenClass.all.map fun c =>
        ((tables.flatMap (·.assigned c)).map TokenDef.name).toFinset.card).sum) =
    (a.fragments.map (·.productions)).sum +
      ((a.tables.filter (·.kind ≠ .nonReserved)).map (·.entries)).sum
  size_add : a.grammar.size + (a.fragments.flatMap (·.overridden)).length =
    (a.fragments.map (·.productions)).sum +
      if (nonReservedProduction a.lexicon.nonReserved).isSome ∧
        nonReservedName ∉ (fragments.flatMap (·.2)).map Production.name then 1 else 0

/-! ### Fragments -/

section
variable {t : FileTree} (seen : Finset String) (files : List (Path × List Production))

/-- All that is overridden are the repeats among all names. -/
theorem overridden_fragmentReports :
    (fragmentReports seen files).flatMap (·.overridden) =
      repeats seen ((files.flatMap (·.2)).map Production.name) := by
  induction files generalizing seen with
  | nil => rfl
  | cons file files ih =>
    rw [fragmentReports, List.flatMap_cons, List.flatMap_cons, List.map_append, repeats_append, ih]

theorem sum_productions_fragmentReports :
    ((fragmentReports seen files).map (·.productions)).sum =
      (files.flatMap (·.2)).length := by
  induction files generalizing seen with
  | nil => rfl
  | cons file files ih =>
    rw [fragmentReports, List.map_cons, List.sum_cons, ih, List.flatMap_cons, List.length_append]

/-- Loading fragments gives the reports on their productions. -/
theorem Loads.exists_fragmentReports {paths : List Path} {g g' : Grammar}
    {reports : List FragmentReport} (hindexed : g.WellIndexed)
    (h : Loads g (paths.map (Grammar.load t)) reports g') :
    ∃ files : List (Path × List Production), files.map Prod.fst = paths ∧
      (∀ file ∈ files, productionsOfFile t file.1 = .ok file.2) ∧
      reports = fragmentReports g.names.toFinset files ∧
      g' = (g.insertAll (files.flatMap (·.2))).2 := by
  induction paths generalizing g reports with
  | nil =>
    cases h
    exact ⟨[], rfl, fun _ hfile => absurd hfile List.not_mem_nil, rfl, rfl⟩
  | cons path paths ih =>
    cases h with
    | cons hload h =>
      rw [Grammar.run_load] at hload
      split at hload
      next ps hps =>
        obtain ⟨⟩ := hload
        -- the names seen so far are those of the grammar
        obtain ⟨hrepeats, hnames⟩ := hindexed.map_insertAll ps
        obtain ⟨files, rfl, hfiles, rfl, rfl⟩ := ih (hindexed.insertAll ps).1 h
        refine ⟨(path, ps) :: files, rfl, List.forall_mem_cons.mpr ⟨hps, hfiles⟩, ?_, ?_⟩
        · rw [fragmentReports, hrepeats, hnames]
        · rw [List.flatMap_cons, Grammar.insertAll_append]
      next => cases hload

end

/-! ### Tables -/

namespace TableFile

variable {f : TableFile} {files : List TableFile} {l l' : Lexicon} {report : TableReport}
  {reports : List TableReport}

/-- Loading a table file gives the report on it. -/
theorem report_eq_of_load (hindexed : ∀ c, (l.table c).WellIndexed)
    (h : f.load.run.run l = (.ok report, l')) :
    report = f.report fun c => (l.table c).names.toFinset := by
  rw [load, Lexicon.run_load] at h
  unfold TableFile.report
  split at h
  next => cases h
  next text hread hkind =>
    obtain ⟨⟩ := h
    rw [← content_of_readTextAs hread, hkind]
    dsimp only
    rw [← listed_eq_of_nonReserved hkind, List.length_map]
  next text c hread hkind =>
    rw [← content_of_readTextAs hread] at h
    split at h
    next => cases h
    next entries hentries =>
      obtain ⟨⟩ := h
      rw [hkind]
      dsimp only
      rw [← assigned_eq_of_readAssignments hkind hentries, List.length_map,
        ← ((hindexed c).map_insertAll _).1]

/-- Loading table files gives the reports on them. -/
theorem reports_eq_of_loads (hindexed : ∀ c, (l.table c).WellIndexed)
    (h : Loads l (files.map load) reports l') :
    reports = tableReports (fun c => (l.table c).names.toFinset) files := by
  induction files generalizing l reports with
  | nil =>
    cases h
    rfl
  | cons f files ih =>
    cases h with
    | @cons _ l₁ _ _ _ report rs hload h =>
      -- the names that came up before the other files are those of the tables after the first one
      have htable := (load_eq_ok hload).1
      have hindexed₁ : ∀ c, (l₁.table c).WellIndexed := by
        intro c
        rw [htable c]
        exact ((hindexed c).insertAll _).1
      have hnames : (fun c => (l₁.table c).names.toFinset) = fun c =>
          (l.table c).names.toFinset ∪ ((f.assigned c).map TokenDef.name).toFinset := by
        funext c
        rw [htable c]
        exact ((hindexed c).map_insertAll _).2
      rw [report_eq_of_load hindexed hload, ih hindexed₁ h, hnames, tableReports]

end TableFile

section
variable (seen : TokenClass → Finset String) (files : List TableFile) (c : TokenClass)

theorem TableFile.kind_report (f : TableFile) : (f.report seen).kind = f.kind := by
  unfold TableFile.report
  split
  next hkind => exact hkind.symm
  next c hkind => exact hkind.symm

theorem TableFile.report_of_kind {f : TableFile} (hkind : f.kind = .assignments c) :
    f.report seen = ⟨f.path, .assignments c, (f.assigned c).length,
      repeats (seen c) ((f.assigned c).map TokenDef.name)⟩ := by
  rw [report, hkind]

/-- Of the tables of one class, all that is overridden are the repeats among all names that they
assign. -/
theorem overridden_tableReports :
    ((tableReports seen files).filter (·.kind = .assignments c)).flatMap (·.overridden) =
      repeats (seen c) ((files.flatMap (·.assigned c)).map TokenDef.name) := by
  induction files generalizing seen with
  | nil => rfl
  | cons f files ih =>
    rw [tableReports, List.filter_cons, TableFile.kind_report, List.flatMap_cons, List.map_append,
      repeats_append]
    by_cases hkind : f.kind = .assignments c
    · rw [if_pos (decide_eq_true hkind), List.flatMap_cons, ih,
        TableFile.report_of_kind seen c hkind]
    · rw [if_neg (mt of_decide_eq_true hkind), ih, TableFile.assigned_eq_nil hkind]
      simp [repeats]

theorem sum_entries_tableReports :
    (((tableReports seen files).filter (·.kind = .assignments c)).map (·.entries)).sum =
      (files.flatMap (·.assigned c)).length := by
  induction files generalizing seen with
  | nil => rfl
  | cons f files ih =>
    rw [tableReports, List.filter_cons, TableFile.kind_report, List.flatMap_cons,
      List.length_append]
    by_cases hkind : f.kind = .assignments c
    · rw [if_pos (decide_eq_true hkind), List.map_cons, List.sum_cons, ih,
        TableFile.report_of_kind seen c hkind]
    · rw [if_neg (mt of_decide_eq_true hkind), ih, TableFile.assigned_eq_nil hkind,
        List.length_nil, Nat.zero_add]

/-- A list of words overrides nothing. -/
theorem overridden_eq_nil_of_mem_tableReports {report : TableReport}
    (hreport : report ∈ tableReports seen files) (hkind : report.kind = .nonReserved) :
    report.overridden = [] := by
  induction files generalizing seen with
  | nil => cases hreport
  | cons f files ih =>
    rcases List.mem_cons.mp hreport with rfl | hreport
    · rw [TableFile.kind_report] at hkind
      rw [TableFile.report, hkind]
    · exact ih _ hreport

end

/-- What tables of assignments add up to is what those of each class add up to. -/
theorem sum_map_filter_eq_sum_classes (reports : List TableReport) (number : TableReport → Nat) :
    ((reports.filter (·.kind ≠ .nonReserved)).map number).sum =
      (TokenClass.all.map fun c =>
        ((reports.filter (·.kind = .assignments c)).map number).sum).sum := by
  induction reports with
  | nil => rfl
  | cons report reports ih =>
    simp only [TokenClass.all, List.map_cons, List.map_nil, List.sum_cons, List.sum_nil] at ih ⊢
    rcases hkind : report.kind with c | _
    · -- the report counts for its own class, and for no other one
      cases c <;> simp [hkind] <;> simp at ih <;> omega
    · simpa [hkind] using ih

theorem sum_map_filter_of_eq_zero {reports : List TableReport} {number : TableReport → Nat}
    (h : ∀ report ∈ reports, report.kind = .nonReserved → number report = 0) :
    ((reports.filter (·.kind ≠ .nonReserved)).map number).sum = (reports.map number).sum := by
  induction reports with
  | nil => rfl
  | cons report reports ih =>
    obtain ⟨hzero, h⟩ := List.forall_mem_cons.mp h
    rw [List.map_cons, List.sum_cons, ← ih h, List.filter_cons]
    by_cases hkind : report.kind = .nonReserved
    · simp [hkind, hzero hkind]
    · simp [hkind]

/-- What tables override is what those of each class override. -/
theorem length_overridden_tableReports (seen : TokenClass → Finset String)
    (files : List TableFile) :
    ((tableReports seen files).flatMap (·.overridden)).length =
      (TokenClass.all.map fun c =>
        (repeats (seen c) ((files.flatMap (·.assigned c)).map TokenDef.name)).length).sum := by
  have hwords : ∀ report ∈ tableReports seen files, report.kind = .nonReserved →
      report.overridden.length = 0 := by
    intro report hreport hkind
    rw [overridden_eq_nil_of_mem_tableReports seen files hreport hkind, List.length_nil]
  rw [List.length_flatMap, ← sum_map_filter_of_eq_zero hwords, sum_map_filter_eq_sum_classes]
  simp only [← List.length_flatMap, overridden_tableReports]

/-! ### The numbers of an assembly -/

theorem length_eraseDups (names : List String) : names.eraseDups.length = names.toFinset.card := by
  have hsame : names.eraseDups.toFinset = names.toFinset := by
    ext name
    rw [List.mem_toFinset, List.mem_toFinset, List.mem_eraseDups]
  rw [← hsame, List.toFinset_card_of_nodup (nodup_eraseDups names)]

/-- What the reports add up to follows from what they are, and the size of the grammar from what it
was merged from. -/
theorem Assembly.tallies_of_reports {a : Assembly} {fragments : List (Path × List Production)}
    {tables : List TableFile} (hfragments : a.fragments = fragmentReports ∅ fragments)
    (htables : a.tables = tableReports (fun _ => ∅) tables)
    (hgrammar : a.grammar.Overrides (fragments.flatMap (·.2)) a.lexicon.nonReserved) :
    a.Tallies fragments tables := by
  have hoverridden := overridden_fragmentReports ∅ fragments
  have hsum := sum_productions_fragmentReports ∅ fragments
  have hdistinct :=
    length_repeats_empty_add_card ((fragments.flatMap (·.2)).map Production.name)
  rw [List.length_map] at hdistinct
  refine ⟨hfragments, htables, ?_, ?_, ?_, ?_⟩
  · intro name
    rw [hfragments, hoverridden, count_repeats, if_neg (Finset.notMem_empty name)]
  · intro c name
    rw [htables, overridden_tableReports, count_repeats, if_neg (Finset.notMem_empty name)]
  · have hclass : ∀ c, (tables.flatMap (·.assigned c)).length =
        (repeats ∅ ((tables.flatMap (·.assigned c)).map TokenDef.name)).length +
          ((tables.flatMap (·.assigned c)).map TokenDef.name).toFinset.card := by
      intro c
      rw [length_repeats_empty_add_card, List.length_map]
    rw [overrides, hfragments, htables, hoverridden, hsum, length_overridden_tableReports,
      sum_map_filter_eq_sum_classes, ← hdistinct]
    simp only [sum_entries_tableReports, hclass, List.sum_map_add]
    omega
  · have hsize : a.grammar.size = a.grammar.names.length := by
      rw [Grammar.names, List.length_map]
      rfl
    rw [hsize, hgrammar.names_eq, hfragments, hoverridden, hsum, List.length_append,
      length_eraseDups, ← hdistinct]
    -- the production for the listed words is new unless it is not added or overrides another one
    have hadded : (nonReservedProduction a.lexicon.nonReserved).isSome ↔
        ¬a.lexicon.nonReserved.toList = [] := by
      rw [Option.isSome_iff_ne_none, ne_eq, nonReservedProduction_eq_none_iff]
    simp only [hadded, ← not_or, ite_not]
    split
    next => rw [List.length_nil]; omega
    next => rw [List.length_singleton]; omega

theorem Assembly.Gathers.exists_fragmentReports {t : FileTree} {options : Options}
    {layers : List (Path × Listing)} {gathered : Assembly}
    (h : Gathers t options layers .empty gathered) :
    ∃ fragments : List (Path × List Production),
      fragments.map Prod.fst = fragmentsOf layers ∧
        (∀ file ∈ fragments, productionsOfFile t file.1 = .ok file.2) ∧
        gathered.fragments = fragmentReports ∅ fragments ∧
        gathered.grammar = (Grammar.empty.insertAll (fragments.flatMap (·.2))).2 := by
  obtain ⟨hfragments, -⟩ := h
  exact hfragments.exists_fragmentReports Grammar.wellIndexed_empty

theorem Assembly.Gathers.tables_eq {t : FileTree} {options : Options}
    {layers : List (Path × Listing)} {gathered : Assembly}
    (h : Gathers t options layers .empty gathered) :
    gathered.tables = tableReports (fun _ => ∅) (tableFilesOf t options layers) := by
  obtain ⟨reports, hreports, hloads⟩ := h.loads_tableFilesOf
  obtain rfl : gathered.tables = reports := hreports
  have hempty : ∀ c, Lexicon.empty.table c = .empty := fun c => by cases c <;> rfl
  have hindexed : ∀ c, (Lexicon.empty.table c).WellIndexed :=
    fun c => hempty c ▸ TokenTable.wellIndexed_empty
  have hnames : (fun c => (Lexicon.empty.table c).names.toFinset) = fun _ => ∅ := by
    funext c
    rw [hempty c]
    rfl
  rw [TableFile.reports_eq_of_loads hindexed hloads, hnames]

/-- All reports and numbers of an assembly are told by the files on the way to the dialect. -/
theorem assemble_tallies {t : FileTree} {options : Options} {root dialect : Path} {a : Assembly}
    (h : assemble t options root dialect = .ok a) :
    ∃ names layers, ∃ fragments : List (Path × List Production),
      route t root dialect = .ok names ∧ Layers t options.extension root names layers ∧
        fragments.map Prod.fst = fragmentsOf layers ∧
        (∀ file ∈ fragments, productionsOfFile t file.1 = .ok file.2) ∧
        a.Tallies fragments (tableFilesOf t options layers) := by
  obtain ⟨names, layers, gathered, hroute, hlayers, hgathers, rfl⟩ := assemble_eq_ok_iff.mp h
  obtain ⟨fragments, hpaths, hfragments, hreports, hgrammar⟩ := hgathers.exists_fragmentReports
  have hoverrides := Assembly.overrides_addNonReserved hgrammar
  refine ⟨names, layers, fragments, hroute, hlayers, hpaths, hfragments, ?_⟩
  apply Assembly.tallies_of_reports _ _ hoverrides
  · rw [addNonReserved_eq, hreports]
  · rw [addNonReserved_eq, hgathers.tables_eq]

/-- Reading the sample, the lower fragment overrides `B`, and the lower table `A`. -/
theorem assemble_tallies_sample :
    ∃ a, assemble sampleTree ⟨"ftl", none⟩ ⟨"/g"⟩ ⟨"/g/d"⟩ = .ok a ∧
      a.fragments.map (·.overridden) = [[], ["B"]] ∧
      a.tables.map (·.overridden) = [[], [], ["A"]] ∧ a.overrides = 2 := by
  obtain ⟨a, ha⟩ := sampleTree_assembles
  obtain ⟨names, layers, fragments, hroute, hlayers, hpaths, hfiles, htallies⟩ :=
    assemble_tallies ha
  have hnames : names = ["d"] := (Except.ok.inj hroute).symm
  subst hnames
  obtain rfl := sampleTree_layers.unique hlayers
  have hfragments : a.fragments.map (·.overridden) = [[], ["B"]] := by
    -- the files that were read are the two fragments
    obtain ⟨⟨path, ps⟩, _, rfl, hpath, hpaths⟩ := List.map_eq_cons_iff.mp hpaths
    obtain ⟨⟨below, qs⟩, _, rfl, hbelow, hpaths⟩ := List.map_eq_cons_iff.mp hpaths
    obtain rfl := List.map_eq_nil_iff.mp hpaths
    subst hpath hbelow
    rw [List.forall_mem_cons, List.forall_mem_singleton] at hfiles
    obtain ⟨hps, hqs⟩ := hfiles
    obtain rfl := Except.ok.inj (hps.symm.trans sampleTree_productionsOfFile)
    obtain rfl := Except.ok.inj (hqs.symm.trans sampleTree_productionsOfFile_below)
    rw [htallies.fragments_eq]
    decide
  have htables : a.tables.map (·.overridden) = [[], [], ["A"]] := by
    obtain ⟨hkeywords, hwords, hbelow⟩ := sampleTree_readText_tables
    rw [htallies.tables_eq]
    simp only [tableFilesOf, tablesOf, sampleListing, sampleListingBelow, List.flatMap_cons,
      List.flatMap_nil, List.append_nil, List.cons_append, List.nil_append, List.map_cons,
      List.map_nil, tableReports, TableFile.report, TableFile.assigned, TableFile.content,
      readTextAs, hkeywords, hwords, hbelow]
    decide
  refine ⟨a, ha, hfragments, htables, ?_⟩
  rw [Assembly.overrides, List.flatMap_def, List.flatMap_def, hfragments, htables]
  rfl

end GrammarLayers
