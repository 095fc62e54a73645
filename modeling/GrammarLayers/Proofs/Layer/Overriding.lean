import GrammarLayers.Proofs.Fragment.Capture
import GrammarLayers.Proofs.Layer.FragmentOrder
import GrammarLayers.Proofs.Layer.Loading
import GrammarLayers.Proofs.Merge.Index
import GrammarLayers.Proofs.Tree.Looking

/-!
# Later productions override earlier ones

The productions of all fragments on the way to a dialect form one sequence: directory by directory
from the root down, in each directory by the names of the files, and in each file as they stand in
its text. In the merged grammar a name stands where this sequence has it first, and stands for the
production that the sequence has last. Only the production that accepts the listed words is not
taken from there.

## Main definitions

* `ProductionsIn` — the productions of files in order
* `Grammar.Overrides` — later productions override earlier ones

## Main results

* `productionsOfFile_eq_ok_iff`, `productionsOfFile_pairwise` — the productions of a file
* `Assembly.Gathers.exists_productionsIn` — what the fragments of directories make of a grammar
* `assemble_overrides` — what grammar is assembled
-/

namespace GrammarLayers

/-- The productions of files, file by file. -/
inductive ProductionsIn (t : FileTree) : List Path → List Production → Prop
  | nil : ProductionsIn t [] []
  | cons {path : Path} {paths : List Path} {file ps : List Production} :
    productionsOfFile t path = .ok file → ProductionsIn t paths ps →
      ProductionsIn t (path :: paths) (file ++ ps)

/-- Names stand where the productions have them first, and for the production that has them last.
Where words are listed, the production that accepts them stands for its name instead; where there
is no other production of this name, it comes last. -/
structure Grammar.Overrides (g : Grammar) (ps : List Production) (words : WordList) : Prop where
  names_eq : g.names = (ps.map Production.name).eraseDups ++
    if words.toList = [] ∨ nonReservedName ∈ ps.map Production.name then []
    else [nonReservedName]
  get?_eq : ∀ name, name ≠ nonReservedName → g.get? name = ps.findRev? (·.name = name)
  get?_nonReservedName : g.get? nonReservedName =
    (nonReservedProduction words).or (ps.findRev? (·.name = nonReservedName))
  generated_iff : (∃ p, nonReservedProduction words = some p ∧
    g.get? nonReservedName = some p) ↔ words.toList ≠ []
  mem_toList_iff : ∀ p, p ∈ g.toList ↔ g.get? p.name = some p

/-! ### Productions of files -/

variable {t : FileTree}

theorem ProductionsIn.exists_of_append {paths others : List Path} {ps : List Production}
    (h : ProductionsIn t (paths ++ others) ps) :
    ∃ qs rs, ps = qs ++ rs ∧ ProductionsIn t paths qs ∧ ProductionsIn t others rs := by
  induction paths generalizing ps with
  | nil => exact ⟨[], ps, rfl, .nil, h⟩
  | cons path paths ih =>
    cases h with
    | cons hfile h =>
      obtain ⟨qs, rs, rfl, hqs, hrs⟩ := ih h
      exact ⟨_, rs, (List.append_assoc _ qs rs).symm, .cons hfile hqs, hrs⟩

theorem ProductionsIn.exists_of_mem {paths : List Path} {ps : List Production} {path : Path}
    (h : ProductionsIn t paths ps) (hpath : path ∈ paths) :
    ∃ file, productionsOfFile t path = .ok file := by
  induction h with
  | nil => cases hpath
  | cons hfile _ ih =>
    rcases List.mem_cons.mp hpath with rfl | hpath
    · exact ⟨_, hfile⟩
    · exact ih hpath

theorem ProductionsIn.exists_file_of_mem {paths : List Path} {ps : List Production}
    {p : Production} (h : ProductionsIn t paths ps) (hp : p ∈ ps) :
    ∃ path ∈ paths, ∃ file, productionsOfFile t path = .ok file ∧ p ∈ file := by
  induction h with
  | nil => cases hp
  | @cons path paths file ps hfile _ ih =>
    rcases List.mem_append.mp hp with hp | hp
    · exact ⟨path, List.mem_cons_self, file, hfile, hp⟩
    · obtain ⟨path', hpath', found⟩ := ih hp
      exact ⟨path', List.mem_cons_of_mem _ hpath', found⟩

theorem ProductionsIn.unique {paths : List Path} {ps qs : List Production}
    (h : ProductionsIn t paths ps) (h' : ProductionsIn t paths qs) : ps = qs := by
  induction h generalizing qs with
  | nil =>
    cases h'
    rfl
  | cons hfile _ ih =>
    cases h' with
    | cons hfile' h' =>
      obtain rfl := Except.ok.inj (hfile.symm.trans hfile')
      rw [ih h']

theorem mapError_eq_ok_iff {ε ε' α : Type} {f : ε → ε'} {x : Except ε α} {a : α} :
    x.mapError f = .ok a ↔ x = .ok a := by
  cases x with
  | error cause => exact iff_of_false (by rintro ⟨⟩) (by rintro ⟨⟩)
  | ok b => rw [Except.mapError, Except.ok.injEq, Except.ok.injEq]

theorem mapError_eq_error_iff {ε ε' α : Type} {f : ε → ε'} {x : Except ε α} {failure : ε'} :
    x.mapError f = .error failure ↔ ∃ cause, x = .error cause ∧ failure = f cause := by
  cases x with
  | error cause => simp [Except.mapError, eq_comm]
  | ok a => simp [Except.mapError]

/-- The productions of a file are those of its text, with the file as their origin. -/
theorem productionsOfFile_eq_ok_iff {path : Path} {ps : List Production} :
    productionsOfFile t path = .ok ps ↔
      ∃ text read, t.readText path = .ok text ∧ Production.readAll text.toList = .ok read ∧
        ps = read.map fun p => { p with origin := some path } := by
  constructor
  · intro h
    obtain ⟨text, htext, h⟩ := exists_of_bind_eq_ok h
    obtain ⟨read, hread, h⟩ := exists_of_bind_eq_ok h
    exact ⟨text, read, mapError_eq_ok_iff.mp htext, mapError_eq_ok_iff.mp hread,
      (Except.ok.inj h).symm⟩
  · rintro ⟨text, read, htext, hread, rfl⟩
    rw [productionsOfFile, readTextAs, htext]
    change (Production.readAll text.toList).mapError (Failure.inFile path) >>= _ = _
    rw [hread]
    rfl

/-- The productions of a file follow one another in its text, and the file is their origin. -/
theorem productionsOfFile_pairwise {path : Path} {ps : List Production}
    (h : productionsOfFile t path = .ok ps) :
    (ps.Pairwise fun p q => p.span.stop ≤ q.span.start) ∧ ∀ p ∈ ps, p.origin = some path := by
  obtain ⟨text, read, -, hread, rfl⟩ := productionsOfFile_eq_ok_iff.mp h
  constructor
  · rw [List.pairwise_map]
    exact (Production.covers_of_readAll hread).pairwise
  · intro p hp
    obtain ⟨q, -, rfl⟩ := List.mem_map.mp hp
    rfl

/-- Loading fragments merges their productions in order. -/
theorem Loads.exists_productionsIn {paths : List Path} {g g' : Grammar}
    {reports : List FragmentReport}
    (h : Loads g (paths.map (Grammar.load t)) reports g') :
    ∃ ps, ProductionsIn t paths ps ∧ g' = (g.insertAll ps).2 := by
  induction paths generalizing g reports with
  | nil =>
    cases h
    exact ⟨[], .nil, rfl⟩
  | cons path paths ih =>
    cases h with
    | cons hload h =>
      rw [Grammar.run_load] at hload
      split at hload
      next file hfile =>
        obtain ⟨⟩ := hload
        obtain ⟨ps, hps, rfl⟩ := ih h
        refine ⟨file ++ ps, .cons hfile hps, ?_⟩
        rw [Grammar.insertAll_append]
      next => cases hload

theorem Assembly.Gathers.exists_productionsIn {options : Options}
    {layers : List (Path × Listing)} {a a' : Assembly} (h : Gathers t options layers a a') :
    ∃ ps, ProductionsIn t (fragmentsOf layers) ps ∧
      a'.grammar = (a.grammar.insertAll ps).2 := by
  obtain ⟨hfragments, -⟩ := h
  exact hfragments.exists_productionsIn

/-! ### The production for listed words -/

theorem nonReservedProduction_eq_none_iff {words : WordList} :
    nonReservedProduction words = none ↔ words.toList = [] := by
  rw [nonReservedProduction, Option.map_eq_none_iff, nonReservedText, ite_eq_left_iff]
  simp [WordList.isEmpty, WordList.toList]

theorem map_name_nonReservedProduction (words : WordList) :
    (nonReservedProduction words).toList.map Production.name =
      if words.toList = [] then [] else [nonReservedName] := by
  cases hwords : nonReservedProduction words with
  | none =>
    have hempty := nonReservedProduction_eq_none_iff.mp hwords
    rw [if_pos hempty, Option.toList_none, List.map_nil]
  | some p =>
    have hnonempty : words.toList ≠ [] := by
      rw [ne_eq, ← nonReservedProduction_eq_none_iff, hwords]
      exact Option.some_ne_none p
    obtain ⟨text, -, rfl⟩ := Option.map_eq_some_iff.mp hwords
    rw [if_neg hnonempty, Option.toList_some, List.map_singleton]

theorem findRev?_nonReservedProduction (words : WordList) (name : String) :
    (nonReservedProduction words).toList.findRev? (·.name = name) =
      if name = nonReservedName then nonReservedProduction words else none := by
  cases hwords : nonReservedProduction words with
  | none =>
    rw [ite_self]
    rfl
  | some p =>
    obtain ⟨text, -, rfl⟩ := Option.map_eq_some_iff.mp hwords
    rw [Option.toList_some, ← List.nil_append [_], findRev?_concat]
    simp only [decide_eq_true_eq, eq_comm (b := name)]
    rfl

/-- Adding the production for the listed words merges it after all others, and changes nothing
else. -/
theorem addNonReserved_eq (a : Assembly) :
    a.addNonReserved =
      { a with grammar :=
          (a.grammar.insertAll (nonReservedProduction a.lexicon.nonReserved).toList).2 } := by
  unfold Assembly.addNonReserved
  cases nonReservedProduction a.lexicon.nonReserved with
  | none => rfl
  | some p => rfl

/-! ### The assembled grammar -/

theorem Grammar.overrides_insertAll (ps : List Production) (words : WordList) :
    (Grammar.empty.insertAll (ps ++ (nonReservedProduction words).toList)).2.Overrides ps
      words := by
  have hindexed := (Grammar.wellIndexed_empty.insertAll
    (ps ++ (nonReservedProduction words).toList)).1
  have hget : ∀ name, (Grammar.empty.insertAll
      (ps ++ (nonReservedProduction words).toList)).2.get? name =
        (if name = nonReservedName then nonReservedProduction words else none).or
          (ps.findRev? (·.name = name)) := by
    intro name
    rw [Grammar.get?_insertAll_empty, findRev?_append, findRev?_nonReservedProduction]
  refine ⟨?_, ?_, ?_, ?_, ?_⟩
  · rw [Grammar.names_insertAll_empty, List.map_append, map_name_nonReservedProduction]
    by_cases hwords : words.toList = []
    · rw [if_pos hwords, if_pos (.inl hwords), List.append_nil, List.append_nil]
    · rw [if_neg hwords, eraseDups_concat]
      -- the name of the production for the words may have come up before
      by_cases hmem : nonReservedName ∈ ps.map Production.name
      · rw [if_pos hmem, if_pos (.inr hmem), List.append_nil]
      · rw [if_neg hmem, if_neg (not_or.mpr ⟨hwords, hmem⟩)]
  · intro name hne
    rw [hget, if_neg hne, Option.none_or]
  · rw [hget, if_pos rfl]
  · rw [hget, if_pos rfl, ne_eq, ← nonReservedProduction_eq_none_iff]
    cases nonReservedProduction words with
    | none => simp
    | some p => simp
  · intro p
    exact hindexed.mem_toList_iff

/-- What grammar an assembly has in the end, when these productions make up what was gathered. -/
theorem Assembly.overrides_addNonReserved {gathered : Assembly} {ps : List Production}
    (hgrammar : gathered.grammar = (Grammar.empty.insertAll ps).2) :
    gathered.addNonReserved.grammar.Overrides ps
      gathered.addNonReserved.lexicon.nonReserved := by
  rw [addNonReserved_eq, hgrammar, ← Grammar.insertAll_append]
  exact Grammar.overrides_insertAll ps _

theorem Layers.listsFragments {extension : String} {directory : Path} {names : List String}
    {layers : List (Path × Listing)} (h : Layers t extension directory names layers) :
    ∀ layer ∈ layers, Listing.ListsFragments t extension layer.1 layer.2.fragments := by
  induction h with
  | last hlisted =>
    intro layer hlayer
    obtain rfl := List.mem_singleton.mp hlayer
    exact Listing.listsFragments_of_ofDirectory hlisted
  | down hlisted _ _ ih =>
    intro layer hlayer
    rcases List.mem_cons.mp hlayer with rfl | hlayer
    · exact Listing.listsFragments_of_ofDirectory hlisted
    · exact ih layer hlayer

/-- In an assembled grammar, names come in the order of their first productions and stand for their
last ones, the directories from the root down to the dialect taken one after another, the fragments
of each in the order of the bytes of their names, and the productions of each file in the order of
its text. A production of a lower directory thus wins over those of all upper ones. -/
theorem assemble_overrides {options : Options} {root dialect : Path} {a : Assembly}
    (h : assemble t options root dialect = .ok a) :
    ∃ names layers ps, route t root dialect = .ok names ∧
      Layers t options.extension root names layers ∧
      (∀ layer ∈ layers,
        Listing.ListsFragments t options.extension layer.1 layer.2.fragments) ∧
      ProductionsIn t (fragmentsOf layers) ps ∧
      (∀ path file, productionsOfFile t path = .ok file →
        (file.Pairwise fun p q => p.span.stop ≤ q.span.start) ∧
          ∀ p ∈ file, p.origin = some path) ∧
      a.grammar.Overrides ps a.lexicon.nonReserved ∧
      ∀ upper lower below, layers = upper ++ lower → ProductionsIn t (fragmentsOf lower) below →
        ∀ name ∈ below.map Production.name, name ≠ nonReservedName →
          a.grammar.get? name = below.findRev? (·.name = name) := by
  obtain ⟨names, layers, gathered, hroute, hlayers, hgathers, rfl⟩ := assemble_eq_ok_iff.mp h
  obtain ⟨ps, hps, hgrammar⟩ := hgathers.exists_productionsIn
  have hoverrides := Assembly.overrides_addNonReserved hgrammar
  refine ⟨names, layers, ps, hroute, hlayers, hlayers.listsFragments, hps, ?_, hoverrides, ?_⟩
  · intro path file hfile
    exact productionsOfFile_pairwise hfile
  · rintro upper lower below rfl hbelow name hname hne
    rw [fragmentsOf_append] at hps
    obtain ⟨above, below', rfl, -, hbelow'⟩ := hps.exists_of_append
    obtain rfl := hbelow.unique hbelow'
    rw [hoverrides.get?_eq name hne, findRev?_append]
    -- what is above is looked at only for names that are not below
    cases hfind : below.findRev? (·.name = name) with
    | none => exact absurd hname ((findRev?_name_eq_none_iff Production.name).mp hfind)
    | some p => rfl

/-! ### A grammar of two directories -/

/-- What the lower directory holds: the production `B` of the upper one defined anew, and a keyword
of it as well. -/
def sampleBelow : Directory :=
  [("b.ftl", .ofText "T B():\x7bx\x7d\x7b\x7dT C():\x7b\x7d\x7b\x7d"),
    ("keywords.txt", .ofText "c: 3\nA : 4")]

/-- What the upper directory holds. -/
def sampleDirectory : Directory :=
  [("a.ftl", .ofText "T A():\x7b\x7d\x7b\x7dT B():\x7b\x7d\x7b\x7d"), ("d", .directory sampleBelow),
    ("keywords.txt", .ofText "a: 1\nb: 2"), ("nonReservedKeywords.txt", .ofText "c\n\u00df")]

/-- A grammar of two directories, the upper one with a list of words. -/
def sampleTree : FileTree where
  top := [("g", .directory sampleDirectory)]
  workingDirectory := []

/-- What the upper directory lists. -/
def sampleListing : Listing where
  fragments := [⟨"/g/a.ftl"⟩]
  tables :=
    [(.assignments .keyword, ⟨"/g/keywords.txt"⟩), (.nonReserved, ⟨"/g/nonReservedKeywords.txt"⟩)]
  directories := [⟨"/g/d"⟩]

/-- What the lower directory lists. -/
def sampleListingBelow : Listing where
  fragments := [⟨"/g/d/b.ftl"⟩]
  tables := [(.assignments .keyword, ⟨"/g/d/keywords.txt"⟩)]

theorem sampleTree_ofDirectory :
    Listing.ofDirectory sampleTree "ftl" ⟨"/g"⟩ = .ok sampleListing := by
  have hsteps : (⟨"/g"⟩ : Path).allSteps = ["g"].map .down := by decide
  have hstat : sampleTree.stat ⟨"/g"⟩ = .ok (["g"], .directory sampleDirectory) :=
    FileTree.stat_of_at? rfl rfl hsteps rfl (fun target => Entry.noConfusion) (by decide)
  rw [Listing.ofDirectory_of_stat hstat (by decide)]
  rfl

theorem sampleTree_ofDirectory_below :
    Listing.ofDirectory sampleTree "ftl" ⟨"/g/d"⟩ = .ok sampleListingBelow := by
  have hsteps : (⟨"/g/d"⟩ : Path).allSteps = ["g", "d"].map .down := by decide
  have hstat : sampleTree.stat ⟨"/g/d"⟩ = .ok (["g", "d"], .directory sampleBelow) :=
    FileTree.stat_of_at? rfl rfl hsteps rfl (fun target => Entry.noConfusion) (by decide)
  rw [Listing.ofDirectory_of_stat hstat (by decide)]
  rfl

theorem sampleTree_layers :
    Layers sampleTree "ftl" ⟨"/g"⟩ ["d"]
      [(⟨"/g"⟩, sampleListing), (⟨"/g/d"⟩, sampleListingBelow)] := by
  have hchild : sampleListing.directory? "d" = some ⟨"/g/d"⟩ := by decide
  exact .down sampleTree_ofDirectory hchild (.last sampleTree_ofDirectory_below)

/-- The productions of the upper fragment. -/
def sampleProductions : List Production :=
  [⟨"A", "T", "T A():\x7b\x7d\x7b\x7d", ⟨0, 10⟩, some ⟨"/g/a.ftl"⟩⟩,
    ⟨"B", "T", "T B():\x7b\x7d\x7b\x7d", ⟨10, 20⟩, some ⟨"/g/a.ftl"⟩⟩]

/-- The productions of the lower fragment. -/
def sampleProductionsBelow : List Production :=
  [⟨"B", "T", "T B():\x7bx\x7d\x7b\x7d", ⟨0, 11⟩, some ⟨"/g/d/b.ftl"⟩⟩,
    ⟨"C", "T", "T C():\x7b\x7d\x7b\x7d", ⟨11, 21⟩, some ⟨"/g/d/b.ftl"⟩⟩]

theorem sampleTree_productionsOfFile :
    productionsOfFile sampleTree ⟨"/g/a.ftl"⟩ = .ok sampleProductions := by
  have hsteps : (⟨"/g/a.ftl"⟩ : Path).allSteps = ["g", "a.ftl"].map .down := by decide
  have htext := FileTree.readText_of_at? (t := sampleTree) rfl rfl hsteps rfl (by decide)
  have hread : Production.readAll "T A():\x7b\x7d\x7b\x7dT B():\x7b\x7d\x7b\x7d".toList =
      .ok [⟨"A", "T", "T A():\x7b\x7d\x7b\x7d", ⟨0, 10⟩, none⟩,
        ⟨"B", "T", "T B():\x7b\x7d\x7b\x7d", ⟨10, 20⟩, none⟩] := by
    decide +kernel
  exact productionsOfFile_eq_ok_iff.mpr ⟨_, _, htext, hread, rfl⟩

theorem sampleTree_productionsOfFile_below :
    productionsOfFile sampleTree ⟨"/g/d/b.ftl"⟩ = .ok sampleProductionsBelow := by
  have hsteps : (⟨"/g/d/b.ftl"⟩ : Path).allSteps = ["g", "d", "b.ftl"].map .down := by
    decide
  have htext := FileTree.readText_of_at? (t := sampleTree) rfl rfl hsteps rfl (by decide)
  have hread : Production.readAll "T B():\x7bx\x7d\x7b\x7dT C():\x7b\x7d\x7b\x7d".toList =
      .ok [⟨"B", "T", "T B():\x7bx\x7d\x7b\x7d", ⟨0, 11⟩, none⟩,
        ⟨"C", "T", "T C():\x7b\x7d\x7b\x7d", ⟨11, 21⟩, none⟩] := by
    decide +kernel
  exact productionsOfFile_eq_ok_iff.mpr ⟨_, _, htext, hread, rfl⟩

theorem sampleTree_productionsIn :
    ProductionsIn sampleTree [⟨"/g/a.ftl"⟩, ⟨"/g/d/b.ftl"⟩]
      (sampleProductions ++ sampleProductionsBelow) :=
  .cons sampleTree_productionsOfFile (.cons sampleTree_productionsOfFile_below .nil)

theorem sampleTree_readText_tables :
    sampleTree.readText ⟨"/g/keywords.txt"⟩ = .ok "a: 1\nb: 2" ∧
      sampleTree.readText ⟨"/g/nonReservedKeywords.txt"⟩ = .ok "c\n\u00df" ∧
      sampleTree.readText ⟨"/g/d/keywords.txt"⟩ = .ok "c: 3\nA : 4" := by
  have hkeywords : (⟨"/g/keywords.txt"⟩ : Path).allSteps = ["g", "keywords.txt"].map .down := by
    decide
  have hwords : (⟨"/g/nonReservedKeywords.txt"⟩ : Path).allSteps =
      ["g", "nonReservedKeywords.txt"].map .down := by
    decide
  have hbelow : (⟨"/g/d/keywords.txt"⟩ : Path).allSteps =
      ["g", "d", "keywords.txt"].map .down := by
    decide
  refine ⟨?_, ?_, ?_⟩
  · exact FileTree.readText_of_at? rfl rfl hkeywords rfl (by decide)
  · exact FileTree.readText_of_at? rfl rfl hwords rfl (by decide)
  · exact FileTree.readText_of_at? rfl rfl hbelow rfl (by decide)

/-- Every file of the sample can be loaded. -/
theorem sampleTree_gathers {layers : List (Path × Listing)}
    (hlayers : layers ⊆ [(⟨"/g"⟩, sampleListing), (⟨"/g/d"⟩, sampleListingBelow)]) :
    ∃ gathered, Assembly.Gathers sampleTree ⟨"ftl", none⟩ layers .empty gathered := by
  obtain ⟨hkeywords, hwords, hbelow⟩ := sampleTree_readText_tables
  apply Assembly.exists_gathers
  · intro path hpath
    apply sampleTree_productionsIn.exists_of_mem
    obtain ⟨layer, hlayer, hpath⟩ := List.mem_flatMap.mp hpath
    rcases List.mem_pair.mp (hlayers hlayer) with rfl | rfl
    · obtain rfl := List.mem_singleton.mp hpath
      exact List.mem_cons_self
    · exact List.mem_cons_of_mem _ hpath
  · intro file hfile
    obtain ⟨layer, hlayer, hfile⟩ := List.mem_flatMap.mp hfile
    rcases List.mem_pair.mp (hlayers hlayer) with rfl | rfl
    · rcases List.mem_pair.mp hfile with rfl | rfl
      · refine ⟨_, by rw [readTextAs, hkeywords]; rfl, ?_⟩
        rintro c ⟨⟩
        exact ⟨_, rfl⟩
      · refine ⟨_, by rw [readTextAs, hwords]; rfl, ?_⟩
        rintro c ⟨⟩
    · obtain rfl := List.mem_singleton.mp hfile
      refine ⟨_, by rw [readTextAs, hbelow]; rfl, ?_⟩
      rintro c ⟨⟩
      exact ⟨_, rfl⟩

theorem sampleTree_assembles :
    ∃ a, assemble sampleTree ⟨"ftl", none⟩ ⟨"/g"⟩ ⟨"/g/d"⟩ = .ok a := by
  have hroute : route sampleTree ⟨"/g"⟩ ⟨"/g/d"⟩ = .ok ["d"] := by rfl
  obtain ⟨gathered, hgathers⟩ := sampleTree_gathers (List.Subset.refl _)
  exact ⟨_, assemble_eq_ok_iff.mpr ⟨_, _, _, hroute, sampleTree_layers, hgathers, rfl⟩⟩

/-- The production `B` of the lower directory stands where the upper one has it first. -/
theorem assemble_overrides_sample :
    ∃ a, assemble sampleTree ⟨"ftl", none⟩ ⟨"/g"⟩ ⟨"/g/d"⟩ = .ok a ∧
      ["A", "B", "C"] <+: a.grammar.names ∧
      a.grammar.get? "B" =
        some ⟨"B", "T", "T B():\x7bx\x7d\x7b\x7d", ⟨0, 11⟩, some ⟨"/g/d/b.ftl"⟩⟩ := by
  obtain ⟨a, ha⟩ := sampleTree_assembles
  obtain ⟨names, layers, ps, hroute, hlayers, -, hps, -, hoverrides, -⟩ := assemble_overrides ha
  have hnames : names = ["d"] := (Except.ok.inj hroute).symm
  subst hnames
  obtain rfl := sampleTree_layers.unique hlayers
  obtain rfl := sampleTree_productionsIn.unique hps
  refine ⟨a, ha, ?_, ?_⟩
  · rw [hoverrides.names_eq]
    exact List.prefix_append _ _
  · rw [hoverrides.get?_eq "B" (by decide)]
    decide

end GrammarLayers
