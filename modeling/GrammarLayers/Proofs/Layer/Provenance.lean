import GrammarLayers.Proofs.Layer.Counting

/-!
# Where merged items come from

Each production in an assembled grammar, each token in its tables and each listed word names the
file that it comes from, and is just what this file has. A production is the last one of its name in
its fragment, and its text stands in the fragment at its span; a token is the last entry of its name
in its table; and a word comes from the first list that has it. Only the production for the listed
words is in no file.

## Main definitions

* `Production.IsLastIn`, `TokenDef.IsLastIn` — what a file has last of a name
* `ListsWord` — a file lists a word
* `Assembly.HasProvenance` — everything is what the file it names has

## Main results

* `Production.isLastIn_of_findRev?` — the last production of a file
* `TableFile.isLastIn_of_findRev?`, `TableFile.listsWord_iff` — what table files have
* `assemble_hasProvenance` — everything in an assembly is what the file it names has
-/

namespace GrammarLayers

/-- A production is the last one of its name in a fragment, which is its origin, and its text is
what stands in the fragment at its span. -/
structure Production.IsLastIn (t : FileTree) (path : Path) (p : Production) : Prop where
  origin_eq : p.origin = some path
  holds : ∃ text, t.readText path = .ok text ∧ p.span.Holds text.toList p.text.toList
  last : ∃ ps, productionsOfFile t path = .ok ps ∧ ps.findRev? (·.name = p.name) = some p

/-- A token is the last entry of its name in a table file after its license header, and this file is
its origin. -/
structure TokenDef.IsLastIn (t : FileTree) (license : Option (List Char)) (path : Path)
    (token : TokenDef) : Prop where
  origin_eq : token.origin = some path
  last : ∃ text content entries, t.readText path = .ok text ∧
    text.toList = headerOf license text.toList ++ content ∧
    readAssignments content = .ok entries ∧
    entries.findRev? (·.name = token.name) = some ⟨token.name, token.value⟩

/-- A file lists a word after its license header. -/
def ListsWord (t : FileTree) (license : Option (List Char)) (path : Path) (word : String) : Prop :=
  ∃ text content, t.readText path = .ok text ∧
    text.toList = headerOf license text.toList ++ content ∧ word ∈ readWords content

/-- Each production but the one for the listed words is the last of its name in a fragment that was
read, each token is the last of its name in a table of its class that was read, and each word names
the first list that has it. -/
structure Assembly.HasProvenance (t : FileTree) (options : Options) (a : Assembly) : Prop where
  productions : ∀ p ∈ a.grammar.toList, nonReservedProduction a.lexicon.nonReserved ≠ some p →
    ∃ report ∈ a.fragments, p.IsLastIn t report.path
  tokens : ∀ c, ∀ token ∈ (a.lexicon.table c).toList, ∃ report ∈ a.tables,
    report.kind = .assignments c ∧ token.IsLastIn t options.license report.path
  words : ∀ word ∈ a.lexicon.nonReserved.toList, ∃ before path after,
    (a.tables.filter (·.kind = .nonReserved)).map (·.path) = before ++ path :: after ∧
      word = ⟨word.name, word.name, some path⟩ ∧ ListsWord t options.license path word.name ∧
      ∀ earlier ∈ before, ¬ListsWord t options.license earlier word.name

/-- What is found last in many lists is what is found last in one of them. -/
theorem exists_of_findRev?_flatMap {α β : Type} {items : List α} {f : α → List β} {p : β → Bool}
    {x : β} (h : (items.flatMap f).findRev? p = some x) :
    ∃ i ∈ items, (f i).findRev? p = some x := by
  induction items with
  | nil => cases h
  | cons i items ih =>
    rw [List.flatMap_cons, findRev?_append, Option.or_eq_some_iff] at h
    rcases h with h | ⟨-, h⟩
    · obtain ⟨j, hj, hfound⟩ := ih h
      exact ⟨j, List.mem_cons_of_mem i hj, hfound⟩
    · exact ⟨i, List.mem_cons_self, h⟩

/-! ### Fragments -/

/-- The last production of a name in a file comes from there. -/
theorem Production.isLastIn_of_findRev? {t : FileTree} {path : Path} {ps : List Production}
    (h : productionsOfFile t path = .ok ps) {p : Production}
    (hlast : ps.findRev? (·.name = p.name) = some p) : p.IsLastIn t path := by
  have hp := mem_of_findRev?_eq_some hlast
  refine ⟨(productionsOfFile_pairwise h).2 p hp, ?_, ps, h, hlast⟩
  obtain ⟨text, read, htext, hread, rfl⟩ := productionsOfFile_eq_ok_iff.mp h
  obtain ⟨q, hq, rfl⟩ := List.mem_map.mp hp
  -- the production stands in the text that it has been read from
  obtain ⟨-, sig, -, hcapture⟩ := (covers_of_readAll hread).captures q hq
  have hholds : q.span.Holds text.toList q.text.toList := hcapture.holds
  exact ⟨text, htext, hholds⟩

theorem map_path_fragmentReports (seen : Finset String) (files : List (Path × List Production)) :
    (fragmentReports seen files).map (·.path) = files.map Prod.fst := by
  induction files generalizing seen with
  | nil => rfl
  | cons file files ih => rw [fragmentReports, List.map_cons, List.map_cons, ih]

/-- A production that is not the one for the listed words is what the files have last of its
name. -/
theorem Grammar.Overrides.findRev?_eq_some {g : Grammar} {ps : List Production} {words : WordList}
    (h : g.Overrides ps words) {p : Production} (hp : p ∈ g.toList)
    (hne : nonReservedProduction words ≠ some p) :
    ps.findRev? (·.name = p.name) = some p := by
  have hget := (h.mem_toList_iff p).mp hp
  by_cases hname : p.name = nonReservedName
  · rw [hname, h.get?_nonReservedName, Option.or_eq_some_iff] at hget
    rw [hname]
    exact (hget.resolve_left hne).2
  · rwa [h.get?_eq p.name hname] at hget

/-! ### Tables -/

namespace TableFile

variable {f : TableFile} {c : TokenClass} {token : TokenDef}

theorem map_path_tableReports (kind : TableKind) (seen : TokenClass → Finset String)
    (files : List TableFile) :
    ((tableReports seen files).filter (·.kind = kind)).map (·.path) =
      (files.filter (·.kind = kind)).map (·.path) := by
  have hpath : ∀ seen (f : TableFile), (f.report seen).path = f.path := by
    intro seen f
    unfold TableFile.report
    split
    next => rfl
    next => rfl
  induction files generalizing seen with
  | nil => rfl
  | cons f files ih =>
    rw [tableReports, List.filter_cons, List.filter_cons, kind_report]
    by_cases hkind : f.kind = kind
    · rw [if_pos (decide_eq_true hkind), if_pos (decide_eq_true hkind), List.map_cons,
        List.map_cons, hpath, ih]
    · rw [if_neg (mt of_decide_eq_true hkind), if_neg (mt of_decide_eq_true hkind), ih]

/-- A table file has the text after its license header, or cannot be read and has none. -/
theorem content_cases (f : TableFile) :
    (∃ text, f.tree.readText f.path = .ok text ∧
        text.toList = headerOf f.license text.toList ++ f.content) ∨
      (∀ text, f.tree.readText f.path ≠ .ok text) ∧ f.content = [] := by
  unfold content readTextAs
  cases f.tree.readText f.path with
  | error cause => exact .inr ⟨fun text => by rintro ⟨⟩, rfl⟩
  | ok text => exact .inl ⟨text, rfl, eq_headerOf_append_iff.mpr rfl⟩

/-- The last token of a name that a file assigns comes from there. -/
theorem isLastIn_of_findRev? (h : (f.assigned c).findRev? (·.name = token.name) = some token) :
    f.kind = .assignments c ∧ token.IsLastIn f.tree f.license f.path := by
  unfold assigned at h
  split at h
  next hkind =>
    refine ⟨hkind, ?_⟩
    split at h
    next entries hentries =>
      rw [List.findRev?_eq_find?_reverse, ← List.map_reverse, List.find?_map] at h
      obtain ⟨e, he, rfl⟩ := Option.map_eq_some_iff.mp h
      refine ⟨rfl, ?_⟩
      rcases f.content_cases with ⟨text, htext, hcontent⟩ | ⟨-, hcontent⟩
      · refine ⟨text, f.content, entries, htext, hcontent, hentries, ?_⟩
        rw [List.findRev?_eq_find?_reverse]
        exact he
      -- there is no entry in a file that cannot be read
      · rw [hcontent] at hentries
        obtain rfl := Except.ok.inj hentries
        cases he
    next => cases h
  next => cases h

/-- A list that is read lists the words in it. -/
theorem listsWord_iff (hkind : f.kind = .nonReserved) {word : String} :
    ListsWord f.tree f.license f.path word ↔ word ∈ f.listed.map TokenDef.name := by
  have hnames : f.listed.map TokenDef.name = readWords f.content := by
    rw [listed, if_pos hkind, List.map_map]
    exact List.map_id _
  rw [hnames, ListsWord]
  rcases f.content_cases with ⟨text, htext, hcontent⟩ | ⟨hunreadable, hcontent⟩
  · constructor
    · rintro ⟨text', content, htext', hcontent', hword⟩
      obtain rfl := Except.ok.inj (htext.symm.trans htext')
      obtain rfl := List.append_cancel_left (hcontent.symm.trans hcontent')
      exact hword
    · exact fun hword => ⟨text, f.content, htext, hcontent, hword⟩
  · rw [hcontent]
    refine iff_of_false ?_ List.not_mem_nil
    rintro ⟨text, -, htext, -⟩
    exact hunreadable text htext

theorem eq_of_mem_listed {word : TokenDef} (h : word ∈ f.listed) :
    f.kind = .nonReserved ∧ word = ⟨word.name, word.name, some f.path⟩ := by
  unfold listed at h
  split at h
  next hkind =>
    obtain ⟨_, -, rfl⟩ := List.mem_map.mp h
    exact ⟨hkind, rfl⟩
  next => cases h

/-- A word that is found first in files is what the first list has that lists it. -/
theorem exists_first_of_find?_listed {files : List TableFile} {word : TokenDef}
    (h : (files.flatMap (·.listed)).find? (·.name = word.name) = some word) :
    ∃ before f after, files.filter (·.kind = .nonReserved) = before ++ f :: after ∧
      word = ⟨word.name, word.name, some f.path⟩ ∧
      ListsWord f.tree f.license f.path word.name ∧
      ∀ g ∈ before, ¬ListsWord g.tree g.license g.path word.name := by
  rw [List.find?_flatMap, List.findSome?_eq_some_iff] at h
  obtain ⟨before, f, after, rfl, hfound, hbefore⟩ := h
  have hmem := List.mem_of_find?_eq_some hfound
  obtain ⟨hkind, hword⟩ := eq_of_mem_listed hmem
  refine ⟨before.filter (·.kind = .nonReserved), f, after.filter (·.kind = .nonReserved), ?_, hword,
    (listsWord_iff hkind).mpr (List.mem_map_of_mem hmem), ?_⟩
  · rw [List.filter_append, List.filter_cons, if_pos (decide_eq_true hkind)]
  · intro g hg
    obtain ⟨hg, hkind⟩ := List.mem_filter.mp hg
    rw [listsWord_iff (of_decide_eq_true hkind)]
    exact (find?_name_eq_none_iff TokenDef.name).mp (hbefore g hg)

end TableFile

theorem tree_of_mem_tableFilesOf {t : FileTree} {options : Options}
    {layers : List (Path × Listing)} {f : TableFile} (h : f ∈ tableFilesOf t options layers) :
    f.tree = t ∧ f.license = options.license := by
  obtain ⟨file, -, rfl⟩ := List.mem_map.mp h
  exact ⟨rfl, rfl⟩

/-- Everything in an assembly is what the file it names has. -/
theorem assemble_hasProvenance {t : FileTree} {options : Options} {root dialect : Path}
    {a : Assembly} (h : assemble t options root dialect = .ok a) : a.HasProvenance t options := by
  obtain ⟨names, layers, gathered, hroute, hlayers, hgathers, rfl⟩ := assemble_eq_ok_iff.mp h
  obtain ⟨fragments, hpaths, hfiles, hfragments, hgrammar⟩ := hgathers.exists_fragmentReports
  have hoverrides := Assembly.overrides_addNonReserved hgrammar
  obtain ⟨reports, -, hloads⟩ := hgathers.loads_tableFilesOf
  have hmerges := Lexicon.merges_of_loads hloads
  have htables : ∀ kind, (gathered.tables.filter (·.kind = kind)).map (·.path) =
      ((tableFilesOf t options layers).filter (·.kind = kind)).map (·.path) := by
    intro kind
    rw [hgathers.tables_eq, TableFile.map_path_tableReports]
  refine ⟨?_, ?_, ?_⟩
  -- what is last of a name in all files is last of it in the file that has it
  · intro p hp hne
    obtain ⟨file, hfile, hlast⟩ := exists_of_findRev?_flatMap (hoverrides.findRev?_eq_some hp hne)
    have hpath : file.1 ∈ gathered.addNonReserved.fragments.map (·.path) := by
      rw [addNonReserved_eq, hfragments, map_path_fragmentReports]
      exact List.mem_map_of_mem hfile
    obtain ⟨report, hreport, hpath⟩ := List.mem_map.mp hpath
    refine ⟨report, hreport, ?_⟩
    rw [hpath]
    exact Production.isLastIn_of_findRev? (hfiles file hfile) hlast
  · rw [addNonReserved_eq]
    intro c token htoken
    obtain ⟨f, hf, hlast⟩ := exists_of_findRev?_flatMap ((hmerges.mem_table_iff c token).mp htoken)
    obtain ⟨hkind, hlast⟩ := TableFile.isLastIn_of_findRev? hlast
    obtain ⟨htree, hlicense⟩ := tree_of_mem_tableFilesOf hf
    have hpath : f.path ∈ (gathered.tables.filter (·.kind = .assignments c)).map (·.path) := by
      rw [htables]
      exact List.mem_map_of_mem (List.mem_filter.mpr ⟨hf, decide_eq_true hkind⟩)
    obtain ⟨report, hreport, hpath⟩ := List.mem_map.mp hpath
    obtain ⟨hreport, hkind⟩ := List.mem_filter.mp hreport
    refine ⟨report, hreport, of_decide_eq_true hkind, ?_⟩
    rw [hpath, ← htree, ← hlicense]
    exact hlast
  -- the files before the one that has a word first do not list it
  · rw [addNonReserved_eq]
    intro word hword
    obtain ⟨before, f, after, hsplit, hword, hlists, hbefore⟩ :=
      TableFile.exists_first_of_find?_listed ((hmerges.mem_nonReserved_iff word).mp hword)
    have hsame : ∀ g ∈ before ++ f :: after, g.tree = t ∧ g.license = options.license := by
      rw [← hsplit]
      exact fun g hg => tree_of_mem_tableFilesOf (List.mem_filter.mp hg).1
    obtain ⟨htree, hlicense⟩ := hsame f (by simp)
    rw [htree, hlicense] at hlists
    refine ⟨before.map (·.path), f.path, after.map (·.path), ?_, hword, hlists, ?_⟩
    · rw [htables, hsplit, List.map_append, List.map_cons]
    · intro earlier hearlier
      obtain ⟨g, hg, rfl⟩ := List.mem_map.mp hearlier
      obtain ⟨htree, hlicense⟩ := hsame g (List.mem_append_left _ hg)
      rw [← htree, ← hlicense]
      exact hbefore g hg

/-! ### A grammar with a license header -/

/-- What the lower directory holds: the production `B` of the upper one defined anew, and tables
that start with the license header. -/
def headedBelow : Directory :=
  [("b.ftl", .ofText "T B():\x7bx\x7d\x7b\x7d"),
    ("keywords.txt", .ofText "# Header\nc: 3\nc: 4\n"),
    ("nonReservedKeywords.txt", .ofText "# Header\nb\nc\n")]

/-- What the upper directory holds. -/
def headedDirectory : Directory :=
  [("a.ftl", .ofText "T B():\x7b\x7d\x7b\x7d"), ("d", .directory headedBelow),
    ("dialect.yaml", .ofText "license: header.txt\noutput: out.ftl\n"),
    ("header.txt", .ofText "# Header\n"),
    ("nonReservedKeywords.txt", .ofText "# Header\nc\n")]

/-- A grammar of two directories, with a manifest in the upper one that names the license header and
the generated file. -/
def headedTree : FileTree where
  top := [("g", .directory headedDirectory)]
  workingDirectory := []

/-- The options that the manifest stands for. -/
def headedOptions : Options := ⟨"ftl", some "# Header\n".toList⟩

/-- What the upper directory lists. -/
def headedListing : Listing where
  fragments := [⟨"/g/a.ftl"⟩]
  tables := [(.nonReserved, ⟨"/g/nonReservedKeywords.txt"⟩)]
  directories := [⟨"/g/d"⟩]

/-- What the lower directory lists. -/
def headedListingBelow : Listing where
  fragments := [⟨"/g/d/b.ftl"⟩]
  tables :=
    [(.assignments .keyword, ⟨"/g/d/keywords.txt"⟩),
      (.nonReserved, ⟨"/g/d/nonReservedKeywords.txt"⟩)]

theorem headedTree_layers :
    Layers headedTree "ftl" ⟨"/g"⟩ ["d"]
      [(⟨"/g"⟩, headedListing), (⟨"/g/d"⟩, headedListingBelow)] := by
  have hstat : headedTree.stat ⟨"/g"⟩ = .ok (["g"], .directory headedDirectory) :=
    FileTree.stat_of_at? rfl rfl (by decide) rfl (fun target => Entry.noConfusion)
      (by decide)
  have hstatBelow : headedTree.stat ⟨"/g/d"⟩ = .ok (["g", "d"], .directory headedBelow) :=
    FileTree.stat_of_at? rfl rfl (by decide) rfl (fun target => Entry.noConfusion)
      (by decide)
  have hlisting : Listing.ofDirectory headedTree "ftl" ⟨"/g"⟩ = .ok headedListing := by
    rw [Listing.ofDirectory_of_stat hstat (by decide)]
    rfl
  have hlistingBelow : Listing.ofDirectory headedTree "ftl" ⟨"/g/d"⟩ = .ok headedListingBelow := by
    rw [Listing.ofDirectory_of_stat hstatBelow (by decide)]
    rfl
  have hchild : headedListing.directory? "d" = some ⟨"/g/d"⟩ := by decide
  exact .down hlisting hchild (.last hlistingBelow)

/-- The production of the lower fragment. -/
def headedProduction : Production :=
  ⟨"B", "T", "T B():\x7bx\x7d\x7b\x7d", ⟨0, 11⟩, some ⟨"/g/d/b.ftl"⟩⟩

theorem headedTree_productionsIn :
    ProductionsIn headedTree [⟨"/g/a.ftl"⟩, ⟨"/g/d/b.ftl"⟩]
      [⟨"B", "T", "T B():\x7b\x7d\x7b\x7d", ⟨0, 10⟩, some ⟨"/g/a.ftl"⟩⟩, headedProduction] := by
  have hsteps : (⟨"/g/a.ftl"⟩ : Path).allSteps = ["g", "a.ftl"].map .down := by decide
  have hstepsBelow : (⟨"/g/d/b.ftl"⟩ : Path).allSteps = ["g", "d", "b.ftl"].map .down := by
    decide
  have htext : headedTree.readText ⟨"/g/a.ftl"⟩ = .ok "T B():\x7b\x7d\x7b\x7d" :=
    FileTree.readText_of_at? rfl rfl hsteps rfl (by decide)
  have htextBelow : headedTree.readText ⟨"/g/d/b.ftl"⟩ = .ok "T B():\x7bx\x7d\x7b\x7d" :=
    FileTree.readText_of_at? rfl rfl hstepsBelow rfl (by decide)
  have hread : Production.readAll "T B():\x7b\x7d\x7b\x7d".toList =
      .ok [⟨"B", "T", "T B():\x7b\x7d\x7b\x7d", ⟨0, 10⟩, none⟩] := by
    decide +kernel
  have hreadBelow : Production.readAll "T B():\x7bx\x7d\x7b\x7d".toList =
      .ok [{ headedProduction with origin := none }] := by
    decide +kernel
  have hupper := productionsOfFile_eq_ok_iff.mpr ⟨_, _, htext, hread, rfl⟩
  have hlower := productionsOfFile_eq_ok_iff.mpr ⟨_, _, htextBelow, hreadBelow, rfl⟩
  exact .cons hupper (.cons hlower .nil)

theorem headedTree_readText_tables :
    headedTree.readText ⟨"/g/nonReservedKeywords.txt"⟩ = .ok "# Header\nc\n" ∧
      headedTree.readText ⟨"/g/d/keywords.txt"⟩ = .ok "# Header\nc: 3\nc: 4\n" ∧
      headedTree.readText ⟨"/g/d/nonReservedKeywords.txt"⟩ = .ok "# Header\nb\nc\n" := by
  have hwords : (⟨"/g/nonReservedKeywords.txt"⟩ : Path).allSteps =
      ["g", "nonReservedKeywords.txt"].map .down := by
    decide
  have hkeywords : (⟨"/g/d/keywords.txt"⟩ : Path).allSteps =
      ["g", "d", "keywords.txt"].map .down := by
    decide
  have hwordsBelow : (⟨"/g/d/nonReservedKeywords.txt"⟩ : Path).allSteps =
      ["g", "d", "nonReservedKeywords.txt"].map .down := by
    decide
  refine ⟨?_, ?_, ?_⟩
  · exact FileTree.readText_of_at? rfl rfl hwords rfl (by decide)
  · exact FileTree.readText_of_at? rfl rfl hkeywords rfl (by decide)
  · exact FileTree.readText_of_at? rfl rfl hwordsBelow rfl (by decide)

/-- The table files of the grammar. -/
def headedTableFiles : List TableFile :=
  tableFilesOf headedTree headedOptions [(⟨"/g"⟩, headedListing), (⟨"/g/d"⟩, headedListingBelow)]

/-- The keywords that the tables assign, to which the license header adds none. -/
theorem headedTableFiles_assigned : headedTableFiles.flatMap (·.assigned .keyword) =
    [⟨"C", "3", some ⟨"/g/d/keywords.txt"⟩⟩, ⟨"C", "4", some ⟨"/g/d/keywords.txt"⟩⟩] := by
  obtain ⟨-, hkeywords, -⟩ := headedTree_readText_tables
  simp only [headedTableFiles, tableFilesOf, tablesOf, headedListing, headedListingBelow,
    List.flatMap_cons, List.flatMap_nil, List.append_nil, List.cons_append, List.nil_append,
    List.map_cons, List.map_nil, TableFile.assigned, TableFile.content, readTextAs, hkeywords]
  decide

theorem headedTableFiles_listed : headedTableFiles.flatMap (·.listed) =
    [⟨"C", "C", some ⟨"/g/nonReservedKeywords.txt"⟩⟩,
      ⟨"B", "B", some ⟨"/g/d/nonReservedKeywords.txt"⟩⟩,
      ⟨"C", "C", some ⟨"/g/d/nonReservedKeywords.txt"⟩⟩] := by
  obtain ⟨hwords, -, hwordsBelow⟩ := headedTree_readText_tables
  simp only [headedTableFiles, tableFilesOf, tablesOf, headedListing, headedListingBelow,
    List.flatMap_cons, List.flatMap_nil, List.append_nil, List.cons_append, List.nil_append,
    List.map_cons, List.map_nil, TableFile.listed, TableFile.content, readTextAs, hwords,
    hwordsBelow]
  decide

theorem headedTree_assembles :
    ∃ a, assemble headedTree headedOptions ⟨"/g"⟩ ⟨"/g/d"⟩ = .ok a ∧
      headedProduction ∈ a.grammar.toList ∧
      nonReservedProduction a.lexicon.nonReserved ≠ some headedProduction ∧
      a.lexicon.Merges headedTableFiles := by
  have hroute : route headedTree ⟨"/g"⟩ ⟨"/g/d"⟩ = .ok ["d"] := by rfl
  obtain ⟨hwords, hkeywords, hwordsBelow⟩ := headedTree_readText_tables
  have hgathers : ∃ gathered, Assembly.Gathers headedTree headedOptions
      [(⟨"/g"⟩, headedListing), (⟨"/g/d"⟩, headedListingBelow)] .empty gathered := by
    apply Assembly.exists_gathers
    · exact fun path hpath => headedTree_productionsIn.exists_of_mem hpath
    · intro file hfile
      rcases List.mem_cons.mp hfile with rfl | hfile
      · exact ⟨_, by rw [readTextAs, hwords]; rfl, by rintro c ⟨⟩⟩
      rcases List.mem_pair.mp hfile with rfl | rfl
      · refine ⟨_, by rw [readTextAs, hkeywords]; rfl, ?_⟩
        rintro c ⟨⟩
        exact ⟨_, rfl⟩
      · exact ⟨_, by rw [readTextAs, hwordsBelow]; rfl, by rintro c ⟨⟩⟩
  obtain ⟨gathered, hgathers⟩ := hgathers
  have ha := assemble_eq_ok_iff.mpr ⟨_, _, _, hroute, headedTree_layers, hgathers, rfl⟩
  obtain ⟨ps, hps, hgrammar⟩ := hgathers.exists_productionsIn
  obtain rfl := headedTree_productionsIn.unique hps
  have hoverrides := Assembly.overrides_addNonReserved hgrammar
  obtain ⟨reports, -, hloads⟩ := hgathers.loads_tableFilesOf
  refine ⟨_, ha, ?_, ?_, ?_⟩
  · rw [hoverrides.mem_toList_iff, hoverrides.get?_eq _ (by decide)]
    decide
  · -- the production for the listed words has no origin
    intro hgenerated
    obtain ⟨text, -, hsame⟩ := Option.map_eq_some_iff.mp hgenerated
    exact absurd (congrArg Production.origin hsame) (by rintro ⟨⟩)
  · rw [addNonReserved_eq]
    exact Lexicon.merges_of_loads hloads

/-- The production `B` is the one of the lower fragment, the keyword `C` has the second of its
values in its table, and the word `C` comes from the upper one of the two lists that have it. -/
theorem assemble_hasProvenance_sample :
    ∃ a, assemble headedTree headedOptions ⟨"/g"⟩ ⟨"/g/d"⟩ = .ok a ∧
      (headedProduction ∈ a.grammar.toList ∧
        headedProduction.IsLastIn headedTree ⟨"/g/d/b.ftl"⟩) ∧
      (∃ token ∈ (a.lexicon.table .keyword).toList, token.name = "C" ∧ token.value = "4" ∧
        token.IsLastIn headedTree headedOptions.license ⟨"/g/d/keywords.txt"⟩) ∧
      ∃ word ∈ a.lexicon.nonReserved.toList, word.name = "C" ∧
        word.origin = some ⟨"/g/nonReservedKeywords.txt"⟩ ∧
        ListsWord headedTree headedOptions.license ⟨"/g/nonReservedKeywords.txt"⟩ "C" := by
  obtain ⟨a, ha, hproduction, hne, hmerges⟩ := headedTree_assembles
  obtain ⟨hproductions, htokens, hwords⟩ := assemble_hasProvenance ha
  let token : TokenDef := ⟨"C", "4", some ⟨"/g/d/keywords.txt"⟩⟩
  have htoken : token ∈ (a.lexicon.table .keyword).toList := by
    rw [hmerges.mem_table_iff, headedTableFiles_assigned]
    decide
  let word : TokenDef := ⟨"C", "C", some ⟨"/g/nonReservedKeywords.txt"⟩⟩
  have hword : word ∈ a.lexicon.nonReserved.toList := by
    rw [hmerges.mem_nonReserved_iff, headedTableFiles_listed]
    decide
  refine ⟨a, ha, ⟨hproduction, ?_⟩, ⟨token, htoken, rfl, rfl, ?_⟩, ⟨word, hword, rfl, rfl, ?_⟩⟩
  -- each names the file that it comes from
  · obtain ⟨report, -, hlast⟩ := hproductions headedProduction hproduction hne
    have hpath : (⟨"/g/d/b.ftl"⟩ : Path) = report.path := Option.some.inj hlast.origin_eq
    rwa [hpath]
  · obtain ⟨report, -, -, hlast⟩ := htokens .keyword token htoken
    have hpath : (⟨"/g/d/keywords.txt"⟩ : Path) = report.path := Option.some.inj hlast.origin_eq
    rwa [hpath]
  · obtain ⟨before, path, after, -, hsame, hlists, -⟩ := hwords word hword
    have hpath : (⟨"/g/nonReservedKeywords.txt"⟩ : Path) = path :=
      Option.some.inj (congrArg TokenDef.origin hsame)
    rwa [hpath]

end GrammarLayers
