import GrammarLayers.Proofs.Layer.Loading
import GrammarLayers.Proofs.Layer.Overriding
import GrammarLayers.Proofs.Merge.Index
import GrammarLayers.Proofs.Table.NormalForm

/-!
# Tokens after many tables

Table files are loaded one after another, of any kinds in any order. Of the tokens that files of
one class assign, the last of each name stays, in the order of these last ones; of the words that
are listed, the first of each stays, in the order of these first ones. Classes do not disturb one
another, so that whether a listed word is defined does not depend on which file was loaded first.

## Main definitions

* `TableFile` — a table file that is loaded
* `TableFile.assigned`, `TableFile.listed` — the tokens in a file
* `tableFilesOf` — the table files of directories
* `Lexicon.Merges` — a lexicon holds what files assign and list

## Main results

* `TableFile.load_eq_ok` — what loading one file does to each table
* `TableFile.toList_table_of_loads`, `TableFile.toList_nonReserved_of_loads` — what loading many
  files does
* `Lexicon.merges_of_loads` — what tables that were empty hold after that
* `lexicon_merges_files` — the lexicon after loading files, and that of a dialect
-/

namespace GrammarLayers

/-- A table file that is loaded as a table of some kind: the tree it lies in, and the license header
that it may start with. -/
structure TableFile where
  tree : FileTree
  license : Option (List Char)
  kind : TableKind
  path : Path

namespace TableFile

/-- Merges the entries of the file. -/
def load (f : TableFile) : Loading Lexicon TableReport :=
  Lexicon.load f.tree f.license f.kind f.path

/-- The text of the file after the license header. A file that cannot be read has none. -/
def content (f : TableFile) : List Char :=
  match readTextAs f.tree .tokenTable f.path with
  | .ok text => dropLicense f.license text.toList
  | .error _ => []

/-- The tokens that the file assigns to a class. -/
def assigned (f : TableFile) (c : TokenClass) : List TokenDef :=
  if f.kind = .assignments c then
    match readAssignments f.content with
    | .ok entries => entries.map fun e => ⟨e.name, e.value, some f.path⟩
    | .error _ => []
  else []

/-- The words that the file lists, as tokens. -/
def listed (f : TableFile) : List TokenDef :=
  if f.kind = .nonReserved then (readWords f.content).map fun word => ⟨word, word, some f.path⟩
  else []

end TableFile

/-- The table files of directories, in order. -/
def tableFilesOf (t : FileTree) (options : Options) (layers : List (Path × Listing)) :
    List TableFile :=
  (tablesOf layers).map fun (kind, path) => ⟨t, options.license, kind, path⟩

/-- The lexicon holds what files assign and list: of each class, the last token of each name, in the
order of these; of the words, the first of each, in the order of these. Tokens are found under every
spelling that upper-cases to their names. -/
structure Lexicon.Merges (files : List TableFile) (l : Lexicon) : Prop where
  names_eq : ∀ c, (l.table c).names =
    ((files.flatMap (·.assigned c)).map TokenDef.name).dedup
  mem_table_iff : ∀ c token, token ∈ (l.table c).toList ↔
    (files.flatMap (·.assigned c)).findRev? (·.name = token.name) = some token
  get?_eq : ∀ c spelling, (l.table c).get? spelling =
    (files.flatMap (·.assigned c)).findRev? (·.name = upper spelling)
  finds : ∀ c spelling, ∀ token ∈ (l.table c).toList, upper spelling = token.name →
    (l.table c).get? spelling = some token ∧ (l.table c).value? spelling = some token.value ∧
      (l.table c).contains spelling = true
  words_eq : l.nonReserved.names = ((files.flatMap (·.listed)).map TokenDef.name).eraseDups
  mem_nonReserved_iff : ∀ word, word ∈ l.nonReserved.toList ↔
    (files.flatMap (·.listed)).find? (·.name = word.name) = some word
  undefinedWords_eq : l.undefinedWords = l.nonReserved.toList.filter fun word =>
    word.name ∉ (files.flatMap (·.assigned .keyword)).map TokenDef.name

/-! ### Names in files are upper case -/

theorem upper_of_mem_readWords {text : List Char} {word : String} (h : word ∈ readWords text) :
    upper word = word := by
  obtain ⟨⟨number, line⟩, -, rfl⟩ := List.mem_map.mp h
  rw [upper_ofList, upperChars_upperChars]

namespace TableFile

variable {f : TableFile} {files : List TableFile} {l l' : Lexicon} {report : TableReport}
  {reports : List TableReport}

theorem upper_name_of_mem_listed {word : TokenDef} (h : word ∈ f.listed) :
    upper word.name = word.name := by
  unfold listed at h
  split at h
  next =>
    obtain ⟨w, hw, rfl⟩ := List.mem_map.mp h
    exact upper_of_mem_readWords hw
  next => cases h

/-- The entries of a list as they are merged: upper-casing them once more changes nothing. -/
theorem listed_eq_of_nonReserved (hkind : f.kind = .nonReserved) :
    (readWords f.content).map (fun word => TokenDef.ofName word (upper word) (some f.path)) =
      f.listed := by
  rw [listed, if_pos hkind]
  apply List.map_congr_left
  intro word hword
  rw [TokenDef.ofName, upper_of_mem_readWords hword]

/-- The entries of a table as they are merged: upper-casing them once more changes nothing. -/
theorem assigned_eq_of_readAssignments {c : TokenClass} {entries : List Assignment}
    (hkind : f.kind = .assignments c) (hentries : readAssignments f.content = .ok entries) :
    entries.map (fun e => TokenDef.ofName e.name e.value (some f.path)) = f.assigned c := by
  rw [assigned, if_pos hkind, hentries]
  apply List.map_congr_left
  intro e he
  rw [TokenDef.ofName, (isNormal_of_mem hentries e he).upper_name]

theorem assigned_eq_nil {c : TokenClass} (hkind : f.kind ≠ .assignments c) :
    f.assigned c = [] := if_neg hkind

theorem listed_eq_nil (hkind : f.kind ≠ .nonReserved) : f.listed = [] := if_neg hkind

theorem content_of_readTextAs {text : String}
    (h : readTextAs f.tree .tokenTable f.path = .ok text) :
    f.content = dropLicense f.license text.toList := by
  rw [content, h]

/-- What loading one file does to each table and to the list of words. -/
theorem load_eq_ok (h : f.load.run.run l = (.ok report, l')) :
    (∀ c, l'.table c = ((l.table c).insertAll (f.assigned c)).2) ∧
      l'.nonReserved.toList = f.listed.foldl (keepFirst TokenDef.name) l.nonReserved.toList := by
  rw [load, Lexicon.run_load] at h
  split at h
  next => cases h
  next text hread hkind =>
    -- a list of words leaves every table as it is
    obtain ⟨⟩ := h
    rw [← content_of_readTextAs hread]
    constructor
    · intro c
      rw [assigned_eq_nil (by rw [hkind]; exact TableKind.noConfusion)]
      cases c <;> rfl
    · rw [← listed_eq_of_nonReserved hkind]
      exact WordList.toList_insertAll _ _ _
  next text c hread hkind =>
    -- assignments leave the tables of the other classes, and the words, as they are
    rw [← content_of_readTextAs hread] at h
    split at h
    next => cases h
    next entries hentries =>
      obtain ⟨⟩ := h
      rw [listed_eq_nil (by rw [hkind]; exact TableKind.noConfusion),
        assigned_eq_of_readAssignments hkind hentries]
      constructor
      · intro d
        by_cases hd : d = c
        · subst hd
          exact Lexicon.table_setTable _ _ _
        · have hother : f.kind ≠ .assignments d := by
            rw [hkind]
            intro hsame
            exact hd (TableKind.assignments.inj hsame).symm
          rw [assigned_eq_nil hother, Lexicon.table_setTable_of_ne hd]
          rfl
      · cases c <;> rfl

/-- What loading many files does to a table: all tokens of its class override at the end. -/
theorem toList_table_of_loads {c : TokenClass} (h : Loads l (files.map load) reports l')
    (hindexed : (l.table c).WellIndexed) :
    (l'.table c).WellIndexed ∧
      (l'.table c).toList =
        (files.flatMap (·.assigned c)).foldl (overrideAtEnd TokenDef.name) (l.table c).toList := by
  induction files generalizing l reports with
  | nil =>
    cases h
    exact ⟨hindexed, rfl⟩
  | cons f files ih =>
    cases h with
    | cons hload h =>
      -- a file of another class assigns nothing to this one, and then this changes nothing
      obtain ⟨hindexed', hlist⟩ := hindexed.insertAll (f.assigned c)
      rw [← (load_eq_ok hload).1 c] at hindexed' hlist
      rw [List.flatMap_cons, List.foldl_append, ← hlist]
      exact ih h hindexed'

/-- What loading many files does to the list of words: all words keep their first place. -/
theorem toList_nonReserved_of_loads (h : Loads l (files.map load) reports l') :
    l'.nonReserved.toList =
      (files.flatMap (·.listed)).foldl (keepFirst TokenDef.name) l.nonReserved.toList := by
  induction files generalizing l reports with
  | nil =>
    cases h
    rfl
  | cons f files ih =>
    cases h with
    | cons hload h =>
      rw [List.flatMap_cons, List.foldl_append, ← (load_eq_ok hload).2]
      exact ih h

end TableFile

open TableFile

/-! ### Tables that were empty -/

section
variable {files : List TableFile} {reports : List TableReport} {l : Lexicon}

theorem toList_table_of_loads_empty (h : Loads .empty (files.map TableFile.load) reports l)
    (c : TokenClass) :
    (l.table c).WellIndexed ∧ (l.table c).toList =
      (files.flatMap (·.assigned c)).foldl (overrideAtEnd TokenDef.name) [] := by
  have hempty : Lexicon.empty.table c = .empty := by cases c <;> rfl
  have hloads := toList_table_of_loads (c := c) h (hempty ▸ TokenTable.wellIndexed_empty)
  rwa [hempty] at hloads

theorem get?_of_loads_empty (h : Loads .empty (files.map TableFile.load) reports l)
    (c : TokenClass) (spelling : String) :
    (l.table c).get? spelling =
      (files.flatMap (·.assigned c)).findRev? (·.name = upper spelling) := by
  obtain ⟨hindexed, hlist⟩ := toList_table_of_loads_empty h c
  rw [hindexed.get?_eq, hlist]
  exact find?_foldl_overrideAtEnd TokenDef.name _ _

theorem mem_table_iff_of_loads_empty (h : Loads .empty (files.map TableFile.load) reports l)
    (c : TokenClass) (token : TokenDef) :
    token ∈ (l.table c).toList ↔
      (files.flatMap (·.assigned c)).findRev? (·.name = token.name) = some token := by
  obtain ⟨hindexed, hlist⟩ := toList_table_of_loads_empty h c
  rw [← find?_name_eq_some_iff TokenDef.name hindexed.nodup, hlist, find?_foldl_overrideAtEnd]

theorem names_nonReserved_of_loads_empty
    (h : Loads .empty (files.map TableFile.load) reports l) :
    l.nonReserved.names = ((files.flatMap (·.listed)).map TokenDef.name).eraseDups := by
  rw [WordList.names, toList_nonReserved_of_loads h]
  exact map_foldl_keepFirst TokenDef.name _

theorem mem_nonReserved_iff_of_loads_empty
    (h : Loads .empty (files.map TableFile.load) reports l) (word : TokenDef) :
    word ∈ l.nonReserved.toList ↔
      (files.flatMap (·.listed)).find? (·.name = word.name) = some word := by
  have hnodup : l.nonReserved.names.Nodup := by
    rw [names_nonReserved_of_loads_empty h]
    exact nodup_eraseDups _
  have hlist : l.nonReserved.toList =
      (files.flatMap (·.listed)).foldl (keepFirst TokenDef.name) [] :=
    toList_nonReserved_of_loads h
  rw [← find?_name_eq_some_iff TokenDef.name hnodup, hlist, find?_foldl_keepFirst]

/-- A listed word is defined if any file assigns it as a keyword, be it before or after. -/
theorem contains_of_loads_empty (h : Loads .empty (files.map TableFile.load) reports l)
    {word : TokenDef} (hword : word ∈ l.nonReserved.toList) :
    l.keywords.contains word.name = true ↔
      word.name ∈ (files.flatMap (·.assigned .keyword)).map TokenDef.name := by
  have hlisted := List.mem_of_find?_eq_some ((mem_nonReserved_iff_of_loads_empty h word).mp hword)
  obtain ⟨f, -, hlisted⟩ := List.mem_flatMap.mp hlisted
  -- the table looks a word up by its upper-case form, which is the word itself
  have hfound := get?_of_loads_empty h .keyword word.name
  rw [upper_name_of_mem_listed hlisted] at hfound
  change (l.table .keyword).contains word.name = true ↔ _
  rw [TokenTable.contains, hfound, ← not_iff_not, Bool.not_eq_true, Option.isSome_eq_false_iff,
    Option.isNone_iff_eq_none, findRev?_name_eq_none_iff]

theorem undefinedWords_of_loads_empty (h : Loads .empty (files.map TableFile.load) reports l) :
    l.undefinedWords = l.nonReserved.toList.filter fun word =>
      word.name ∉ (files.flatMap (·.assigned .keyword)).map TokenDef.name := by
  rw [Lexicon.undefinedWords]
  apply List.filter_congr
  intro word hword
  rw [Bool.eq_iff_iff, Bool.not_eq_true', ← Bool.not_eq_true, contains_of_loads_empty h hword,
    decide_eq_true_eq]

theorem Lexicon.merges_of_loads (h : Loads .empty (files.map TableFile.load) reports l) :
    l.Merges files := by
  refine ⟨?_, mem_table_iff_of_loads_empty h, get?_of_loads_empty h, ?_,
    names_nonReserved_of_loads_empty h, mem_nonReserved_iff_of_loads_empty h,
    undefinedWords_of_loads_empty h⟩
  · intro c
    rw [TokenTable.names, (toList_table_of_loads_empty h c).2]
    exact map_foldl_overrideAtEnd TokenDef.name _
  · intro c spelling token htoken hspelling
    have hfound : (l.table c).get? spelling = some token := by
      rw [get?_of_loads_empty h, hspelling]
      exact (mem_table_iff_of_loads_empty h c token).mp htoken
    refine ⟨hfound, ?_, ?_⟩
    · rw [TokenTable.value?, hfound]
      rfl
    · rw [TokenTable.contains, hfound]
      rfl

end

/-! ### The tables of a dialect -/

/-- Which words are undefined depends on their names alone. -/
theorem Lexicon.Merges.names_undefinedWords {files : List TableFile} {l : Lexicon}
    (h : l.Merges files) : l.undefinedWords.map TokenDef.name =
      l.nonReserved.names.filter
        (· ∉ (files.flatMap (·.assigned .keyword)).map TokenDef.name) := by
  rw [h.undefinedWords_eq, WordList.names, List.filter_map]
  rfl

theorem Assembly.Gathers.loads_tableFilesOf {t : FileTree} {options : Options}
    {layers : List (Path × Listing)} {a a' : Assembly} (h : Gathers t options layers a a') :
    ∃ reports, a'.tables = a.tables ++ reports ∧
      Loads a.lexicon ((tableFilesOf t options layers).map TableFile.load) reports
        a'.lexicon := by
  obtain ⟨-, htables⟩ := h
  rw [tableFilesOf, List.map_map]
  exact ⟨_, rfl, htables⟩

/-- The lexicon of a dialect is what the table files on the way to it leave. -/
theorem exists_merges_of_assemble {t : FileTree} {options : Options} {root dialect : Path}
    {a : Assembly} (h : assemble t options root dialect = .ok a) :
    ∃ names layers, route t root dialect = .ok names ∧
      Layers t options.extension root names layers ∧
      Loads .empty ((tableFilesOf t options layers).map TableFile.load) a.tables a.lexicon ∧
      a.lexicon.Merges (tableFilesOf t options layers) := by
  obtain ⟨names, layers, gathered, hroute, hlayers, hgathers, rfl⟩ := assemble_eq_ok_iff.mp h
  obtain ⟨reports, hreports, hloads⟩ := hgathers.loads_tableFilesOf
  obtain rfl : gathered.tables = reports := hreports
  rw [addNonReserved_eq]
  exact ⟨names, layers, hroute, hlayers, hloads, Lexicon.merges_of_loads hloads⟩

/-- After table files have been loaded, in any order and of any kinds, the lexicon holds what they
assign and list, and the lexicon of a dialect is what the table files on the way to it leave. -/
theorem lexicon_merges_files :
    (∀ (files : List TableFile) (reports : List TableReport) (l : Lexicon),
        Loads .empty (files.map TableFile.load) reports l → l.Merges files) ∧
      ∀ t options root dialect a, assemble t options root dialect = .ok a →
        ∃ names layers, route t root dialect = .ok names ∧
          Layers t options.extension root names layers ∧
          Loads .empty ((tableFilesOf t options layers).map TableFile.load) a.tables a.lexicon ∧
          a.lexicon.Merges (tableFilesOf t options layers) :=
  ⟨fun _ _ _ => Lexicon.merges_of_loads, fun _ _ _ _ _ => exists_merges_of_assemble⟩

/-- The table files of the sample. -/
def sampleTableFiles : List TableFile :=
  tableFilesOf sampleTree ⟨"ftl", none⟩ [(⟨"/g"⟩, sampleListing), (⟨"/g/d"⟩, sampleListingBelow)]

/-- The keywords that the sample assigns: `A` is assigned above, and anew below. -/
theorem sampleTableFiles_assigned : sampleTableFiles.flatMap (·.assigned .keyword) =
    [⟨"A", "1", some ⟨"/g/keywords.txt"⟩⟩, ⟨"B", "2", some ⟨"/g/keywords.txt"⟩⟩,
      ⟨"C", "3", some ⟨"/g/d/keywords.txt"⟩⟩, ⟨"A", "4", some ⟨"/g/d/keywords.txt"⟩⟩] := by
  obtain ⟨hkeywords, -, hbelow⟩ := sampleTree_readText_tables
  simp only [sampleTableFiles, tableFilesOf, tablesOf, sampleListing, sampleListingBelow,
    List.flatMap_cons, List.flatMap_nil, List.append_nil, List.cons_append, List.nil_append,
    List.map_cons, List.map_nil, assigned, content, readTextAs, hkeywords, hbelow]
  decide

/-- The words that the sample lists. -/
theorem sampleTableFiles_listed : sampleTableFiles.flatMap (·.listed) =
    [⟨"C", "C", some ⟨"/g/nonReservedKeywords.txt"⟩⟩,
      ⟨"SS", "SS", some ⟨"/g/nonReservedKeywords.txt"⟩⟩] := by
  obtain ⟨-, hwords, -⟩ := sampleTree_readText_tables
  simp only [sampleTableFiles, tableFilesOf, tablesOf, sampleListing, sampleListingBelow,
    List.flatMap_cons, List.flatMap_nil, List.append_nil, List.cons_append, List.nil_append,
    List.map_cons, List.map_nil, listed, content, readTextAs, hwords]
  decide

/-- The words of the assembled sample. -/
theorem sampleTree_words : ∃ a, assemble sampleTree ⟨"ftl", none⟩ ⟨"/g"⟩ ⟨"/g/d"⟩ = .ok a ∧
    a.lexicon.nonReserved.names = ["C", "SS"] := by
  obtain ⟨a, ha⟩ := sampleTree_assembles
  obtain ⟨names, layers, hroute, hlayers, -, hmerges⟩ := exists_merges_of_assemble ha
  have hnames : names = ["d"] := (Except.ok.inj hroute).symm
  subst hnames
  obtain rfl := sampleTree_layers.unique hlayers
  refine ⟨a, ha, ?_⟩
  rw [hmerges.words_eq, ← sampleTableFiles, sampleTableFiles_listed]
  decide

/-- The keyword `A` moves to the end as it is assigned anew. The listed word `C` is defined, though
it is listed before that. -/
theorem lexicon_merges_files_sample :
    ∃ a, assemble sampleTree ⟨"ftl", none⟩ ⟨"/g"⟩ ⟨"/g/d"⟩ = .ok a ∧
      a.lexicon.keywords.names = ["B", "C", "A"] ∧
      a.lexicon.keywords.get? "a" = some ⟨"A", "4", some ⟨"/g/d/keywords.txt"⟩⟩ ∧
      a.lexicon.nonReserved.names = ["C", "SS"] ∧
      a.lexicon.undefinedWords.map TokenDef.name = ["SS"] := by
  obtain ⟨a, ha⟩ := sampleTree_assembles
  obtain ⟨names, layers, hroute, hlayers, hloads, -⟩ := lexicon_merges_files.2 _ _ _ _ a ha
  have hnames : names = ["d"] := (Except.ok.inj hroute).symm
  subst hnames
  obtain rfl := sampleTree_layers.unique hlayers
  have hmerges : a.lexicon.Merges sampleTableFiles := lexicon_merges_files.1 _ _ _ hloads
  have hkeywords : a.lexicon.keywords = a.lexicon.table .keyword := rfl
  have hwords : a.lexicon.nonReserved.names = ["C", "SS"] := by
    rw [hmerges.words_eq, sampleTableFiles_listed]
    decide
  refine ⟨a, ha, ?_, ?_, hwords, ?_⟩
  · rw [hkeywords, hmerges.names_eq, sampleTableFiles_assigned]
    decide
  · rw [hkeywords, hmerges.get?_eq, sampleTableFiles_assigned]
    decide
  · rw [hmerges.names_undefinedWords, hwords, sampleTableFiles_assigned]
    decide

end GrammarLayers
