import GrammarLayers.Proofs.Layer.TokenOrder

/-!
# What a dialect takes over

Of two dialects, one may lie on the way to the other. Then whatever keeps the upper one from being
assembled keeps the lower one from it as well. If both can be assembled, the files of the upper one
are read first for the lower one too, and what they contribute stays in place: a production can only
be defined anew by a fragment below, and a token can only be assigned anew by a table below. The
production for the listed words is apart from this, since each dialect gets its own at the end.

## Main definitions

* `Assembly.Inherits` — an assembly continues another one

## Main results

* `Grammar.Overrides.get?_of_append` — productions stay where nothing below defines their names
* `Assembly.Gathers.inherits` — reading more directories continues an assembly
* `assemble_inherits` — a dialect continues those on the way to it
-/

namespace GrammarLayers

/-- The second assembly continues the first one with the files of directories below: reports and
listed words come first as they were, and so do the names of productions, apart from that for the
listed words. Productions stay as they were unless a fragment below defines their names, and no
token is lost. -/
structure Assembly.Inherits (t : FileTree) (below : List (Path × Listing)) (a b : Assembly) :
    Prop where
  fragments_prefix : a.fragments <+: b.fragments
  tables_prefix : a.tables <+: b.tables
  names_prefix : a.grammar.names.filter (· ≠ nonReservedName) <+:
    b.grammar.names.filter (· ≠ nonReservedName)
  get?_eq : ∀ p ∈ a.grammar.toList, p.name ≠ nonReservedName →
    (∀ path ∈ fragmentsOf below, ∀ ps, productionsOfFile t path = .ok ps →
      p.name ∉ ps.map Production.name) → b.grammar.get? p.name = some p
  words_prefix : a.lexicon.nonReserved.toList <+: b.lexicon.nonReserved.toList
  names_subset : ∀ c, (a.lexicon.table c).names ⊆ (b.lexicon.table c).names

/-! ### Productions -/

namespace Grammar.Overrides

variable {g g' : Grammar} {ps qs : List Production} {words words' : WordList}

/-- Apart from that for the listed words, the names are those of the productions. -/
theorem filter_names (h : g.Overrides ps words) :
    g.names.filter (· ≠ nonReservedName) =
      (ps.map Production.name).eraseDups.filter (· ≠ nonReservedName) := by
  rw [h.names_eq, List.filter_append]
  split
  next => rw [List.filter_nil, List.append_nil]
  next => simp

theorem filter_names_prefix (h : g.Overrides ps words) (h' : g'.Overrides (ps ++ qs) words') :
    g.names.filter (· ≠ nonReservedName) <+: g'.names.filter (· ≠ nonReservedName) := by
  rw [h.filter_names, h'.filter_names, List.map_append]
  exact (eraseDups_prefix_append _ _).filter _

/-- A production stays if none of the productions that follow has its name. -/
theorem get?_of_append (h : g.Overrides ps words) (h' : g'.Overrides (ps ++ qs) words')
    {p : Production} (hp : p ∈ g.toList) (hname : p.name ≠ nonReservedName)
    (hnew : p.name ∉ qs.map Production.name) : g'.get? p.name = some p := by
  have hbefore : ps.findRev? (·.name = p.name) = some p := by
    rw [← h.get?_eq p.name hname]
    exact (h.mem_toList_iff p).mp hp
  have hafter : qs.findRev? (·.name = p.name) = none :=
    (findRev?_name_eq_none_iff Production.name).mpr hnew
  rw [h'.get?_eq p.name hname, findRev?_append, hafter, hbefore, Option.none_or]

end Grammar.Overrides

/-! ### Two assemblies -/

variable {t : FileTree} {options : Options} {layers below : List (Path × Listing)}

/-- Names that files assign are not lost when more files assign names. -/
theorem Lexicon.Merges.names_subset {files more : List TableFile} {l l' : Lexicon}
    (h : l.Merges files) (h' : l'.Merges (files ++ more)) (c : TokenClass) :
    (l.table c).names ⊆ (l'.table c).names := by
  rw [h.names_eq, h'.names_eq, List.flatMap_append, List.map_append]
  intro name hname
  rw [List.mem_dedup] at hname ⊢
  exact List.mem_append_left _ hname

theorem tableFilesOf_append (t : FileTree) (options : Options)
    (layers below : List (Path × Listing)) :
    tableFilesOf t options (layers ++ below) =
      tableFilesOf t options layers ++ tableFilesOf t options below := by
  rw [tableFilesOf, tablesOf_append, List.map_append]
  rfl

/-- Reading more directories continues an assembly, whether or not the production for the listed
words has been added to it. -/
theorem Assembly.Gathers.inherits {a b : Assembly} (h : Gathers t options layers .empty a)
    (h' : Gathers t options below a b) :
    Inherits t below a.addNonReserved b.addNonReserved := by
  -- what the lower assembly holds is said both from the empty one and from the upper one
  have hall := h.append h'
  obtain ⟨ps, -, hgrammar⟩ := h.exists_productionsIn
  obtain ⟨qs, hqs, hgrammar'⟩ := h'.exists_productionsIn
  have hoverrides := overrides_addNonReserved hgrammar
  rw [hgrammar, ← Grammar.insertAll_append] at hgrammar'
  have hoverrides' := overrides_addNonReserved hgrammar'
  obtain ⟨tables, -, hloads⟩ := h.loads_tableFilesOf
  obtain ⟨tables', htables', hloads'⟩ := h'.loads_tableFilesOf
  obtain ⟨all, -, hloadsAll⟩ := hall.loads_tableFilesOf
  rw [tableFilesOf_append] at hloadsAll
  have hmerges := Lexicon.merges_of_loads hloads
  have hmergesAll := Lexicon.merges_of_loads hloadsAll
  have hfragments : a.fragments <+: b.fragments := by
    obtain ⟨-, -⟩ := h'
    exact List.prefix_append _ _
  have hwords : a.lexicon.nonReserved.toList <+: b.lexicon.nonReserved.toList := by
    rw [TableFile.toList_nonReserved_of_loads hloads']
    exact prefix_foldl_keepFirst TokenDef.name _ _
  refine ⟨?_, ?_, hoverrides.filter_names_prefix hoverrides', ?_, ?_, ?_⟩
  · rw [addNonReserved_eq, addNonReserved_eq]
    exact hfragments
  · rw [addNonReserved_eq, addNonReserved_eq]
    exact htables' ▸ List.prefix_append _ _
  · intro p hp hname hbelow
    apply hoverrides.get?_of_append hoverrides' hp hname
    -- a production below that has its name stands in some fragment below
    intro hmem
    obtain ⟨q, hq, hqname⟩ := List.mem_map.mp hmem
    obtain ⟨path, hpath, file, hfile, hqfile⟩ := hqs.exists_file_of_mem hq
    exact hbelow path hpath file hfile (hqname ▸ List.mem_map_of_mem hqfile)
  · rw [addNonReserved_eq, addNonReserved_eq]
    exact hwords
  · intro c
    rw [addNonReserved_eq, addNonReserved_eq]
    exact hmerges.names_subset hmergesAll c

/-- A dialect fails as those on the way to it do, and continues them where both can be assembled,
with the files of the directories that lie between. -/
theorem assemble_inherits {root dialect dialect' : Path} {names more : List String}
    (hroute : route t root dialect = .ok names)
    (hroute' : route t root dialect' = .ok (names ++ more)) :
    (∀ failure, assemble t options root dialect = .error failure →
      assemble t options root dialect' = .error failure) ∧
    ∀ a b, assemble t options root dialect = .ok a →
      assemble t options root dialect' = .ok b →
      ∃ layers below, Layers t options.extension root names layers ∧
        Layers t options.extension root (names ++ more) (layers ++ below) ∧
        a.Inherits t below b := by
  constructor
  · intro failure h
    exact assemble_eq_error_of_route_append hroute hroute' h
  · intro a b ha hb
    obtain ⟨upper, layers, gathered, hupper, hlayers, hgathers, rfl⟩ := assemble_eq_ok_iff.mp ha
    obtain ⟨lower, all, gathered', hlower, hall, hgathers', rfl⟩ := assemble_eq_ok_iff.mp hb
    obtain rfl := Except.ok.inj (hroute.symm.trans hupper)
    obtain rfl := Except.ok.inj (hroute'.symm.trans hlower)
    -- the upper assembly is what the lower one has gathered on the first part of its way
    obtain ⟨below, rfl⟩ := hlayers.exists_append hall
    obtain ⟨gathered₁, hfirst, hsecond⟩ := hgathers'.exists_of_append
    obtain rfl := hgathers.unique hfirst
    exact ⟨layers, below, hlayers, hall, hgathers.inherits hsecond⟩

/-- The lower dialect of the sample keeps the production `A` of the upper one, and a way that leaves
the sample fails where it does so. -/
theorem assemble_inherits_sample :
    assemble sampleTree ⟨"ftl", none⟩ ⟨"/g"⟩ ⟨"/g/x/y"⟩ = .error (.missingDirectory "x" ⟨"/g"⟩) ∧
      ∃ a b, assemble sampleTree ⟨"ftl", none⟩ ⟨"/g"⟩ ⟨"/g"⟩ = .ok a ∧
        assemble sampleTree ⟨"ftl", none⟩ ⟨"/g"⟩ ⟨"/g/d"⟩ = .ok b ∧ a.fragments <+: b.fragments ∧
        b.grammar.get? "A" =
          some ⟨"A", "T", "T A():\x7b\x7d\x7b\x7d", ⟨0, 10⟩, some ⟨"/g/a.ftl"⟩⟩ := by
  have hroot : route sampleTree ⟨"/g"⟩ ⟨"/g"⟩ = .ok [] := by rfl
  have hlayers : Layers sampleTree "ftl" ⟨"/g"⟩ [] [(⟨"/g"⟩, sampleListing)] :=
    .last sampleTree_ofDirectory
  obtain ⟨gathered, hgathers⟩ := sampleTree_gathers (List.subset_append_left [_] [_])
  constructor
  · have hroute : route sampleTree ⟨"/g"⟩ ⟨"/g/x"⟩ = .ok ["x"] := by rfl
    have hroute' : route sampleTree ⟨"/g"⟩ ⟨"/g/x/y"⟩ = .ok (["x"] ++ ["y"]) := by rfl
    apply (assemble_inherits hroute hroute').1
    have hlayer := Assembly.addLayer_eq_ok_iff.mpr ⟨sampleTree_ofDirectory, hgathers⟩
    rw [assemble_of_route hroute, Assembly.addLayers_cons, Loading.run_bind_of_ok hlayer]
    rfl
  · have hroute : route sampleTree ⟨"/g"⟩ ⟨"/g/d"⟩ = .ok ([] ++ ["d"]) := by rfl
    obtain ⟨b, hb⟩ := sampleTree_assembles
    have ha := assemble_eq_ok_iff.mpr ⟨_, _, gathered, hroot, hlayers, hgathers, rfl⟩
    obtain ⟨layers, below, hupper, hlower, hinherits⟩ :=
      (assemble_inherits hroot hroute).2 _ b ha hb
    obtain rfl := hlayers.unique hupper
    obtain rfl := List.cons.inj (sampleTree_layers.unique hlower) |>.2
    refine ⟨_, b, ha, hb, hinherits.fragments_prefix, ?_⟩
    obtain ⟨ps, hps, hgrammar⟩ := hgathers.exists_productionsIn
    obtain rfl := hps.unique (.cons sampleTree_productionsOfFile .nil)
    have hoverrides := Assembly.overrides_addNonReserved hgrammar
    have hmem : _ ∈ gathered.addNonReserved.grammar.toList :=
      (hoverrides.mem_toList_iff ⟨"A", _, _, _, _⟩).mpr (hoverrides.get?_eq "A" (by decide))
    -- the fragment below has no production of this name
    apply hinherits.get?_eq _ hmem (by decide)
    intro path hpath ps hps
    obtain rfl := List.mem_singleton.mp hpath
    obtain rfl := Except.ok.inj (sampleTree_productionsOfFile_below.symm.trans hps)
    decide

end GrammarLayers
