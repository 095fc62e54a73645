import GrammarLayers.Layer.Assembly
import Mathlib.Data.List.Basic

/-!
# Files read on the way to a dialect

Assembling reads the fragments and the token tables of one directory after another. Fragments are
merged into the grammar and tables into the lexicon, and neither depends on the other: an assembly
that succeeds has loaded all fragments in order and all tables in order. One that fails does so
before any directory below is looked at.

## Main definitions

* `Loads` — actions succeed one after another
* `Assembly.addLayer` — read one directory
* `Layers` — the directories on the way to a dialect, with what they list

## Main results

* `Grammar.run_load`, `Lexicon.run_load` — what loading one file does
* `addLayers_eq_ok_iff` — a walk succeeds when all its files can be loaded in order
* `addLayers_append_eq_error` — a walk that fails does not depend on where it would have gone on
-/

namespace GrammarLayers

variable {σ ρ α β : Type}

/-- Actions succeed one after another, each on the state that the one before it leaves, and
return these results. -/
inductive Loads : σ → List (Loading σ ρ) → List ρ → σ → Prop
  | nil (s : σ) : Loads s [] [] s
  | cons {s s' s'' : σ} {action : Loading σ ρ} {actions : List (Loading σ ρ)} {r : ρ}
    {rs : List ρ} : action.run.run s = (.ok r, s') → Loads s' actions rs s'' →
      Loads s (action :: actions) (r :: rs) s''

namespace Loads

variable {s s' s'' : σ} {actions others : List (Loading σ ρ)} {rs rs' : List ρ}

theorem append (h : Loads s actions rs s') (h' : Loads s' others rs' s'') :
    Loads s (actions ++ others) (rs ++ rs') s'' := by
  induction h with
  | nil => exact h'
  | cons hrun _ ih => exact .cons hrun (ih h')

theorem exists_of_append (h : Loads s (actions ++ others) rs s'') :
    ∃ rs₁ rs₂ s', rs = rs₁ ++ rs₂ ∧ Loads s actions rs₁ s' ∧ Loads s' others rs₂ s'' := by
  induction actions generalizing s rs with
  | nil => exact ⟨[], rs, s, rfl, .nil s, h⟩
  | cons action actions ih =>
    cases h with
    | cons hrun h =>
      obtain ⟨rs₁, rs₂, s', rfl, hfirst, hsecond⟩ := ih h
      exact ⟨_, rs₂, s', rfl, .cons hrun hfirst, hsecond⟩

/-- Actions that succeed on every state succeed one after another. -/
theorem exists_of_forall (h : ∀ action ∈ actions, ∀ s, ∃ r s', action.run.run s = (.ok r, s'))
    (s : σ) : ∃ rs s', Loads s actions rs s' := by
  induction actions generalizing s with
  | nil => exact ⟨[], s, .nil s⟩
  | cons action actions ih =>
    obtain ⟨r, s₁, hrun⟩ := h action List.mem_cons_self s
    have hrest := ih fun action haction => h action (List.mem_cons_of_mem _ haction)
    obtain ⟨rs, s', hloads⟩ := hrest s₁
    exact ⟨r :: rs, s', .cons hrun hloads⟩

theorem unique (h : Loads s actions rs s') (h' : Loads s actions rs' s'') :
    rs = rs' ∧ s' = s'' := by
  induction h generalizing rs' with
  | nil =>
    cases h'
    exact ⟨rfl, rfl⟩
  | cons hrun _ ih =>
    cases h' with
    | cons hrun' h' =>
      obtain ⟨hr, rfl⟩ := Prod.mk.inj (hrun.symm.trans hrun')
      obtain rfl := Except.ok.inj hr
      obtain ⟨rfl, rfl⟩ := ih h'
      exact ⟨rfl, rfl⟩

end Loads

/-! ### Running actions -/

namespace Loading

variable {x : Loading σ α} {f : α → Loading σ β} {s s' s'' : σ} {a : α} {b : β} {e : Failure}

theorem run_bind (x : Loading σ α) (f : α → Loading σ β) (s : σ) :
    (x >>= f).run.run s =
      match x.run.run s with
      | (.ok a, s') => (f a).run.run s'
      | (.error e, s') => (.error e, s') := by
  rw [ExceptT.run_bind, StateT.run_bind]
  change (match x.run.run s with | (r, s') => _) = _
  rcases x.run.run s with ⟨_ | _, s'⟩
  · rfl
  · rfl

theorem run_bind_of_ok (h : x.run.run s = (.ok a, s')) :
    (x >>= f).run.run s = (f a).run.run s' := by
  rw [run_bind, h]

theorem run_bind_of_error (h : x.run.run s = (.error e, s')) :
    (x >>= f).run.run s = (.error e, s') := by
  rw [run_bind, h]

theorem run_liftM (x : Except Failure α) (s : σ) :
    (liftM x : Loading σ α).run.run s = (x, s) := by
  cases x with
  | error failure => rfl
  | ok a => rfl

/-- When two actions succeed one after the other. -/
theorem run_bind_eq_ok_iff :
    (x >>= f).run.run s = (.ok b, s'') ↔
      ∃ a s', x.run.run s = (.ok a, s') ∧ (f a).run.run s' = (.ok b, s'') := by
  rw [run_bind]
  rcases x.run.run s with ⟨e | a, s'⟩
  · constructor
    · rintro ⟨⟩
    · rintro ⟨_, _, ⟨⟩, _⟩
  · constructor
    · intro h
      exact ⟨a, s', rfl, h⟩
    · rintro ⟨_, _, ⟨⟩, h⟩
      exact h

/-- When one of two actions fails. -/
theorem run_bind_eq_error_iff :
    (x >>= f).run.run s = (.error e, s'') ↔
      x.run.run s = (.error e, s'') ∨
        ∃ a s', x.run.run s = (.ok a, s') ∧ (f a).run.run s' = (.error e, s'') := by
  rw [run_bind]
  rcases x.run.run s with ⟨e' | a, s'⟩
  · constructor
    · rintro ⟨⟩
      exact .inl rfl
    · rintro (⟨⟨⟩⟩ | ⟨_, _, ⟨⟩, _⟩)
      rfl
  · constructor
    · intro h
      exact .inr ⟨a, s', rfl, h⟩
    · rintro (⟨⟨⟩⟩ | ⟨_, _, ⟨⟩, h⟩)
      exact h

end Loading

/-- What loading a fragment does to a grammar. -/
theorem Grammar.run_load (t : FileTree) (path : Path) (g : Grammar) :
    (Grammar.load t path).run.run g =
      match productionsOfFile t path with
      | .ok ps =>
        (.ok ⟨path, ps.length, (g.insertAll ps).1.map Production.name⟩, (g.insertAll ps).2)
      | .error failure => (.error failure, g) := by
  unfold Grammar.load
  cases productionsOfFile t path with
  | ok ps => rfl
  | error failure => rfl

/-- What loading a table does to a lexicon. -/
theorem Lexicon.run_load (t : FileTree) (license : Option (List Char)) (kind : TableKind)
    (path : Path) (l : Lexicon) :
    (Lexicon.load t license kind path).run.run l =
      match readTextAs t .tokenTable path, kind with
      | .error failure, _ => (.error failure, l)
      | .ok text, .nonReserved =>
        let words := readWords (dropLicense license text.toList)
        (.ok ⟨path, kind, words.length, []⟩,
          { l with nonReserved := l.nonReserved.insertAll words path })
      | .ok text, .assignments c =>
        match readAssignments (dropLicense license text.toList) with
        | .error fault => (.error (.inFile path fault), l)
        | .ok entries =>
          let tokens := entries.map fun e => TokenDef.ofName e.name e.value (some path)
          (.ok ⟨path, kind, entries.length, ((l.table c).insertAll tokens).1.map TokenDef.name⟩,
            l.setTable c ((l.table c).insertAll tokens).2) := by
  unfold Lexicon.load
  cases readTextAs t .tokenTable path with
  | error failure => rfl
  | ok text =>
    cases kind with
    | nonReserved => rfl
    | assignments c =>
      rw [Loading.run_bind_of_ok (Loading.run_liftM (.ok text) l)]
      dsimp only
      cases readAssignments (dropLicense license text.toList) with
      | error fault => rfl
      | ok entries => rfl

theorem Grammar.exists_run_load {t : FileTree} {path : Path} {ps : List Production}
    (h : productionsOfFile t path = .ok ps) (g : Grammar) :
    ∃ report g', (Grammar.load t path).run.run g = (.ok report, g') := by
  rw [Grammar.run_load, h]
  exact ⟨_, _, rfl⟩

theorem Lexicon.exists_run_load {t : FileTree} {license : Option (List Char)} {kind : TableKind}
    {path : Path} {text : String} (htext : readTextAs t .tokenTable path = .ok text)
    (hentries : ∀ c, kind = .assignments c →
      ∃ entries, readAssignments (dropLicense license text.toList) = .ok entries) (l : Lexicon) :
    ∃ report l', (Lexicon.load t license kind path).run.run l = (.ok report, l') := by
  rw [Lexicon.run_load, htext]
  cases kind with
  | nonReserved => exact ⟨_, _, rfl⟩
  | assignments c =>
    obtain ⟨entries, hentries⟩ := hentries c rfl
    dsimp only
    rw [hentries]
    exact ⟨_, _, rfl⟩

/-! ### Directories on the way -/

/-- The directories from one on down to a dialect, with what they list. -/
inductive Layers (t : FileTree) (extension : String) :
    Path → List String → List (Path × Listing) → Prop
  | last {directory : Path} {listing : Listing} :
    Listing.ofDirectory t extension directory = .ok listing →
      Layers t extension directory [] [(directory, listing)]
  | down {directory child : Path} {listing : Listing} {name : String} {names : List String}
    {layers : List (Path × Listing)} :
    Listing.ofDirectory t extension directory = .ok listing →
      listing.directory? name = some child → Layers t extension child names layers →
      Layers t extension directory (name :: names) ((directory, listing) :: layers)

/-- The fragments of directories, in order. -/
def fragmentsOf (layers : List (Path × Listing)) : List Path := layers.flatMap (·.2.fragments)

/-- The token tables of directories, in order. -/
def tablesOf (layers : List (Path × Listing)) : List (TableKind × Path) :=
  layers.flatMap (·.2.tables)

theorem fragmentsOf_append (layers more : List (Path × Listing)) :
    fragmentsOf (layers ++ more) = fragmentsOf layers ++ fragmentsOf more :=
  List.flatMap_append

theorem tablesOf_append (layers more : List (Path × Listing)) :
    tablesOf (layers ++ more) = tablesOf layers ++ tablesOf more :=
  List.flatMap_append

theorem fragmentsOf_singleton (directory : Path) (listing : Listing) :
    fragmentsOf [(directory, listing)] = listing.fragments :=
  List.flatMap_singleton _ _

theorem tablesOf_singleton (directory : Path) (listing : Listing) :
    tablesOf [(directory, listing)] = listing.tables :=
  List.flatMap_singleton _ _

namespace Assembly

variable {t : FileTree} {options : Options} {a a' a'' : Assembly} {directory : Path}
  {layers more : List (Path × Listing)}

/-- All files of the directories can be loaded in order, and the second assembly is what they
make of the first. -/
inductive Gathers (t : FileTree) (options : Options) (layers : List (Path × Listing))
    (a : Assembly) : Assembly → Prop
  | intro {g : Grammar} {l : Lexicon} {fragments : List FragmentReport}
    {tables : List TableReport} :
    Loads a.grammar ((fragmentsOf layers).map (Grammar.load t)) fragments g →
      Loads a.lexicon ((tablesOf layers).map fun (kind, path) =>
        Lexicon.load t options.license kind path) tables l →
      Gathers t options layers a ⟨g, l, a.fragments ++ fragments, a.tables ++ tables⟩

theorem Gathers.append (h : Gathers t options layers a a') (h' : Gathers t options more a' a'') :
    Gathers t options (layers ++ more) a a'' := by
  obtain ⟨hfragments, htables⟩ := h
  obtain ⟨hfragments', htables'⟩ := h'
  rw [List.append_assoc, List.append_assoc]
  apply Gathers.intro
  · rw [fragmentsOf_append, List.map_append]
    exact hfragments.append hfragments'
  · rw [tablesOf_append, List.map_append]
    exact htables.append htables'

theorem Gathers.exists_of_append (h : Gathers t options (layers ++ more) a a'') :
    ∃ a', Gathers t options layers a a' ∧ Gathers t options more a' a'' := by
  obtain ⟨hfragments, htables⟩ := h
  rw [fragmentsOf_append, List.map_append] at hfragments
  rw [tablesOf_append, List.map_append] at htables
  obtain ⟨_, _, _, rfl, hfragments, hfragments'⟩ := hfragments.exists_of_append
  obtain ⟨_, _, _, rfl, htables, htables'⟩ := htables.exists_of_append
  rw [← List.append_assoc, ← List.append_assoc]
  exact ⟨_, .intro hfragments htables, .intro hfragments' htables'⟩

theorem Gathers.exists_of_cons {layer : Path × Listing}
    (h : Gathers t options (layer :: more) a a'') :
    ∃ a', Gathers t options [layer] a a' ∧ Gathers t options more a' a'' :=
  exists_of_append (List.singleton_append ▸ h)

theorem Gathers.unique (h : Gathers t options layers a a') (h' : Gathers t options layers a a'') :
    a' = a'' := by
  obtain ⟨hfragments, htables⟩ := h
  obtain ⟨hfragments', htables'⟩ := h'
  obtain ⟨rfl, rfl⟩ := hfragments.unique hfragments'
  obtain ⟨rfl, rfl⟩ := htables.unique htables'
  rfl

/-- Files that can all be read can be loaded. -/
theorem exists_gathers (hfragments : ∀ path ∈ fragmentsOf layers, ∃ ps,
      productionsOfFile t path = .ok ps)
    (htables : ∀ file ∈ tablesOf layers, ∃ text, readTextAs t .tokenTable file.2 = .ok text ∧
      ∀ c, file.1 = .assignments c →
        ∃ entries, readAssignments (dropLicense options.license text.toList) = .ok entries)
    (a : Assembly) : ∃ a', Gathers t options layers a a' := by
  have hgrammar : ∃ reports g, Loads a.grammar ((fragmentsOf layers).map (Grammar.load t))
      reports g := by
    apply Loads.exists_of_forall
    intro action haction g
    obtain ⟨path, hpath, rfl⟩ := List.mem_map.mp haction
    obtain ⟨ps, hps⟩ := hfragments path hpath
    exact Grammar.exists_run_load hps g
  have hlexicon : ∃ reports l, Loads a.lexicon ((tablesOf layers).map fun (kind, path) =>
      Lexicon.load t options.license kind path) reports l := by
    apply Loads.exists_of_forall
    intro action haction l
    obtain ⟨⟨kind, path⟩, hfile, rfl⟩ := List.mem_map.mp haction
    obtain ⟨text, htext, hentries⟩ := htables _ hfile
    exact Lexicon.exists_run_load htext hentries l
  obtain ⟨fragments, g, hgrammar⟩ := hgrammar
  obtain ⟨tables, l, hlexicon⟩ := hlexicon
  exact ⟨_, .intro hgrammar hlexicon⟩

/-! ### Files of one directory -/

/-- The assembly with another grammar and more reports on fragments. -/
def withGrammar (a : Assembly) (g : Grammar) (reports : List FragmentReport) : Assembly :=
  { a with grammar := g, fragments := a.fragments ++ reports }

/-- The assembly with another lexicon and more reports on tables. -/
def withLexicon (a : Assembly) (l : Lexicon) (reports : List TableReport) : Assembly :=
  { a with lexicon := l, tables := a.tables ++ reports }

theorem addFragment_eq_ok_iff {path : Path} {report : FragmentReport} :
    (addFragment t path).run.run a = (.ok report, a') ↔
      ∃ g, (Grammar.load t path).run.run a.grammar = (.ok report, g) ∧
        a' = a.withGrammar g [report] := by
  have hget : (get : Loading Assembly Assembly).run.run a = (.ok a, a) := rfl
  rw [addFragment, Loading.run_bind_of_ok hget]
  rcases (Grammar.load t path).run.run a.grammar with ⟨failure | report', g⟩
  · constructor
    · rintro ⟨⟩
    · rintro ⟨_, ⟨⟩, _⟩
  · constructor
    · rintro ⟨⟩
      exact ⟨g, rfl, rfl⟩
    · rintro ⟨_, ⟨⟩, rfl⟩
      rfl

theorem addTable_eq_ok_iff {license : Option (List Char)} {kind : TableKind} {path : Path}
    {report : TableReport} :
    (addTable t license kind path).run.run a = (.ok report, a') ↔
      ∃ l, (Lexicon.load t license kind path).run.run a.lexicon = (.ok report, l) ∧
        a' = a.withLexicon l [report] := by
  have hget : (get : Loading Assembly Assembly).run.run a = (.ok a, a) := rfl
  rw [addTable, Loading.run_bind_of_ok hget]
  rcases (Lexicon.load t license kind path).run.run a.lexicon with ⟨failure | report', l⟩
  · constructor
    · rintro ⟨⟩
    · rintro ⟨_, ⟨⟩, _⟩
  · constructor
    · rintro ⟨⟩
      exact ⟨l, rfl, rfl⟩
    · rintro ⟨_, ⟨⟩, rfl⟩
      rfl

/-- Files that are added one after another are loaded one after another into the part of the
assembly that they belong to. -/
theorem adds_eq_ok_iff {ι : Type} {load : ι → Loading σ ρ} {add : ι → Loading Assembly ρ}
    {part : Assembly → σ} {put : Assembly → σ → List ρ → Assembly}
    (hadd : ∀ i a r a', (add i).run.run a = (.ok r, a') ↔
      ∃ s, (load i).run.run (part a) = (.ok r, s) ∧ a' = put a s [r])
    (hself : ∀ a, put a (part a) [] = a) (hpart : ∀ a s rs, part (put a s rs) = s)
    (hput : ∀ a s rs s' rs', put (put a s rs) s' rs' = put a s' (rs ++ rs'))
    {all : List ι → Loading Assembly Unit} (hnil : all [] = pure ())
    (hcons : ∀ i is, all (i :: is) = add i >>= fun _ => all is) {is : List ι} :
    (all is).run.run a = (.ok (), a') ↔
      ∃ rs s, Loads (part a) (is.map load) rs s ∧ a' = put a s rs := by
  induction is generalizing a with
  | nil =>
    rw [hnil]
    constructor
    · rintro ⟨⟩
      exact ⟨[], part a', .nil _, (hself a').symm⟩
    · rintro ⟨rs, s, hloads, rfl⟩
      cases hloads
      rw [hself]
      rfl
  | cons i is ih =>
    -- the first file is put into the assembly before the others are loaded into the same part
    rw [hcons, Loading.run_bind_eq_ok_iff, List.map_cons]
    simp only [hadd, ih]
    constructor
    · rintro ⟨r, _, ⟨s, hload, rfl⟩, rs, s', hloads, rfl⟩
      rw [hpart] at hloads
      exact ⟨r :: rs, s', .cons hload hloads, hput a s [r] s' rs⟩
    · rintro ⟨rs, s', hloads, rfl⟩
      cases hloads with
      | @cons _ s₁ _ _ _ r rs hload hloads =>
        refine ⟨r, _, ⟨s₁, hload, rfl⟩, rs, s', ?_, ?_⟩
        · rw [hpart]
          exact hloads
        · rw [hput, List.singleton_append]

theorem addFragments_eq_ok_iff {paths : List Path} :
    (addFragments t paths).run.run a = (.ok (), a') ↔
      ∃ reports g, Loads a.grammar (paths.map (Grammar.load t)) reports g ∧
        a' = a.withGrammar g reports := by
  apply adds_eq_ok_iff (fun path a r a' => addFragment_eq_ok_iff)
  · intro a
    rw [withGrammar, List.append_nil]
  · intro a g reports
    rfl
  · intro a g reports g' reports'
    simp only [withGrammar, List.append_assoc]
  · rfl
  · intro path paths
    rfl

theorem addTables_eq_ok_iff {license : Option (List Char)} {files : List (TableKind × Path)} :
    (addTables t license files).run.run a = (.ok (), a') ↔
      ∃ reports l, Loads a.lexicon (files.map fun (kind, path) =>
          Lexicon.load t license kind path) reports l ∧ a' = a.withLexicon l reports := by
  apply adds_eq_ok_iff (fun file a r a' => addTable_eq_ok_iff)
  · intro a
    rw [withLexicon, List.append_nil]
  · intro a l reports
    rfl
  · intro a l reports l' reports'
    simp only [withLexicon, List.append_assoc]
  · rfl
  · intro file files
    rfl

/-- Reads the files of a directory, and returns what it lists. -/
def addLayer (t : FileTree) (options : Options) (directory : Path) : Loading Assembly Listing := do
  let listing ← Listing.ofDirectory t options.extension directory
  addFragments t listing.fragments
  addTables t options.license listing.tables
  return listing

theorem addLayers_nil :
    addLayers t options directory [] = addLayer t options directory >>= fun _ => pure () := by
  rw [addLayers, addLayer]
  simp only [bind_assoc, pure_bind]

theorem addLayers_cons {name : String} {names : List String} :
    addLayers t options directory (name :: names) =
      addLayer t options directory >>= fun listing =>
        match listing.directory? name with
        | some child => addLayers t options child names
        | none => throw (.missingDirectory name directory) := by
  rw [addLayers, addLayer, bind_assoc]
  apply bind_congr
  intro listing
  rw [bind_assoc]
  apply bind_congr
  intro _
  rw [bind_assoc]
  apply bind_congr
  intro _
  symm
  exact pure_bind listing _

/-- Reading a directory gathers its files. -/
theorem addLayer_eq_ok_iff {listing : Listing} :
    (addLayer t options directory).run.run a = (.ok listing, a') ↔
      Listing.ofDirectory t options.extension directory = .ok listing ∧
        Gathers t options [(directory, listing)] a a' := by
  simp only [addLayer, Loading.run_bind_eq_ok_iff]
  constructor
  · -- listing, fragments and tables follow one another, and each has to be fine
    rintro ⟨_, _, hlist, _, _, hadds, _, _, hmore, ⟨⟩⟩
    rw [Loading.run_liftM] at hlist
    obtain ⟨hlisted, rfl⟩ := Prod.mk.inj hlist
    obtain ⟨fragments, g, hfragments, rfl⟩ := addFragments_eq_ok_iff.mp hadds
    obtain ⟨tables, l, htables, rfl⟩ := addTables_eq_ok_iff.mp hmore
    rw [← fragmentsOf_singleton directory] at hfragments
    rw [← tablesOf_singleton directory] at htables
    exact ⟨hlisted, .intro hfragments htables⟩
  · rintro ⟨hlisted, ⟨hfragments, htables⟩⟩
    rw [fragmentsOf_singleton] at hfragments
    rw [tablesOf_singleton] at htables
    refine ⟨listing, a, ?_, (), _, addFragments_eq_ok_iff.mpr ⟨_, _, hfragments, rfl⟩, (), _,
      addTables_eq_ok_iff.mpr ⟨_, _, htables, rfl⟩, rfl⟩
    rw [Loading.run_liftM, hlisted]

/-- A walk succeeds when every directory on the way can be listed and has the next one in it, and
all files can be loaded in order. -/
theorem addLayers_eq_ok_iff {names : List String} :
    (addLayers t options directory names).run.run a = (.ok (), a') ↔
      ∃ layers, Layers t options.extension directory names layers ∧
        Gathers t options layers a a' := by
  induction names generalizing directory a with
  | nil =>
    rw [addLayers_nil, Loading.run_bind_eq_ok_iff]
    simp only [addLayer_eq_ok_iff]
    constructor
    · rintro ⟨listing, _, ⟨hlisted, hgathers⟩, ⟨⟩⟩
      exact ⟨_, .last hlisted, hgathers⟩
    · rintro ⟨_, ⟨hlisted⟩, hgathers⟩
      exact ⟨_, a', ⟨hlisted, hgathers⟩, rfl⟩
  | cons name names ih =>
    rw [addLayers_cons, Loading.run_bind_eq_ok_iff]
    simp only [addLayer_eq_ok_iff]
    constructor
    · rintro ⟨listing, a₁, ⟨hlisted, hgathers⟩, hrun⟩
      -- had the directory no child of this name, the walk would have failed
      split at hrun
      next child hchild =>
        obtain ⟨layers, hlayers, hbelow⟩ := ih.mp hrun
        exact ⟨_, .down hlisted hchild hlayers, hgathers.append hbelow⟩
      next => cases hrun
    · rintro ⟨_, hlayers, hgathers⟩
      cases hlayers with
      | down hlisted hchild hlayers =>
        obtain ⟨a₁, hgathers, hbelow⟩ := hgathers.exists_of_cons
        refine ⟨_, a₁, ⟨hlisted, hgathers⟩, ?_⟩
        rw [hchild]
        exact ih.mpr ⟨_, hlayers, hbelow⟩

/-- A walk that fails does not depend on where it would have gone on. -/
theorem addLayers_append_eq_error {names more : List String} {failure : Failure}
    (h : (addLayers t options directory names).run.run a = (.error failure, a')) :
    (addLayers t options directory (names ++ more)).run.run a = (.error failure, a') := by
  induction names generalizing directory a with
  | nil =>
    -- it is the last directory itself that fails, before its children are asked for
    have hlayer : (addLayer t options directory).run.run a = (.error failure, a') := by
      rw [addLayers_nil, Loading.run_bind_eq_error_iff] at h
      rcases h with h | ⟨_, _, _, ⟨⟩⟩
      exact h
    cases more with
    | nil =>
      rw [List.append_nil, addLayers_nil]
      exact Loading.run_bind_of_error hlayer
    | cons name more =>
      rw [List.nil_append, addLayers_cons]
      exact Loading.run_bind_of_error hlayer
  | cons name names ih =>
    rw [addLayers_cons, Loading.run_bind_eq_error_iff] at h
    rw [List.cons_append, addLayers_cons, Loading.run_bind_eq_error_iff]
    -- either this directory fails, or both walks go on from the same child
    refine h.imp_right ?_
    rintro ⟨listing, a₁, hlayer, hrun⟩
    refine ⟨listing, a₁, hlayer, ?_⟩
    split at hrun
    next => exact ih hrun
    next => exact hrun

end Assembly

theorem Layers.unique {t : FileTree} {extension : String} {directory : Path}
    {names : List String} {layers layers' : List (Path × Listing)}
    (h : Layers t extension directory names layers)
    (h' : Layers t extension directory names layers') : layers = layers' := by
  induction h generalizing layers' with
  | last hlisted =>
    cases h' with
    | last hlisted' => rw [Except.ok.inj (hlisted.symm.trans hlisted')]
  | down hlisted hchild _ ih =>
    cases h' with
    | down hlisted' hchild' hlayers' =>
      obtain rfl := Except.ok.inj (hlisted.symm.trans hlisted')
      obtain rfl := Option.some.inj (hchild.symm.trans hchild')
      rw [ih hlayers']

/-- The directories of a way are the first ones of any way that goes on from there. -/
theorem Layers.exists_append {t : FileTree} {extension : String} {directory : Path}
    {names more : List String} {layers all : List (Path × Listing)}
    (h : Layers t extension directory names layers)
    (h' : Layers t extension directory (names ++ more) all) : ∃ rest, all = layers ++ rest := by
  induction h generalizing all with
  | last hlisted =>
    cases h' with
    | last hlisted' =>
      obtain rfl := Except.ok.inj (hlisted.symm.trans hlisted')
      exact ⟨[], rfl⟩
    | down hlisted' _ _ =>
      obtain rfl := Except.ok.inj (hlisted.symm.trans hlisted')
      exact ⟨_, rfl⟩
  | down hlisted hchild _ ih =>
    -- both ways list the same directory and go down to the same child
    cases h' with
    | down hlisted' hchild' hlayers' =>
      obtain rfl := Except.ok.inj (hlisted.symm.trans hlisted')
      obtain rfl := Option.some.inj (hchild.symm.trans hchild')
      obtain ⟨rest, rfl⟩ := ih hlayers'
      exact ⟨rest, rfl⟩

/-! ### Assemblies -/

section
variable {t : FileTree} {options : Options} {root dialect : Path} {a : Assembly}

theorem assemble_of_route {names : List String} (h : route t root dialect = .ok names) :
    assemble t options root dialect =
      match (Assembly.addLayers t options root names).run.run .empty with
      | (.ok (), gathered) => .ok gathered.addNonReserved
      | (.error failure, _) => .error failure := by
  rw [assemble, h]
  rfl

/-- A dialect can be assembled when the way to it can be told and all its files can be loaded. -/
theorem assemble_eq_ok_iff :
    assemble t options root dialect = .ok a ↔
      ∃ names layers gathered, route t root dialect = .ok names ∧
        Layers t options.extension root names layers ∧
        Assembly.Gathers t options layers .empty gathered ∧ a = gathered.addNonReserved := by
  constructor
  · intro h
    cases hroute : route t root dialect with
    | error failure =>
      rw [assemble, hroute] at h
      cases h
    | ok names =>
      rw [assemble_of_route hroute] at h
      split at h
      next gathered hrun =>
        obtain ⟨layers, hlayers, hgathers⟩ := Assembly.addLayers_eq_ok_iff.mp hrun
        exact ⟨names, layers, gathered, rfl, hlayers, hgathers, (Except.ok.inj h).symm⟩
      next => cases h
  · rintro ⟨names, layers, gathered, hroute, hlayers, hgathers, rfl⟩
    rw [assemble_of_route hroute, Assembly.addLayers_eq_ok_iff.mpr ⟨layers, hlayers, hgathers⟩]

/-- A dialect on the way to another one fails as the other one does. -/
theorem assemble_eq_error_of_route_append {dialect' : Path} {names more : List String}
    {failure : Failure} (hroute : route t root dialect = .ok names)
    (hroute' : route t root dialect' = .ok (names ++ more))
    (h : assemble t options root dialect = .error failure) :
    assemble t options root dialect' = .error failure := by
  rw [assemble_of_route hroute] at h
  split at h
  next => cases h
  next gathered hrun =>
    obtain rfl := Except.error.inj h
    rw [assemble_of_route hroute', Assembly.addLayers_append_eq_error hrun]

end

end GrammarLayers
