import GrammarLayers.Proofs.Layer.Visits
import GrammarLayers.Proofs.Tree.Spelling

/-!
# The way from the root to a dialect

If a dialect continues the path of the root, the way from the one to the other is read off their
parts, whatever there is in the tree. Otherwise it is read off the places that the two paths lead
to, and there is none if the one place does not lie inside of the other. In both cases, going this
way from the root leads to the dialect.

## Main definitions

* `Component.isUnsupported`, `Component.name?` — what may not and what may be part of the way
* `Leads` — the way that is found for a root and a dialect

## Main results

* `namesOf_eq` — the names among parts of a path
* `route_of_components`, `route_eq_ok_iff` — both ways in which a way is found
* `resolve_extend_iff` — where the way leads
* `route_beside` — a directory beside the root is not inside of it
* `route_leads` — the way that is found
-/

namespace GrammarLayers

/-- What cannot be part of a way down. -/
def Component.isUnsupported : Component → Bool
  | .root | .parent => true
  | .current | .name _ => false

/-- The name that a part of a path is. -/
def Component.name? : Component → Option String
  | .name n => some n
  | _ => none

variable {t : FileTree} {root dialect : Path} {rest : List Component} {names : List String}

/-! ### The names on the way -/

theorem namesOf_eq (root dialect : Path) (components : List Component) :
    namesOf root dialect components =
      match components.find? Component.isUnsupported with
      | some component => .error (.unsupportedComponent component root dialect)
      | none => .ok (components.filterMap Component.name?) := by
  induction components with
  | nil => rfl
  | cons component components ih =>
    cases component with
    | root | parent => rfl
    | current => exact ih
    | name name =>
      rw [namesOf, ih, List.find?_cons_of_neg (by simp [Component.isUnsupported])]
      cases components.find? Component.isUnsupported <;> rfl

theorem namesOf_map_name (root dialect : Path) (names : List String) :
    namesOf root dialect (names.map .name) = .ok names := by
  induction names with
  | nil => rfl
  | cons name names ih =>
    rw [List.map_cons, namesOf, ih]
    rfl

/-- Where the dialect continues the path of the root, the tree does not matter. -/
theorem route_of_components (h : dialect.components = root.components ++ rest) :
    route t root dialect = namesOf root dialect rest := by
  have hbelow : root.below? dialect = some rest := by
    rw [Path.below?, if_pos]
    · rw [h, List.drop_left]
    · rw [List.isPrefixOf_iff_prefix, h]
      exact List.prefix_append _ _
  rw [route, componentsBelow, hbelow]
  rfl

/-- Where it does not, the places that the two paths lead to do. -/
theorem route_of_places (h : ¬ root.components <+: dialect.components) :
    (∃ top names, t.canonical? root = some top ∧ t.canonical? dialect = some (top ++ names) ∧
        route t root dialect = .ok names) ∨
      (∀ top names, t.canonical? root = some top → t.canonical? dialect ≠ some (top ++ names)) ∧
        route t root dialect = .error (.notInside root dialect) := by
  have hbelow : root.below? dialect = none := by
    rw [Path.below?, if_neg]
    rwa [List.isPrefixOf_iff_prefix]
  rw [route, componentsBelow, hbelow]
  -- only the places are left to go by
  cases htop : t.canonical? root with
  | none => exact .inr ⟨by rintro _ _ ⟨⟩, rfl⟩
  | some top =>
    cases hbottom : t.canonical? dialect with
    | none => exact .inr ⟨by rintro _ _ - ⟨⟩, rfl⟩
    | some bottom =>
      dsimp only
      split
      next hprefix =>
        obtain ⟨names, rfl⟩ := List.isPrefixOf_iff_prefix.mp hprefix
        refine .inl ⟨top, names, rfl, rfl, ?_⟩
        rw [List.drop_left]
        exact namesOf_map_name root dialect names
      next hprefix =>
        refine .inr ⟨?_, rfl⟩
        rintro _ names ⟨⟩ heq
        exact hprefix (List.isPrefixOf_iff_prefix.mpr ⟨names, (Option.some.inj heq).symm⟩)

theorem route_eq_ok_iff (h : ¬ root.components <+: dialect.components) (names : List String) :
    route t root dialect = .ok names ↔
      ∃ top, t.canonical? root = some top ∧ t.canonical? dialect = some (top ++ names) := by
  rcases route_of_places (t := t) h with ⟨top, names', htop, hbottom, hok⟩ | ⟨hnone, herror⟩
  · rw [htop, hbottom, hok]
    simp [eq_comm]
  · rw [herror]
    refine iff_of_false (by rintro ⟨⟩) ?_
    rintro ⟨top, htop, hbottom⟩
    exact hnone top names htop hbottom

/-! ### Where the way leads -/

/-- Names that follow a place with nothing but a directory at it lead on from this directory. -/
theorem exists_directory_of_at?_append {d : Directory} {place : Place} {name : String}
    {entry : Entry} (h : d.at? (place ++ name :: names) = some entry) :
    ∃ entries, d.at? place = some (.directory entries) := by
  induction place generalizing d with
  | nil => exact ⟨d, rfl⟩
  | cons first place ih =>
    cases place with
    | nil =>
      obtain ⟨entries, hlookup, -⟩ := Directory.exists_of_at?_cons h
      exact ⟨entries, hlookup⟩
    | cons next place =>
      obtain ⟨inner, hlookup, hinner⟩ := Directory.exists_of_at?_cons h
      obtain ⟨entries, hentries⟩ := ih hinner
      refine ⟨entries, ?_⟩
      change (d.below first).at? (next :: place) = _
      rw [Directory.below_of_lookup hlookup, hentries]

/-- The names among parts that can be gone down are all there is but single dots. -/
theorem map_name_filterMap_name? {components : List Component}
    (h : components.find? Component.isUnsupported = none) :
    (components.filterMap Component.name?).map .name = components.filter (· != .current) := by
  induction components with
  | nil => rfl
  | cons component components ih =>
    rw [List.find?_eq_none, List.forall_mem_cons, ← List.find?_eq_none] at h
    obtain ⟨hsupported, h⟩ := h
    cases component with
    | root | parent => exact absurd rfl hsupported
    | current => exact ih h
    | name name => exact congrArg (Component.name name :: ·) (ih h)

/-- The parts of the dialect without single dots are those of the root with the names after
them. -/
theorem filter_components_extend (h : dialect.components = root.components ++ rest)
    (hroute : route t root dialect = .ok names) :
    (root.extend names).components.filter (· != .current) =
      dialect.components.filter (· != .current) := by
  rw [route_of_components h, namesOf_eq] at hroute
  split at hroute
  next => cases hroute
  next hfind =>
    obtain rfl := Except.ok.inj hroute
    -- the components are names, but for those that stay where they are
    have hmap := map_name_filterMap_name? hfind
    have hnames : ∀ name ∈ rest.filterMap Component.name?, IsName name := by
      intro name hname
      have hmem : .name name ∈ (rest.filterMap Component.name?).map Component.name :=
        List.mem_map_of_mem hname
      rw [hmap] at hmem
      have hrest := List.mem_append_right root.components (List.mem_filter.mp hmem).1
      exact Path.isName_of_mem_components (h ▸ hrest)
    rw [Path.components_extend hnames, hmap, h, List.filter_append, List.filter_append,
      List.filter_filter]
    simp

theorem filterMap_ofComponent?_filter (components : List Component) :
    (components.filter (· != .current)).filterMap Step.ofComponent? =
      components.filterMap Step.ofComponent? := by
  induction components with
  | nil => rfl
  | cons component components ih =>
    cases component with
    | root | current => exact ih
    | parent => exact congrArg (Step.up :: ·) ih
    | name name => exact congrArg (Step.down name :: ·) ih

namespace FileTree

variable {p : Path} {place : Place}

theorem exists_resolve_of_canonical? (h : t.canonical? p = some place) :
    ∃ entry, t.resolve .look p = .ok ⟨place, some entry⟩ := by
  unfold canonical? at h
  split at h
  next entry _ hresolve =>
    obtain rfl := Option.some.inj h
    exact ⟨entry, (Spot.walks_of_walk_eq_ok hresolve).walk_eq⟩
  next => cases h

/-- A directory is found under the names that lead to it from another one. -/
theorem HasWorkingDirectory.resolve_extend (hw : t.HasWorkingDirectory) {top : Place}
    {first last : Entry} (hp : t.resolve .look p = .ok ⟨top, some first⟩)
    (hlast : t.entry? (top ++ names) = some last) (hlink : ∀ target, last ≠ .link target)
    (hsize : ∀ name ∈ names, name.utf8ByteSize ≤ nameLimit) (hnames : ∀ name ∈ names, IsName name) :
    t.resolve .look (p.extend names) = .ok ⟨top ++ names, some last⟩ := by
  -- only without names may the path keep a slash at its end
  by_cases hne : names = []
  · subst hne
    have hentry := hw.entry?_eq hp
    rw [List.append_nil] at hlast ⊢
    rw [hlast] at hentry
    rw [hentry]
    exact hp
  · obtain ⟨name, more, rfl⟩ := List.exists_cons_of_ne_nil hne
    obtain ⟨entries, hentries⟩ := exists_directory_of_at?_append hlast
    have hfirst : first = .directory entries :=
      Option.some.inj ((hw.entry?_eq hp).symm.trans hentries)
    obtain ⟨left, stop, rfl, rfl, hmore⟩ :=
      (walks_steps hp).exists_directory (congrArg some hfirst)
    have hat : stop.here.at? (name :: more) = some last :=
      (Directory.at?_append hentries _).symm.trans hlast
    rw [resolve, start_extend hnames, Path.allSteps_extend hnames hne, hmore]
    exact Spot.walk_of_at? hat hlink hsize

end FileTree

/-- Going the way that is found from the root leads to the dialect. -/
theorem resolve_extend_iff (ht : t.WellNamed) (hw : t.HasWorkingDirectory)
    (hroute : route t root dialect = .ok names) {place : Place} {entries : Directory} :
    t.resolve .look (root.extend names) = .ok ⟨place, some (.directory entries)⟩ ↔
      t.resolve .look dialect = .ok ⟨place, some (.directory entries)⟩ := by
  have hnames := isName_of_route ht hroute
  by_cases hprefix : root.components <+: dialect.components
  · -- the two paths have the same steps, whether or not they lead anywhere
    obtain ⟨rest, hrest⟩ := hprefix
    have hfilter := filter_components_extend hrest.symm hroute
    apply FileTree.resolve_directory_iff
    · rw [← filterMap_ofComponent?_filter, hfilter, filterMap_ofComponent?_filter]
    · have hroot : ∀ components : List Component,
          .root ∈ components ↔ .root ∈ components.filter (· != .current) := by simp
      rw [hroot, hfilter, ← hroot]
  · -- there is a place that the dialect leads to, and it lies below the one of the root
    obtain ⟨top, htop, hbottom⟩ := (route_eq_ok_iff hprefix names).mp hroute
    obtain ⟨first, hfirst⟩ := FileTree.exists_resolve_of_canonical? htop
    obtain ⟨last, hlast⟩ := FileTree.exists_resolve_of_canonical? hbottom
    have hsame : t.resolve .look (root.extend names) = .ok ⟨top ++ names, some last⟩ := by
      refine hw.resolve_extend hfirst (hw.entry?_eq hlast) ?_ ?_ hnames
      · exact fun target heq =>
          (Spot.walks_of_walk_eq_ok hlast).entry?_ne_link target (congrArg some heq)
      · exact fun name hname =>
          hw.size_le_place hlast name (List.mem_append_right top hname)
    rw [hsame, hlast]

/-! ### Directories beside the root -/

/-- A walk along names that are none of links leads to the place that they say. -/
theorem Spot.Walks.place_eq {links : Nat} {s : Spot} {target : Target}
    (h : Walks links s (names.map .down) target)
    (hlinks : ∀ before, before <+: names → ∀ path, s.here.at? before ≠ some (.link path)) :
    target.place = s.place ++ names := by
  induction names generalizing s with
  | nil =>
    cases h
    exact (List.append_nil _).symm
  | cons name names ih =>
    rw [List.map_cons] at h
    -- the steps that follow must be a variable for the cases of the walk
    generalize hsteps : names.map Step.down = steps at h
    cases h with
    | absent | file =>
      obtain rfl := List.map_eq_nil_iff.mp hsteps
      rfl
    | directory _ hlookup hrest =>
      rw [← hsteps] at hrest
      rw [ih hrest, place_down, List.append_assoc, List.singleton_append]
      intro before hbefore path
      cases before with
      | nil => exact fun heq => Entry.noConfusion (Option.some.inj heq)
      | cons next before =>
        exact hlinks (name :: next :: before) (List.cons_prefix_cons.mpr ⟨rfl, hbefore⟩) path
    | link _ hlookup _ =>
      have hfirst : [name] <+: name :: names := List.cons_prefix_cons.mpr ⟨rfl, List.nil_prefix⟩
      exact absurd hlookup (hlinks [name] hfirst _)

theorem FileTree.place_eq_of_canonical?_extend {parent : Path} {place place' : Place}
    {entries : Directory}
    (hparent : t.resolve .look parent = .ok ⟨place, some (.directory entries)⟩)
    (hnames : ∀ name ∈ names, IsName name)
    (hlinks : ∀ before, before <+: names → ∀ path,
      Directory.at? entries before ≠ some (.link path))
    (h : t.canonical? (parent.extend names) = some place') : place' = place ++ names := by
  obtain ⟨entry, hresolve⟩ := exists_resolve_of_canonical? h
  by_cases hne : names = []
  · subst hne
    rw [List.append_nil]
    exact (congrArg Target.place (Except.ok.inj (hparent.symm.trans hresolve))).symm
  · obtain ⟨left, stop, rfl, rfl, hmore⟩ := (walks_steps hparent).exists_directory rfl
    rw [resolve, start_extend hnames, Path.allSteps_extend hnames hne, hmore] at hresolve
    exact (Spot.walks_of_walk_eq_ok hresolve).place_eq hlinks

/-- A directory beside the root does not lie inside of it, and neither does what can be reached
from there without links, whether or not its name starts with the name of the root. -/
theorem route_beside {parent : Path} {place : Place} {entries : Directory} {name other : String}
    {more : List String}
    (hparent : t.resolve .look parent = .ok ⟨place, some (.directory entries)⟩)
    (hname : IsName name) (hother : ∀ next ∈ other :: more, IsName next) (hne : name ≠ other)
    (hlink : ∀ path, entries.lookup name ≠ some (.link path))
    (hlinks : ∀ before, before <+: other :: more → ∀ path,
      Directory.at? entries before ≠ some (.link path)) :
    route t (parent.extend [name]) (parent.extend (other :: more)) =
      .error (.notInside (parent.extend [name]) (parent.extend (other :: more))) := by
  have hroot : ∀ next ∈ [name], IsName next := by simpa using hname
  have hprefix : ¬ (parent.extend [name]).components <+:
      (parent.extend (other :: more)).components := by
    rw [Path.components_extend hroot, Path.components_extend hother, List.prefix_append_right_inj]
    intro hprefix
    exact hne (Component.name.inj (List.cons_prefix_cons.mp hprefix).1)
  rcases route_of_places (t := t) hprefix with ⟨top, names, htop, hbottom, -⟩ | ⟨-, herror⟩
  · have hlink' : ∀ before, before <+: [name] → ∀ path,
        Directory.at? entries before ≠ some (.link path) := by
      intro before hbefore path
      cases before with
      | nil => exact fun heq => Entry.noConfusion (Option.some.inj heq)
      | cons next before =>
        obtain ⟨rfl, hnil⟩ := List.cons_prefix_cons.mp hbefore
        obtain rfl := List.prefix_nil.mp hnil
        exact hlink path
    -- without links, both places are spelled out by the paths
    obtain rfl := FileTree.place_eq_of_canonical?_extend hparent hroot hlink' htop
    have hplace := FileTree.place_eq_of_canonical?_extend hparent hother hlinks hbottom
    rw [List.append_assoc, List.append_cancel_left_eq] at hplace
    exact absurd (List.cons.inj hplace).1 hne
  · exact herror

/-! ### The way that is found -/

/-- The way from a root to a dialect, as it is found in a tree. -/
structure Leads (t : FileTree) (root dialect : Path) : Prop where
  /-- Where the dialect continues the path of the root, it is made of all names that follow, and
  nothing else than names and single dots may follow. -/
  of_components : ∀ rest, dialect.components = root.components ++ rest →
    route t root dialect =
      match rest.find? Component.isUnsupported with
      | some component => .error (.unsupportedComponent component root dialect)
      | none => .ok (rest.filterMap Component.name?)
  /-- Then it is the same however the paths are spelled, and in any tree. -/
  of_spelling : root.components <+: dialect.components → ∀ (t' : FileTree) (root' dialect' : Path),
    Relation.EqvGen Path.Respells root.text.toList root'.text.toList →
    Relation.EqvGen Path.Respells dialect.text.toList dialect'.text.toList →
    ∀ names, route t' root' dialect' = .ok names ↔ route t root dialect = .ok names
  /-- Otherwise it is read off the places that the two paths lead to. -/
  of_places : ¬ root.components <+: dialect.components →
    (∀ names, route t root dialect = .ok names ↔
      ∃ top, t.canonical? root = some top ∧ t.canonical? dialect = some (top ++ names)) ∧
    ((∀ names, route t root dialect ≠ .ok names) →
      route t root dialect = .error (.notInside root dialect))
  isName : ∀ names, route t root dialect = .ok names → ∀ name ∈ names, IsName name
  /-- The root continued by the names is another spelling of the dialect, -/
  same_parts : ∀ names, root.components <+: dialect.components →
    route t root dialect = .ok names →
      (root.extend names).components.filter (· != .current) =
        dialect.components.filter (· != .current)
  /-- or in any case leads to the same directory. -/
  same_directory : ∀ names, route t root dialect = .ok names → ∀ place entries,
    t.resolve .look (root.extend names) = .ok ⟨place, some (.directory entries)⟩ ↔
      t.resolve .look dialect = .ok ⟨place, some (.directory entries)⟩
  /-- What lies beside the root is not inside of it. -/
  beside : ∀ (parent : Path) (place : Place) (entries : Directory) (name other : String)
    (more : List String), root = parent.extend [name] → dialect = parent.extend (other :: more) →
    IsName name → (∀ next ∈ other :: more, IsName next) → name ≠ other →
    t.resolve .look parent = .ok ⟨place, some (.directory entries)⟩ →
    (∀ path, entries.lookup name ≠ some (.link path)) →
    (∀ before, before <+: other :: more → ∀ path,
      Directory.at? entries before ≠ some (.link path)) →
    route t root dialect = .error (.notInside root dialect)

/-- The way from a root to a dialect is read off their parts where the one continues the other,
and otherwise off the places that they lead to. It leads from the root to the dialect. -/
theorem route_leads (t : FileTree) (ht : t.WellNamed) (hw : t.HasWorkingDirectory)
    (root dialect : Path) : Leads t root dialect where
  of_components rest h := by
    rw [route_of_components h, namesOf_eq]
  of_spelling hprefix t' root' dialect' hroot hdialect names := by
    obtain ⟨rest, hrest⟩ := hprefix
    have hrest' : dialect'.components = root'.components ++ rest := by
      rw [← Path.components_eq_of_eqvGen hroot, ← Path.components_eq_of_eqvGen hdialect, hrest]
    rw [route_of_components hrest.symm, route_of_components hrest', namesOf_eq, namesOf_eq]
    cases rest.find? Component.isUnsupported with
    | none => exact Iff.rfl
    | some component => exact iff_of_false (by rintro ⟨⟩) (by rintro ⟨⟩)
  of_places hprefix := by
    refine ⟨route_eq_ok_iff hprefix, fun hnone => ?_⟩
    rcases route_of_places (t := t) hprefix with ⟨top, names, -, -, hok⟩ | ⟨-, herror⟩
    · exact absurd hok (hnone names)
    · exact herror
  isName names := isName_of_route ht
  same_parts names hprefix hroute := by
    obtain ⟨rest, hrest⟩ := hprefix
    exact filter_components_extend hrest.symm hroute
  same_directory names hroute place entries := resolve_extend_iff ht hw hroute
  beside parent place entries name other more hroot hdialect hname hother hne hparent hlink
      hlinks := by
    subst hroot hdialect
    exact route_beside hparent hname hother hne hlink hlinks

theorem sampleTree_hasWorkingDirectory : sampleTree.HasWorkingDirectory where
  exists_entries := ⟨sampleTree.top, rfl⟩
  size_le := fun _ hname => absurd hname List.not_mem_nil

/-- Slashes and dots that make no part do not matter, and a name that starts with another one is
not this name. -/
theorem route_leads_sample :
    route sampleTree ⟨"/g/"⟩ ⟨"/g/.//d/"⟩ = .ok ["d"] ∧
      (sampleTree.resolve .look (.extend ⟨"/g/"⟩ ["d"]) =
          .ok ⟨["g", "d"], some (.directory sampleBelow)⟩ ↔
        sampleTree.resolve .look ⟨"/g/.//d/"⟩ =
          .ok ⟨["g", "d"], some (.directory sampleBelow)⟩) ∧
      route sampleTree ⟨"/g/d"⟩ ⟨"/g/da/x"⟩ = .error (.notInside ⟨"/g/d"⟩ ⟨"/g/da/x"⟩) := by
  have hleads := route_leads sampleTree sampleTree_wellNamed sampleTree_hasWorkingDirectory
  have hroute : route sampleTree ⟨"/g/"⟩ ⟨"/g/.//d/"⟩ = .ok ["d"] :=
    (hleads ⟨"/g/"⟩ ⟨"/g/.//d/"⟩).of_components [.name "d"] (by decide)
  have hparent : sampleTree.resolve .look ⟨"/g"⟩ =
      .ok ⟨["g"], some (.directory sampleDirectory)⟩ := by
    have hsteps : (⟨"/g"⟩ : Path).allSteps = ["g"].map .down := by decide
    rw [FileTree.resolve, hsteps]
    exact Spot.walk_of_at? (s := ⟨sampleTree.top, []⟩) rfl (fun _ => Entry.noConfusion)
      (by decide)
  -- nothing on the way to it is a link
  have hlinks : ∀ before, before <+: ["da", "x"] → ∀ path,
      Directory.at? sampleDirectory before ≠ some (.link path) := by
    intro before hbefore path
    rw [← List.mem_inits] at hbefore
    simp only [List.inits, List.map_cons, List.map_nil, List.mem_cons, List.not_mem_nil,
      or_false] at hbefore
    rcases hbefore with rfl | rfl | rfl
    · exact fun heq => Entry.noConfusion (Option.some.inj heq)
    · rintro ⟨⟩
    · rintro ⟨⟩
  refine ⟨hroute, (hleads _ _).same_directory _ hroute _ _, ?_⟩
  refine (hleads _ _).beside ⟨"/g"⟩ ["g"] sampleDirectory "d" "da" ["x"] (by decide)
    (by decide) (by decide) (by decide) (by decide) hparent ?_ hlinks
  exact fun path heq => Entry.noConfusion (Option.some.inj heq)

end GrammarLayers
