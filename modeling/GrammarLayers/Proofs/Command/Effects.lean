import GrammarLayers.Command.Session
import GrammarLayers.Proofs.Layer.Provenance
import GrammarLayers.Proofs.Tree.Changing

/-!
# What a command leaves behind

A command goes to work in two steps: first it reads everything, and only then it prints or writes
what it has made of it. Reading a grammar changes nothing but the status lines, so that a command
that fails has printed nothing and touched no file, and one that succeeds has had the one effect
that it is for.

## Main definitions

* `FileTree.GainsFile` — a path leads to a file, and all other files are as before
* `Console.Keeps` — what of a session an action leaves as it is
* `assembled` — what a command reads, without the status lines
* `Assembled.path`, `Assembled.content` — the generated file
* `Command.Leaves` — the outcome of a command, and what it may leave behind

## Main results

* `writeGenerated_cases` — a file is written, or no file is touched
* `assembleFor_run` — assembling a grammar only adds status lines
* `onlyPrints_runExtract`, `onlyPrints_runList` — commands that do not touch the tree
* `runGenerate_cases` — the command that writes a file
* `Invocation.run_leaves` — what a command leaves behind
-/

namespace GrammarLayers

/-! ### Writing the generated file -/

/-- The path leads to this file in the second tree, and all other files there are those of the
first tree. -/
def FileTree.GainsFile (t : FileTree) (p : Path) (bytes : ByteArray) (t' : FileTree) : Prop :=
  ∃ place, t'.stat p = .ok (place, .file bytes) ∧
    ∀ other ≠ place, ∀ found,
      t'.entry? other = some (.file found) ↔ t.entry? other = some (.file found)

section Generated

variable {t t' : FileTree}

/-- Writing in a tree that still has the files of an earlier one. -/
theorem adapt_write_cases (hw : t.HasWorkingDirectory) (hkeeps : t.KeepsFiles t')
    (f : SystemError → Failure) (p : Path) (bytes : ByteArray) :
    (∃ failure t'', ((FileTree.write p bytes).adapt f).run.run t' = (.error failure, t'') ∧
        t.KeepsFiles t'') ∨
      ∃ t'', ((FileTree.write p bytes).adapt f).run.run t' = (.ok (), t'') ∧
        t.GainsFile p bytes t'' := by
  rw [TreeAction.run_adapt]
  rcases FileTree.write_eq (hkeeps.hasWorkingDirectory hw) p bytes with
    ⟨cause, hrun⟩ | ⟨place, t'', hrun, hwrites, hstat⟩
  · rw [hrun]
    exact .inl ⟨f cause, t', rfl, hkeeps⟩
  · rw [hrun]
    -- the tree just before had the files of the first one, whatever directories were made since
    refine .inr ⟨t'', rfl, place, hstat, fun other hne found => ?_⟩
    rw [hwrites.file_iff hne, hkeeps.file_iff]

/-- Either the file is written, or no file is touched. -/
theorem writeGenerated_cases (hw : t.HasWorkingDirectory) (path : Path) (content : String) :
    (∃ failure t', (writeGenerated path content).run.run t = (.error failure, t') ∧
        t.KeepsFiles t') ∨
      ∃ t', (writeGenerated path content).run.run t = (.ok (), t') ∧
        t.GainsFile path content.toUTF8 t' := by
  rw [writeGenerated]
  split
  next parent _ =>
    split
    next => exact adapt_write_cases hw (.refl t) _ path content.toUTF8
    next =>
      -- some directories may have been made when making one of them fails
      have hkeeps := FileTree.keepsFiles_createDirectories hw parent
      rw [ExceptT.run_bind, StateT.run_bind, TreeAction.run_adapt]
      rcases hrun : (FileTree.createDirectories parent).run.run t with ⟨cause | _, t'⟩
      · rw [hrun] at hkeeps
        exact .inl ⟨_, t', rfl, hkeeps⟩
      · rw [hrun] at hkeeps
        exact adapt_write_cases hw hkeeps _ path content.toUTF8
  next => exact adapt_write_cases hw (.refl t) _ path content.toUTF8

end Generated

/-! ### Printing -/

/-- What of a session is more than status lines. -/
def Session.effect (s : Session) : FileTree × String := (s.tree, s.output)

namespace Console

variable {α β γ : Type} {part : Session → γ} {x : Console α} {f : α → Console β}

theorem run_get_bind (f : Session → Console β) (s : Session) :
    (get >>= f : Console β).run.run s = (f s).run.run s := rfl

theorem run_ok_bind (a : α) (f : α → Console β) (s : Session) :
    ((liftM (Except.ok a : Except Failure α) : Console α) >>= f).run.run s = (f a).run.run s := rfl

/-- An action that succeeds, and after which this part of the session is as before. -/
def Keeps (part : Session → γ) (x : Console α) : Prop :=
  ∀ s, ∃ a s', x.run.run s = (.ok a, s') ∧ part s' = part s

theorem Keeps.pure (part : Session → γ) (a : α) : Keeps part (pure a) := fun s => ⟨a, s, rfl, rfl⟩

theorem Keeps.bind (hx : Keeps part x) (hf : ∀ a, Keeps part (f a)) : Keeps part (x >>= f) := by
  intro s
  obtain ⟨a, s', hrun, hpart⟩ := hx s
  obtain ⟨b, s'', hrun', hpart'⟩ := hf a s'
  exact ⟨b, s'', (Loading.run_bind_of_ok hrun).trans hrun', hpart'.trans hpart⟩

theorem Keeps.forM {ι : Type} {action : ι → Console Unit} (items : List ι)
    (h : ∀ item, Keeps part (action item)) : Keeps part (items.forM action) := by
  induction items with
  | nil => exact .pure part ()
  | cons item items ih => exact (h item).bind fun _ => ih

theorem Keeps.tree (h : Keeps Session.effect x) : Keeps Session.tree x := by
  intro s
  obtain ⟨a, s', hrun, heffect⟩ := h s
  exact ⟨a, s', hrun, congrArg Prod.fst heffect⟩

/-- If an action keeps all but the status lines, these are all that it changes. -/
theorem Keeps.exists_errors (h : Keeps Session.effect x) (s : Session) :
    ∃ a errors, x.run.run s = (.ok a, { s with errors }) := by
  obtain ⟨a, ⟨tree, output, errors⟩, hrun, heffect⟩ := h s
  obtain ⟨rfl, rfl⟩ := Prod.mk.inj heffect
  exact ⟨a, errors, hrun⟩

theorem keeps_report (quiet : Bool) (verb message : String) :
    Keeps Session.effect (report quiet verb message) := by
  cases quiet with
  | true => exact .pure _ ()
  | false => exact fun s => ⟨(), { s with errors := s.errors ++ statusLine verb message }, rfl, rfl⟩

theorem keeps_shown (path : Path) : Keeps Session.effect (shown path) :=
  fun s => ⟨pathFromHere s.tree path, s, rfl, rfl⟩

theorem keeps_reportFile (quiet : Bool) (path : Path) (count : String)
    (overridden : List String) : Keeps Session.effect (reportFile quiet path count overridden) := by
  refine (keeps_shown path).bind fun _ => (keeps_report quiet _ _).bind fun _ => ?_
  exact .forM overridden fun name => keeps_report quiet _ name

theorem keeps_reportAssembly (quiet : Bool) (extension : String) (a : Assembly) :
    Keeps Session.effect (reportAssembly quiet extension a) := by
  refine .bind (.forM _ fun _ => keeps_reportFile quiet _ _ _) fun _ => ?_
  refine .bind (.forM _ fun _ => keeps_reportFile quiet _ _ _) fun _ => ?_
  refine .bind (.forM _ fun _ => keeps_report quiet _ _) fun _ => ?_
  split
  next => exact keeps_report quiet _ _
  next => exact .pure _ ()

theorem keeps_printOut (text : String) : Keeps Session.tree (printOut text) :=
  fun s => ⟨(), { s with output := s.output ++ text }, rfl, rfl⟩

theorem keeps_printLines (origins : Bool) (lines : List (String × Option Path)) :
    Keeps Session.tree (printLines origins lines) := by
  refine .forM lines fun (text, origin) => ?_
  dsimp only
  split
  next path =>
    split
    next => exact (keeps_shown path).tree.bind fun _ => keeps_printOut _
    next => exact keeps_printOut _
  next => exact keeps_printOut _

theorem keeps_listProductions (quiet origins sort : Bool) (a : Assembly) :
    Keeps Session.tree (listProductions quiet origins sort a) :=
  (keeps_printLines origins _).bind fun _ => (keeps_report quiet _ _).tree

theorem keeps_listTokens (quiet origins sort : Bool) (a : Assembly) :
    Keeps Session.tree (listTokens quiet origins sort a) :=
  (keeps_printLines origins _).bind fun _ => (keeps_report quiet _ _).tree

end Console

/-! ### Assembling -/

theorem Failure.ok_bind {α β : Type} (a : α) (f : α → Except Failure β) :
    Except.ok a >>= f = f a := rfl

/-- What a command reads: its settings and the license header, and what is assembled under these. -/
def assembled (t : FileTree) (g : GrammarArguments) : Except Failure Assembled := do
  let (manifest, license) ← g.settings t
  g.assembleUnder t manifest license

/-- Assembling the grammar of a command only adds status lines. -/
theorem assembleFor_run (quiet : Bool) (g : GrammarArguments) (s : Session) :
    ∃ errors, (assembleFor quiet g).run.run s = (assembled s.tree g, { s with errors }) := by
  rw [assembleFor, assembled, Console.run_get_bind]
  dsimp only
  rcases g.settings s.tree with failure | ⟨manifest, license⟩
  · exact ⟨s.errors, rfl⟩
  -- reports leave the tree of `s` to be read from
  obtain ⟨path, errors, hshown⟩ := (Console.keeps_shown g.dialect).exists_errors s
  obtain ⟨_, errors', hreport⟩ :=
    (Console.keeps_report quiet "Extracting" path).exists_errors { s with errors }
  rw [Console.run_ok_bind, Failure.ok_bind]
  dsimp only
  rw [Loading.run_bind_of_ok hshown, Loading.run_bind_of_ok hreport]
  rcases g.assembleUnder s.tree manifest license with failure | a
  · exact ⟨errors', rfl⟩
  rw [Console.run_ok_bind]
  obtain ⟨_, errors'', hassembly⟩ :=
    (Console.keeps_reportAssembly quiet manifest.extension a.assembly).exists_errors
      { s with errors := errors' }
  exact ⟨errors'', Loading.run_bind_of_ok hassembly⟩

section Commands

variable {α : Type}

/-- What comes after assembling is only done if that succeeds. -/
theorem assembleFor_bind_cases (quiet : Bool) (g : GrammarArguments) (f : Assembled → Console α)
    (s : Session) :
    (∃ failure errors, assembled s.tree g = .error failure ∧
        (assembleFor quiet g >>= f).run.run s = (.error failure, { s with errors })) ∨
      ∃ a errors, assembled s.tree g = .ok a ∧
        (assembleFor quiet g >>= f).run.run s = (f a).run.run { s with errors } := by
  obtain ⟨errors, hrun⟩ := assembleFor_run quiet g s
  rcases hassembled : assembled s.tree g with failure | a
  · exact .inl ⟨failure, errors, rfl, Loading.run_bind_of_error (hassembled ▸ hrun)⟩
  · exact .inr ⟨a, errors, rfl, Loading.run_bind_of_ok (hassembled ▸ hrun)⟩

/-! ### Commands that print -/

/-- Fails if the grammar cannot be assembled, with nothing but status lines, and otherwise leaves
the tree as it is. -/
def Console.OnlyPrints (g : GrammarArguments) (x : Console Unit) : Prop :=
  ∀ s, (∃ failure errors, assembled s.tree g = .error failure ∧
      x.run.run s = (.error failure, { s with errors })) ∨
    ∃ a s', assembled s.tree g = .ok a ∧ x.run.run s = (.ok (), s') ∧ s'.tree = s.tree

theorem onlyPrints_assembleFor_bind (quiet : Bool) (g : GrammarArguments)
    {f : Assembled → Console Unit} (hf : ∀ a, Console.Keeps Session.tree (f a)) :
    (assembleFor quiet g >>= f).OnlyPrints g := by
  intro s
  rcases assembleFor_bind_cases quiet g f s with hfails | ⟨a, errors, hassembled, hrun⟩
  · exact .inl hfails
  · -- what prints does not fail
    obtain ⟨_, s', hrun', htree⟩ := hf a { s with errors }
    exact .inr ⟨a, s', hassembled, hrun.trans hrun', htree⟩

theorem onlyPrints_runExtract (quiet : Bool) (g : GrammarArguments) (json : Bool) :
    (runExtract quiet g json).OnlyPrints g := by
  refine onlyPrints_assembleFor_bind quiet g fun a => ?_
  -- the two forms are printed alike
  dsimp only
  split
  next => exact (Console.keeps_printOut _).bind fun _ => (Console.keeps_report quiet _ _).tree
  next => exact (Console.keeps_printOut _).bind fun _ => (Console.keeps_report quiet _ _).tree

theorem onlyPrints_runList (quiet : Bool) (g : GrammarArguments) (origins sort tokens : Bool) :
    (runList quiet g origins sort tokens).OnlyPrints g := by
  refine onlyPrints_assembleFor_bind quiet g fun a => ?_
  dsimp only
  split
  next => exact Console.keeps_listTokens quiet origins sort _
  next => exact Console.keeps_listProductions quiet origins sort _

/-! ### The command that writes -/

/-- Where the generated file goes: where the command says, or else where the settings do. -/
def Assembled.path (a : Assembled) (g : GrammarArguments) (output : Option Path) : Path :=
  output.getD (a.manifest.generatedPath g.dialect)

/-- The text of the generated file. -/
def Assembled.content (a : Assembled) : String :=
  String.ofList (a.assembly.render (a.license.map String.toList))

/-- Fails if the grammar cannot be assembled, and otherwise has the outcome of writing the generated
file; nothing is printed but status lines. -/
theorem runGenerate_cases (quiet : Bool) (g : GrammarArguments) (output : Option Path)
    (s : Session) :
    (∃ failure errors, assembled s.tree g = .error failure ∧
        (runGenerate quiet g output).run.run s = (.error failure, { s with errors })) ∨
      ∃ a errors outcome tree, assembled s.tree g = .ok a ∧
        (writeGenerated (a.path g output) a.content).run.run s.tree = (outcome, tree) ∧
        (runGenerate quiet g output).run.run s = (outcome, { s with tree, errors }) := by
  rw [runGenerate]
  rcases assembleFor_bind_cases quiet g _ s with hfails | ⟨a, errors, hassembled, hrun⟩
  · exact .inl hfails
  right
  rw [hrun]
  dsimp only
  rw [Console.run_get_bind]
  dsimp only
  -- reading has left the tree as it was, and so the file is written there
  rcases hwrite : (writeGenerated (a.path g output) a.content).run.run s.tree with ⟨outcome, tree⟩
  rw [Assembled.path, Assembled.content] at hwrite
  rw [hwrite]
  rcases outcome with failure | _
  · exact ⟨a, errors, .error failure, tree, hassembled, hwrite, rfl⟩
  · -- what comes after the file is written is a status line
    obtain ⟨_, errors', hreport⟩ :=
      ((Console.keeps_shown (a.path g output)).bind fun path =>
        Console.keeps_report quiet "Generated"
          (path ++ " (" ++
            counted a.assembly.grammar.size "production" "productions" ++ ", " ++
            counted a.assembly.overrides "override" "overrides" ++ ")")).exists_errors
        { s with tree, errors }
    exact ⟨a, errors', .ok (), tree, hassembled, hwrite, hreport⟩

end Commands

/-! ### All commands -/

/-- The commands that are about this grammar. -/
inductive Command.IsAbout (g : GrammarArguments) : Command → Prop
  | extract (json : Bool) : IsAbout g (.extract g json)
  | generate (output : Option Path) : IsAbout g (.generate g output)
  | list (origins sort tokens : Bool) : IsAbout g (.list g origins sort tokens)

/-- The outcome of a command on a grammar in a tree, and what it may leave behind. -/
inductive Command.Leaves (t : FileTree) (g : GrammarArguments) :
    Command → Except Failure Unit × Session → Prop
  /-- The grammar cannot be assembled: nothing is printed, and the tree is as before. -/
  | unread {c : Command} {failure : Failure} {s : Session} : assembled t g = .error failure →
    s.output = "" → s.tree = t → Leaves t g c (.error failure, s)
  /-- Commands that print leave the tree as it is. -/
  | printed {c : Command} {a : Assembled} {s : Session} : (∀ output, c ≠ .generate g output) →
    assembled t g = .ok a → s.tree = t → Leaves t g c (.ok (), s)
  /-- The file cannot be written: nothing is printed, and no file is new, changed or gone. -/
  | unwritten {output : Option Path} {a : Assembled} {failure : Failure} {s : Session} :
    assembled t g = .ok a →
    (writeGenerated (a.path g output) a.content).run.run t = (.error failure, s.tree) →
    s.output = "" → t.KeepsFiles s.tree → Leaves t g (.generate g output) (.error failure, s)
  /-- The file has what was assembled, after the license header, and all others are as before. -/
  | generated {output : Option Path} {a : Assembled} {s : Session} : assembled t g = .ok a →
    s.output = "" → t.GainsFile (a.path g output) a.content.toUTF8 s.tree →
    Leaves t g (.generate g output) (.ok (), s)

theorem Console.OnlyPrints.leaves {t : FileTree} {g : GrammarArguments} {c : Command}
    {x : Console Unit} (h : x.OnlyPrints g) (hc : ∀ output, c ≠ .generate g output) :
    c.Leaves t g (x.run.run { tree := t }) := by
  rcases h { tree := t } with
    ⟨failure, errors, hassembled, hrun⟩ | ⟨a, s, hassembled, hrun, htree⟩
  · rw [hrun]
    exact .unread hassembled rfl rfl
  · rw [hrun]
    exact .printed hc hassembled htree

theorem runGenerate_leaves {t : FileTree} (hw : t.HasWorkingDirectory) (quiet : Bool)
    (g : GrammarArguments) (output : Option Path) :
    (Command.generate g output).Leaves t g
      ((runGenerate quiet g output).run.run { tree := t }) := by
  rcases runGenerate_cases quiet g output { tree := t } with
    ⟨failure, errors, hassembled, hrun⟩ | ⟨a, errors, outcome, t', hassembled, hwrite, hrun⟩
  · rw [hrun]
    exact .unread hassembled rfl rfl
  rw [hrun]
  rcases writeGenerated_cases hw (a.path g output) a.content with
    ⟨failure, t'', hwrite', hkeeps⟩ | ⟨t'', hwrite', hgains⟩
  · obtain ⟨rfl, rfl⟩ := Prod.mk.inj (hwrite'.symm.trans hwrite)
    exact .unwritten hassembled hwrite rfl hkeeps
  · obtain ⟨rfl, rfl⟩ := Prod.mk.inj (hwrite'.symm.trans hwrite)
    exact .generated hassembled rfl hgains

/-- A command that fails, wherever that is, has had no effect, and one that succeeds has had the
one effect that it is for. -/
theorem Invocation.run_leaves {t : FileTree} (hw : t.HasWorkingDirectory) {i : Invocation}
    {g : GrammarArguments} (hi : i.command.IsAbout g) :
    i.command.Leaves t g (i.run.run.run { tree := t }) := by
  obtain ⟨quiet, command⟩ := i
  cases hi with
  | extract json => exact (onlyPrints_runExtract quiet g json).leaves (by rintro _ ⟨⟩)
  | generate output => exact runGenerate_leaves hw quiet g output
  | list origins sort tokens =>
    exact (onlyPrints_runList quiet g origins sort tokens).leaves (by rintro _ ⟨⟩)

/-! ### A file generated below a manifest -/

/-- The grammar of the lower directory. -/
def headedGrammar : GrammarArguments where
  root := ⟨"/g"⟩
  dialect := ⟨"/g/d"⟩

/-- The settings in the manifest of the upper directory. -/
def headedManifest : Manifest where
  license := some ⟨"header.txt"⟩
  output := ⟨"out.ftl"⟩

theorem headedTree_hasWorkingDirectory : headedTree.HasWorkingDirectory where
  exists_entries := ⟨headedTree.top, rfl⟩
  size_le := fun _ hname => absurd hname List.not_mem_nil

/-- The manifest is found in the upper directory. -/
theorem headedTree_ofGrammar :
    Manifest.ofGrammar headedTree ⟨"/g"⟩ = .ok (headedManifest, true) := by
  have hpath : Path.join ⟨"/g"⟩ ⟨Manifest.file⟩ = ⟨"/g/dialect.yaml"⟩ := by decide
  have hsteps : (⟨"/g/dialect.yaml"⟩ : Path).allSteps = ["g", "dialect.yaml"].map .down := by
    decide
  have htext : headedTree.readText ⟨"/g/dialect.yaml"⟩ =
      .ok "license: header.txt\noutput: out.ftl\n" :=
    FileTree.readText_of_at? rfl rfl hsteps rfl (by decide)
  have hread : Manifest.read? "license: header.txt\noutput: out.ftl\n".toList =
      some headedManifest := by
    decide +kernel
  have hfile : headedTree.isFile ⟨"/g/dialect.yaml"⟩ = true := by
    obtain ⟨place, hstat⟩ := FileTree.readBytes_eq_ok_iff.mp
      (FileTree.readText_eq_ok_iff_readBytes.mp htext)
    rw [FileTree.isFile, hstat]
  simp only [Manifest.ofGrammar, hpath, hfile, if_true, Manifest.ofFile, readTextAs, htext]
  simp only [Except.mapError, Failure.ok_bind, hread]
  rfl

theorem headedTree_licenseHeader :
    headedManifest.licenseHeader headedTree ⟨"/g"⟩ = .ok (some "# Header\n") := by
  have hpath : Path.join ⟨"/g"⟩ ⟨"header.txt"⟩ = ⟨"/g/header.txt"⟩ := by decide
  have hsteps : (⟨"/g/header.txt"⟩ : Path).allSteps = ["g", "header.txt"].map .down := by decide
  have htext : headedTree.readText ⟨"/g/header.txt"⟩ = .ok "# Header\n" :=
    FileTree.readText_of_at? rfl rfl hsteps rfl (by decide)
  simp only [Manifest.licenseHeader, headedManifest, hpath, readTextAs, htext]
  rfl

/-- The license header is the one that the manifest names. -/
theorem headedTree_settings :
    headedGrammar.settings headedTree = .ok (headedManifest, some "# Header\n") := by
  rw [GrammarArguments.settings]
  dsimp only [headedGrammar]
  rw [headedTree_ofGrammar, Failure.ok_bind]
  change headedManifest.licenseHeader headedTree ⟨"/g"⟩ >>= _ = _
  rw [headedTree_licenseHeader]
  rfl

theorem headedTree_assembled : ∃ assembly,
    assembled headedTree headedGrammar = .ok ⟨headedManifest, some "# Header\n", assembly⟩ := by
  obtain ⟨assembly, hassembly, -⟩ := headedTree_assembles
  refine ⟨assembly, ?_⟩
  rw [assembled, headedTree_settings, Failure.ok_bind]
  change assemble headedTree headedOptions ⟨"/g"⟩ ⟨"/g/d"⟩ >>= _ = _
  rw [hassembly]
  rfl

/-- The directory of the dialect is there, and has no such file yet. -/
theorem headedTree_writeGenerated (content : String) :
    (writeGenerated ⟨"/g/d/out.ftl"⟩ content).run.run headedTree =
      (.ok (), headedTree.put ["g", "d", "out.ftl"] (.file content.toUTF8)) := by
  have hparent : Path.parent? ⟨"/g/d/out.ftl"⟩ = some ⟨"/g/d"⟩ := by decide
  have hdirectory : Path.Spells ⟨"/g/d"⟩ (["g"] ++ ["d"]) :=
    ⟨rfl, rfl, by decide, by decide, by decide⟩
  have hfile : Path.Spells ⟨"/g/d/out.ftl"⟩ (["g", "d"] ++ ["out.ftl"]) :=
    ⟨rfl, rfl, by decide, by decide, by decide⟩
  have hmake : (FileTree.createDirectories ⟨"/g/d"⟩).run.run headedTree = (.ok (), headedTree) :=
    FileTree.run_createDirectories_of_spells hdirectory rfl rfl
  have hwrite : (FileTree.write ⟨"/g/d/out.ftl"⟩ content.toUTF8).run.run headedTree =
      (.ok (), headedTree.put ["g", "d", "out.ftl"] (.file content.toUTF8)) :=
    FileTree.run_write_of_spells hfile rfl rfl content.toUTF8
  rw [writeGenerated, hparent]
  dsimp only
  rw [if_neg (by decide), ExceptT.run_bind, StateT.run_bind, TreeAction.run_adapt, hmake]
  change ((FileTree.write ⟨"/g/d/out.ftl"⟩ content.toUTF8).adapt _).run.run headedTree = _
  rw [TreeAction.run_adapt, hwrite]
  rfl

/-- The command that generates the file of the manifest, without status lines. -/
def headedInvocation : Invocation := ⟨true, .generate headedGrammar none⟩

/-- The generated file is new in the directory of the dialect, and starts with the license
header. -/
theorem Invocation.run_leaves_sample : ∃ assembly s,
    assembled headedTree headedGrammar = .ok ⟨headedManifest, some "# Header\n", assembly⟩ ∧
      headedInvocation.run.run.run { tree := headedTree } = (.ok (), s) ∧ s.output = "" ∧
      headedTree.GainsFile ⟨"/g/d/out.ftl"⟩
        (String.ofList (assembly.render (some "# Header\n".toList))).toUTF8 s.tree := by
  have hleaves := Invocation.run_leaves headedTree_hasWorkingDirectory (i := headedInvocation)
    (.generate none)
  obtain ⟨assembly, hassembled⟩ := headedTree_assembled
  have hpath : Assembled.path ⟨headedManifest, some "# Header\n", assembly⟩ headedGrammar none =
      ⟨"/g/d/out.ftl"⟩ := by
    rw [Assembled.path, Option.getD_none]
    dsimp only [headedGrammar]
    decide
  rcases hrun : headedInvocation.run.run.run { tree := headedTree } with ⟨outcome, s⟩
  rw [hrun] at hleaves
  -- the grammar is read and its file written, which leaves the last outcome only
  cases hleaves with
  | unread hfails => exact absurd (hassembled.symm.trans hfails) (by rintro ⟨⟩)
  | printed hcommand => exact absurd rfl (hcommand _)
  | unwritten hassembled' hfails =>
    obtain rfl := Except.ok.inj (hassembled.symm.trans hassembled')
    rw [hpath, headedTree_writeGenerated] at hfails
    cases hfails
  | generated hassembled' houtput hgains =>
    obtain rfl := Except.ok.inj (hassembled.symm.trans hassembled')
    rw [hpath] at hgains
    exact ⟨assembly, s, hassembled, rfl, houtput, hgains⟩

end GrammarLayers
