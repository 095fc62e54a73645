import GrammarLayers.Proofs.Fragment.Outcome
import GrammarLayers.Proofs.Layer.TokenOrder
import GrammarLayers.Proofs.Table.Lines
import GrammarLayers.Proofs.Tree.Looking

/-!
# Files are merged whole or not at all

A file is read to its end before anything in it is merged. One that cannot be read, that is no text,
or whose text has a fault after however many productions or entries without one, leaves no trace in
what has been merged before. A table that is merged changes the tokens of its own kind only.

## Main definitions

* `FileFault` — why a file cannot be merged
* `LacksBlocks`, `HasMalformedLine` — the faults of fragments and of tables
* `Loading.IsAtomic` — an action that changes nothing where it fails
* `Loading.attempts` — many actions that are tried
* `Loading.LeavesNoTrace` — those of them that fail leave no trace

## Main results

* `Loading.IsAtomic.read_bind` — an action may read anything before it goes on
* `Grammar.load_isAtomic`, `Lexicon.load_isAtomic` — when and how loading a file fails
* `load_all_or_nothing` — what a file leaves of what was there before
* `attempts_leave_no_trace` — what many files leave
-/

namespace GrammarLayers

/-- Why a file cannot be merged: its bytes cannot be read, or they are no text, or they are a text
with a fault. -/
inductive FileFault (t : FileTree) (role : FileRole) (path : Path)
    (hasFault : List Char → TextFault → Prop) : Failure → Prop
  | unreadable {cause : SystemError} : t.readBytes path = .error cause →
    FileFault t role path hasFault (.unreadable path role cause)
  | notText {bytes : ByteArray} : t.readBytes path = .ok bytes → ¬ bytes.IsValidUTF8 →
    FileFault t role path hasFault (.unreadable path role .notText)
  | inText {text : String} {fault : TextFault} : t.readBytes path = .ok text.toUTF8 →
    hasFault text.toList fault → FileFault t role path hasFault (.inFile path fault)

/-- The fault of a fragment is that of its first signature which is not followed by two blocks. -/
def LacksBlocks (text : List Char) (fault : TextFault) : Prop :=
  ∃ sig : Signature, sig.IsFirstUnfollowed text ∧ sig.HasFault text fault

/-- The fault of a table of assignments is its first line without a colon after the license header.
A list of words has no faults. -/
def HasMalformedLine (license : Option (List Char)) (kind : TableKind) (text : List Char)
    (fault : TextFault) : Prop :=
  kind ≠ .nonReserved ∧ ∃ above line below,
    IsFirstMalformed (dropLicense license text) above line below ∧
      fault = .malformedEntry (above.count '\n' + 1) (trim line)

namespace Loading

variable {σ ρ α β ι : Type}

/-- The action fails with these failures, whatever the state, and where it fails, the state stays
what it was. -/
def IsAtomic (x : Loading σ α) (causes : Failure → Prop) : Prop :=
  ∀ s s' failure, x.run.run s = (.error failure, s') ↔ s' = s ∧ causes failure

/-- Tries actions one after another, whether or not those before succeed. Each is returned with what
it gives, and the state after all of them. -/
def attempts (load : ι → Loading σ ρ) (s : σ) : List ι → List (ι × Except Failure ρ) × σ
  | [] => ([], s)
  | i :: is =>
    let (outcome, s) := (load i).run.run s
    let (outcomes, s) := attempts load s is
    ((i, outcome) :: outcomes, s)

/-- The attempts that succeed, with what they give. -/
def successes (outcomes : List (ι × Except Failure ρ)) : List (ι × ρ) :=
  outcomes.filterMap fun (i, outcome) => outcome.toOption.map (i, ·)

/-- Of actions that are tried, those fail that have a cause, and they leave no trace: the others
come to the same by themselves. -/
structure LeavesNoTrace (load : ι → Loading σ ρ) (causes : ι → Failure → Prop) (s : σ)
    (is : List ι) : Prop where
  fails_iff : ∀ i outcome, (i, outcome) ∈ (attempts load s is).1 →
    ∀ failure, outcome = .error failure ↔ causes i failure
  loads : Loads s ((successes (attempts load s is).1).map fun (i, _) => load i)
    ((successes (attempts load s is).1).map Prod.snd) (attempts load s is).2

section
variable {x : Loading σ α} {causes causes' : Failure → Prop}

theorem IsAtomic.congr (h : x.IsAtomic causes)
    (hcauses : ∀ failure, causes failure ↔ causes' failure) : x.IsAtomic causes' := by
  intro s s' failure
  rw [← hcauses]
  exact h s s' failure

/-- An action that never fails has no causes to. -/
theorem IsAtomic.of_succeeds (h : ∀ s, ∃ a s', x.run.run s = (.ok a, s')) :
    x.IsAtomic fun _ => False := by
  intro s s' failure
  obtain ⟨a, s₁, hrun⟩ := h s
  rw [hrun]
  exact iff_of_false (by rintro ⟨⟩) And.right

/-- What is read before an action goes on does not change the state, whether or not it can be. -/
theorem IsAtomic.read_bind {x : Except Failure α} {f : α → Loading σ β}
    (causes : α → Failure → Prop) (hf : ∀ a, (f a).IsAtomic (causes a)) :
    (liftM x >>= f).IsAtomic fun failure =>
      x = .error failure ∨ ∃ a, x = .ok a ∧ causes a failure := by
  intro s s' failure
  rw [run_bind, run_liftM]
  cases x with
  | error cause =>
    constructor
    · rintro ⟨⟩
      exact ⟨rfl, .inl rfl⟩
    · rintro ⟨rfl, herror | ⟨_, ⟨⟩, _⟩⟩
      rw [Except.error.inj herror]
  | ok a =>
    simp only [reduceCtorEq, false_or, Except.ok.injEq, exists_eq_left']
    exact hf a s s' failure

end

variable {load : ι → Loading σ ρ} {causes : ι → Failure → Prop}

/-- What an attempt gives is what its action gives in some state. -/
theorem exists_run_of_mem_attempts {s : σ} {is : List ι} {i : ι} {outcome : Except Failure ρ}
    (h : (i, outcome) ∈ (attempts load s is).1) :
    ∃ s₁ s₂, (load i).run.run s₁ = (outcome, s₂) := by
  induction is generalizing s with
  | nil => cases h
  | cons j is ih =>
    rcases List.mem_cons.mp h with heq | h
    · obtain ⟨rfl, rfl⟩ := Prod.mk.inj heq
      exact ⟨s, _, rfl⟩
    · exact ih h

theorem leavesNoTrace (h : ∀ i, (load i).IsAtomic (causes i)) (s : σ) (is : List ι) :
    LeavesNoTrace load causes s is := by
  constructor
  · intro i outcome hmem failure
    obtain ⟨s₁, s₂, hrun⟩ := exists_run_of_mem_attempts hmem
    constructor
    · rintro rfl
      exact ((h i s₁ s₂ failure).mp hrun).2
    · intro hcause
      have herror := (h i s₁ s₁ failure).mpr ⟨rfl, hcause⟩
      exact (Prod.mk.inj (hrun.symm.trans herror)).1
  · induction is generalizing s with
    | nil => exact .nil s
    | cons i is ih =>
      rw [attempts]
      rcases hrun : (load i).run.run s with ⟨failure | r, s₁⟩
      · -- a failed attempt is not among the successes, and the others go on from the same state
        obtain rfl := ((h i s s₁ failure).mp hrun).1
        exact ih s₁
      · exact .cons hrun (ih s₁)

end Loading

section
variable {t : FileTree} {role : FileRole} {path : Path} {license : Option (List Char)}
  {kind : TableKind} {failure : Failure}

/-- A file has a fault if it has no text, or if its text has one. -/
theorem fileFault_iff {hasFault : List Char → TextFault → Prop} :
    FileFault t role path hasFault failure ↔
      (∃ cause, t.readText path = .error cause ∧ failure = .unreadable path role cause) ∨
        ∃ text, t.readText path = .ok text ∧
          ∃ fault, hasFault text.toList fault ∧ failure = .inFile path fault := by
  simp only [FileTree.readText_eq_error_iff, FileTree.readText_eq_ok_iff_readBytes]
  constructor
  · intro h
    cases h with
    | unreadable hbytes => exact .inl ⟨_, .inl hbytes, rfl⟩
    | notText hbytes hutf8 => exact .inl ⟨_, .inr ⟨rfl, _, hbytes, hutf8⟩, rfl⟩
    | inText hbytes hfault => exact .inr ⟨_, hbytes, _, hfault, rfl⟩
  · rintro (⟨_, hbytes | ⟨rfl, _, hbytes, hutf8⟩, rfl⟩ | ⟨_, hbytes, _, hfault, rfl⟩)
    · exact .unreadable hbytes
    · exact .notText hbytes hutf8
    · exact .inText hbytes hfault

theorem productionsOfFile_eq_error_iff :
    productionsOfFile t path = .error failure ↔
      FileFault t .fragment path LacksBlocks failure := by
  simp only [fileFault_iff, LacksBlocks, ← Production.readAll_eq_error_iff]
  rw [productionsOfFile, readTextAs]
  cases t.readText path with
  | error cause => simp [Except.mapError, bind, Except.bind, eq_comm]
  | ok text =>
    cases hread : Production.readAll text.toList with
    | error fault => simp [Except.mapError, bind, Except.bind, hread, eq_comm]
    | ok ps => simp [Except.mapError, bind, Except.bind, pure, Except.pure, hread]

/-- All productions of a fragment are read before the first one is merged. -/
theorem Grammar.load_isAtomic :
    (Grammar.load t path).IsAtomic (FileFault t .fragment path LacksBlocks) := by
  apply (Loading.IsAtomic.read_bind (fun _ _ => False) fun ps =>
    .of_succeeds fun g => ⟨_, _, rfl⟩).congr
  intro failure
  rw [productionsOfFile_eq_error_iff]
  simp only [and_false, exists_false, or_false]

/-- All entries of a table are read before the first one is merged. -/
theorem Lexicon.load_isAtomic :
    (Lexicon.load t license kind path).IsAtomic
      (FileFault t .tokenTable path (HasMalformedLine license kind)) := by
  unfold Lexicon.load
  refine (Loading.IsAtomic.read_bind (fun text failure =>
    ∃ fault, HasMalformedLine license kind text.toList fault ∧ failure = .inFile path fault)
    fun text => ?_).congr fun failure => ?_
  · cases kind with
    | nonReserved =>
      -- in a list of words every line counts, so that only the reading of the file can fail
      apply (Loading.IsAtomic.of_succeeds fun l => ⟨_, _, rfl⟩).congr
      simp [HasMalformedLine]
    | assignments c =>
      apply (Loading.IsAtomic.read_bind (fun _ _ => False) fun entries =>
        .of_succeeds fun l => ⟨_, _, rfl⟩).congr
      simp [HasMalformedLine, mapError_eq_error_iff, readAssignments_eq_error_iff]
  · rw [fileFault_iff, readTextAs, mapError_eq_error_iff]
    simp only [mapError_eq_ok_iff]

end

/-! ### Other tables -/

theorem WordList.toList_injective : Function.Injective WordList.toList :=
  fun ⟨_⟩ ⟨_⟩ h => congrArg WordList.mk (Array.toList_inj.mp h)

/-- A table that is merged leaves the tables of the other kinds as they are. -/
theorem TableFile.load_others {f : TableFile} {l l' : Lexicon} {report : TableReport}
    (h : f.load.run.run l = (.ok report, l')) :
    (∀ c, f.kind ≠ .assignments c → l'.table c = l.table c) ∧
      (f.kind ≠ .nonReserved → l'.nonReserved = l.nonReserved) := by
  obtain ⟨htables, hwords⟩ := load_eq_ok h
  constructor
  · intro c hkind
    rw [htables, assigned_eq_nil hkind]
    rfl
  · intro hkind
    rw [listed_eq_nil hkind] at hwords
    exact WordList.toList_injective hwords

/-! ### One file, and many -/

/-- Whatever has been merged before, a file that is not merged leaves all of it as it is, and it is
not merged if it cannot be read, is no text, or has a fault anywhere in its text. A table that is
merged leaves the tables of the other kinds as they are. -/
theorem load_all_or_nothing (t : FileTree) (license : Option (List Char)) (kind : TableKind)
    (path : Path) :
    (∀ g g' failure, (Grammar.load t path).run.run g = (.error failure, g') ↔
      g' = g ∧ FileFault t .fragment path LacksBlocks failure) ∧
    (∀ l l' failure, (Lexicon.load t license kind path).run.run l = (.error failure, l') ↔
      l' = l ∧ FileFault t .tokenTable path (HasMalformedLine license kind) failure) ∧
    ∀ l l' report, (Lexicon.load t license kind path).run.run l = (.ok report, l') →
      (∀ c, kind ≠ .assignments c → l'.table c = l.table c) ∧
        (kind ≠ .nonReserved → l'.nonReserved = l.nonReserved) :=
  ⟨Grammar.load_isAtomic, Lexicon.load_isAtomic,
    fun _ _ _ => TableFile.load_others (f := ⟨t, license, kind, path⟩)⟩

/-- A fragment and two tables. The fragment and the first table have a fault behind something that
has none. -/
def faultyTree : FileTree where
  top :=
    [("a.ftl", .ofText "T A():\x7b\x7d\x7b\x7dT B():\x7b\x7dx"),
      ("keywords.txt", .ofText "A: 1\nB\n"), ("operators.txt", .ofText "A: 1\n")]
  workingDirectory := []

theorem faultyTree_readText :
    faultyTree.readText ⟨"/a.ftl"⟩ = .ok "T A():\x7b\x7d\x7b\x7dT B():\x7b\x7dx" ∧
      faultyTree.readText ⟨"/keywords.txt"⟩ = .ok "A: 1\nB\n" ∧
      faultyTree.readText ⟨"/operators.txt"⟩ = .ok "A: 1\n" := by
  have hfragment : (⟨"/a.ftl"⟩ : Path).allSteps = ["a.ftl"].map .down := by decide
  have hkeywords : (⟨"/keywords.txt"⟩ : Path).allSteps = ["keywords.txt"].map .down := by decide
  have hoperators : (⟨"/operators.txt"⟩ : Path).allSteps = ["operators.txt"].map .down := by
    decide
  exact ⟨FileTree.readText_of_at? rfl rfl hfragment rfl (by decide),
    FileTree.readText_of_at? rfl rfl hkeywords rfl (by decide),
    FileTree.readText_of_at? rfl rfl hoperators rfl (by decide)⟩

/-- With a production and a keyword there before, the fragment and the keywords leave no trace, and
the operators leave all tables but their own as they are. -/
theorem faultyTree_all_or_nothing :
    let g := (Grammar.empty.insert ⟨"A", "U", "U A():\x7b\x7d\x7b\x7d", ⟨0, 10⟩, none⟩).2
    let l : Lexicon := { keywords := (TokenTable.empty.insert ⟨"A", "0", none⟩).2 }
    (Grammar.load faultyTree ⟨"/a.ftl"⟩).run.run g =
      (.error (.inFile ⟨"/a.ftl"⟩ (.missingBlock "B" (.token ['x']) ⟨18, 1, 19⟩)), g) ∧
    (Lexicon.load faultyTree none (.assignments .keyword) ⟨"/keywords.txt"⟩).run.run l =
      (.error (.inFile ⟨"/keywords.txt"⟩ (.malformedEntry 2 ['B'])), l) ∧
    ∃ l' report, (Lexicon.load faultyTree none (.assignments .operator)
        ⟨"/operators.txt"⟩).run.run l = (.ok report, l') ∧
      (∀ c, c ≠ .operator → l'.table c = l.table c) ∧ l'.nonReserved = l.nonReserved := by
  intro g l
  obtain ⟨hfragment, hkeywords, hoperators⟩ := faultyTree_readText
  have hlacks : Production.readAll "T A():\x7b\x7d\x7b\x7dT B():\x7b\x7dx".toList =
      .error (.missingBlock "B" (.token ['x']) ⟨18, 1, 19⟩) := by
    decide +kernel
  have hmalformed : readAssignments (dropLicense none "A: 1\nB\n".toList) =
      .error (.malformedEntry 2 ['B']) := by
    decide
  have hentries : readAssignments (dropLicense none "A: 1\n".toList) = .ok [⟨"A", "1"⟩] := by
    decide
  have hfragments := (load_all_or_nothing faultyTree none .nonReserved ⟨"/a.ftl"⟩).1
  have htables := (load_all_or_nothing faultyTree none (.assignments .keyword)
    ⟨"/keywords.txt"⟩).2.1
  refine ⟨(hfragments g g _).mpr ⟨rfl, ?_⟩, (htables l l _).mpr ⟨rfl, ?_⟩, ?_⟩
  · have hfault : LacksBlocks _ _ := Production.readAll_eq_error_iff.mp hlacks
    exact .inText (FileTree.readText_eq_ok_iff_readBytes.mp hfragment) hfault
  · have hfault : HasMalformedLine none (.assignments .keyword) _ _ :=
      ⟨TableKind.noConfusion, readAssignments_eq_error_iff.mp hmalformed⟩
    exact .inText (FileTree.readText_eq_ok_iff_readBytes.mp hkeywords) hfault
  · have hruns : ∃ report l', (Lexicon.load faultyTree none (.assignments .operator)
        ⟨"/operators.txt"⟩).run.run l = (.ok report, l') :=
      Lexicon.exists_run_load (mapError_eq_ok_iff.mpr hoperators) (fun c _ => ⟨_, hentries⟩) l
    obtain ⟨report, l', hrun⟩ := hruns
    obtain ⟨hothers, hwords⟩ := (load_all_or_nothing _ _ _ _).2.2 l l' report hrun
    refine ⟨l', report, hrun, fun c hc => hothers c ?_, hwords TableKind.noConfusion⟩
    intro hkind
    exact hc (TableKind.assignments.inj hkind).symm

/-- Any number of fragments and of tables may be tried one after another. -/
theorem attempts_leave_no_trace (g : Grammar) (l : Lexicon) (fragments : List (FileTree × Path))
    (tables : List TableFile) :
    Loading.LeavesNoTrace (fun f : FileTree × Path => Grammar.load f.1 f.2)
        (fun f => FileFault f.1 .fragment f.2 LacksBlocks) g fragments ∧
      Loading.LeavesNoTrace TableFile.load
        (fun f => FileFault f.tree .tokenTable f.path (HasMalformedLine f.license f.kind)) l
        tables :=
  ⟨Loading.leavesNoTrace (fun _ => Grammar.load_isAtomic) g fragments,
    Loading.leavesNoTrace (fun _ => Lexicon.load_isAtomic) l tables⟩

end GrammarLayers
