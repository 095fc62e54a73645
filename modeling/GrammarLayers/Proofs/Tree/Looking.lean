import GrammarLayers.Tree.FileTree
import Mathlib.Data.List.Basic

/-!
# Looking at files and directories

What a path leads to is found name by name. On a way without links, it is what the names of the
path lead to from the directory that the path starts from.

## Main results

* `Spot.walk_down_directory`, `Spot.walk_down_file` — one name further on the way
* `Spot.walk_of_at?` — a walk along names
* `FileTree.stat_of_at?` — what a path leads to
* `FileTree.readText_eq_ok_iff_readBytes`, `FileTree.readText_eq_error_iff` — when a file is a text
* `FileTree.readText_of_at?` — the text of a file
-/

namespace GrammarLayers

/-- A file with a text. -/
def Entry.ofText (text : String) : Entry := .file text.toUTF8

/-- Bytes are those of one text, or of none. -/
theorem fromUTF8?_eq_some_iff {bytes : ByteArray} {text : String} :
    String.fromUTF8? bytes = some text ↔ bytes = text.toUTF8 := by
  unfold String.fromUTF8?
  split
  next hvalid =>
    constructor
    · intro h
      exact Option.some.inj h ▸ rfl
    · rintro rfl
      rfl
  next hvalid =>
    refine iff_of_false (by rintro ⟨⟩) ?_
    rintro rfl
    exact hvalid text.isValidUTF8

theorem fromUTF8?_eq_none_iff {bytes : ByteArray} :
    String.fromUTF8? bytes = none ↔ ¬ bytes.IsValidUTF8 := by
  unfold String.fromUTF8?
  split
  next hvalid => exact iff_of_false (by rintro ⟨⟩) (not_not.mpr hvalid)
  next hvalid => exact iff_of_true rfl hvalid

/-- There is nothing in an empty directory. -/
theorem Directory.at?_empty (name : String) (names : Place) :
    Directory.at? [] (name :: names) = none := by
  induction names generalizing name with
  | nil => rfl
  | cons next names ih => exact ih next

theorem Directory.below_of_lookup {d entries : Directory} {name : String}
    (h : d.lookup name = some (.directory entries)) : d.below name = entries := by
  rw [below, h]

/-- Something below a name is in a directory under this name. -/
theorem Directory.exists_of_at?_cons {d : Directory} {name next : String} {names : Place}
    {entry : Entry} (h : d.at? (name :: next :: names) = some entry) :
    ∃ entries, d.lookup name = some (.directory entries) ∧
      Directory.at? entries (next :: names) = some entry := by
  have hbelow : (d.below name).at? (next :: names) = some entry := h
  unfold below at hbelow
  split at hbelow
  next entries hlookup => exact ⟨entries, hlookup, hbelow⟩
  next =>
    rw [at?_empty] at hbelow
    cases hbelow

namespace Spot

variable {s : Spot} {links : Nat} {name : String} {rest : List Step}

@[simp] theorem place_down (s : Spot) (name : String) :
    (s.down name).place = s.place ++ [name] := by
  simp [place, down]

theorem reaches_look (s : Spot) (name : String) (more : Nat) :
    Aim.reaches .look s name more = true := rfl

/-- A walk goes on in the directory under a name. -/
theorem walk_down_directory {d : Directory} (hname : name.utf8ByteSize ≤ nameLimit)
    (hentry : s.here.lookup name = some (.directory d)) :
    s.walk .look links (.down name :: rest) = (s.down name).walk .look links rest := by
  rw [walk, reaches_look, reaches_look, hentry, if_neg]
  · simp
  · simpa using hname

/-- A walk ends at the file under the last name. -/
theorem walk_down_file {bytes : ByteArray} (hname : name.utf8ByteSize ≤ nameLimit)
    (hentry : s.here.lookup name = some (.file bytes)) :
    s.walk .look links [.down name] = .ok ⟨s.place ++ [name], some (.file bytes)⟩ := by
  rw [walk, reaches_look, hentry, if_neg]
  · rfl
  · simpa using hname

/-- A walk along names finds what they lead to, unless that is a link. -/
theorem walk_of_at? {names : Place} {entry : Entry} (hat : s.here.at? names = some entry)
    (hlink : ∀ target, entry ≠ .link target)
    (hnames : ∀ name ∈ names, name.utf8ByteSize ≤ nameLimit) :
    s.walk .look links (names.map .down) = .ok ⟨s.place ++ names, some entry⟩ := by
  induction names generalizing s with
  | nil =>
    obtain rfl := Option.some.inj hat
    rw [List.map_nil, walk, List.append_nil]
  | cons name names ih =>
    obtain ⟨hname, hnames⟩ := List.forall_mem_cons.mp hnames
    rw [List.map_cons]
    cases names with
    | nil =>
      -- only the last name may be that of a file
      have hlookup : s.here.lookup name = some entry := hat
      cases entry with
      | file bytes => exact walk_down_file hname hlookup
      | directory entries =>
        rw [walk_down_directory hname hlookup, List.map_nil, walk, place_down]
        simp only [down, Directory.below_of_lookup hlookup]
      | link target => exact absurd rfl (hlink target)
    | cons next names =>
      obtain ⟨entries, hlookup, hbelow⟩ := Directory.exists_of_at?_cons hat
      have hhere : (s.down name).here = entries := Directory.below_of_lookup hlookup
      rw [walk_down_directory hname hlookup, ih (hhere ▸ hbelow) hnames, place_down,
        List.append_assoc, List.singleton_append]

end Spot

namespace FileTree

variable {t : FileTree} {p : Path} {names : Place}

/-- An absolute path leads to what its names lead to from the top, unless that is a link. -/
theorem stat_of_at? {entry : Entry} (hcheck : p.check = .ok ()) (habsolute : p.isAbsolute)
    (hsteps : p.allSteps = names.map .down) (hat : t.top.at? names = some entry)
    (hlink : ∀ target, entry ≠ .link target)
    (hnames : ∀ name ∈ names, name.utf8ByteSize ≤ nameLimit) :
    t.stat p = .ok (names, entry) := by
  have hstart : t.start p = ⟨t.top, []⟩ := if_pos habsolute
  have hwalk : (⟨t.top, []⟩ : Spot).walk .look linkLimit (names.map .down) =
      .ok ⟨names, some entry⟩ := Spot.walk_of_at? hat hlink hnames
  rw [stat, hcheck, resolve, hstart, hsteps, hwalk]
  rfl

theorem readBytes_eq_ok_iff {bytes : ByteArray} :
    t.readBytes p = .ok bytes ↔ ∃ place, t.stat p = .ok (place, .file bytes) := by
  rw [readBytes]
  rcases t.stat p with cause | ⟨place, found | entries | target⟩
  · simp [bind, Except.bind]
  · simp [bind, Except.bind, pure, Except.pure]
  · simp [bind, Except.bind, throw, throwThe, MonadExceptOf.throw]
  · simp [bind, Except.bind, throw, throwThe, MonadExceptOf.throw]

theorem readText_eq_ok_iff_readBytes {text : String} :
    t.readText p = .ok text ↔ t.readBytes p = .ok text.toUTF8 := by
  rw [readText]
  cases t.readBytes p with
  | error cause => simp [bind, Except.bind]
  | ok bytes =>
    simp only [bind, Except.bind, Except.ok.injEq, ← fromUTF8?_eq_some_iff]
    cases String.fromUTF8? bytes with
    | none => exact iff_of_false (by rintro ⟨⟩) (by rintro ⟨⟩)
    | some found => simp [pure, Except.pure]

/-- A file has no text if its bytes cannot be read or are none. -/
theorem readText_eq_error_iff {cause : SystemError} :
    t.readText p = .error cause ↔ t.readBytes p = .error cause ∨
      cause = .notText ∧ ∃ bytes, t.readBytes p = .ok bytes ∧ ¬ bytes.IsValidUTF8 := by
  rw [readText]
  cases t.readBytes p with
  | error found => simp [bind, Except.bind]
  | ok bytes =>
    simp only [bind, Except.bind, reduceCtorEq, false_or, Except.ok.injEq, exists_eq_left',
      ← fromUTF8?_eq_none_iff]
    cases String.fromUTF8? bytes with
    | none => simp [throw, throwThe, MonadExceptOf.throw, eq_comm]
    | some text => simp [pure, Except.pure]

theorem readText_of_at? {text : String} (hcheck : p.check = .ok ()) (habsolute : p.isAbsolute)
    (hsteps : p.allSteps = names.map .down) (hat : t.top.at? names = some (.ofText text))
    (hnames : ∀ name ∈ names, name.utf8ByteSize ≤ nameLimit) :
    t.readText p = .ok text := by
  rw [readText_eq_ok_iff_readBytes, readBytes_eq_ok_iff]
  exact ⟨names, stat_of_at? hcheck habsolute hsteps hat (fun target => Entry.noConfusion) hnames⟩

end FileTree

end GrammarLayers
