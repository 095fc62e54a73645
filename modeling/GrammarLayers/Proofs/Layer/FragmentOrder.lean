import GrammarLayers.Layer.Listing
import GrammarLayers.Proofs.Text.ByteOrder

/-!
# The fragments of a directory

Of the entries of a directory, those count as fragments that are files with the right extension and
no token tables. They are listed in the order of the bytes of their names, each as often as it is
in the directory.

## Main definitions

* `Listing.IsFragment` — an entry counts as a fragment
* `Listing.ListsFragments` — paths are the fragments of a directory in order

## Main results

* `Directory.sorted_pairwise` — entries are sorted by the bytes of their names
* `Listing.listsFragments_of_ofDirectory` — what is listed
-/

namespace GrammarLayers

theorem Directory.sorted_perm (d : Directory) : d.sorted.Perm d := List.mergeSort_perm d _

/-- Entries are sorted by the bytes of their names. -/
theorem Directory.sorted_pairwise (d : Directory) :
    d.sorted.Pairwise fun a b => nameBytes a.1 ≤ nameBytes b.1 :=
  pairwise_mergeSort_key Prod.fst d

namespace Listing

/-- An entry counts as a fragment if it is, or leads to, a file, its name is not that of a token
table, and it has the right extension. -/
def IsFragment (t : FileTree) (extension : String) (directory : Path) (place : Place)
    (e : String × Entry) : Prop :=
  isDirectoryEntry t directory place (directory.join ⟨e.1⟩) e.2 = .ok false ∧
    (directory.join ⟨e.1⟩).fileName?.bind TableKind.ofFile? = none ∧
    (directory.join ⟨e.1⟩).extension? = some extension

instance (t : FileTree) (extension : String) (directory : Path) (place : Place) :
    DecidablePred (IsFragment t extension directory place) :=
  fun _ => inferInstanceAs (Decidable (_ ∧ _ ∧ _))

/-- The paths are those of the fragments in a directory, in the order of the bytes of their
names. Where there is a file instead of a directory, there are none. -/
def ListsFragments (t : FileTree) (extension : String) (directory : Path)
    (fragments : List Path) : Prop :=
  ∃ names : List String, fragments = names.map (fun name => directory.join ⟨name⟩) ∧
    names.Pairwise (fun a b => nameBytes a ≤ nameBytes b) ∧
    match t.stat directory with
    | .ok (place, .directory entries) =>
      names.Perm ((entries.filter (IsFragment t extension directory place)).map Prod.fst)
    | _ => names = []

variable {t : FileTree} {extension : String} {directory : Path} {place : Place}

/-- Entries that are in order already are looked at as they come. -/
theorem ofDirectory_of_stat {entries : Directory}
    (hstat : t.stat directory = .ok (place, .directory entries))
    (hsorted : entries.Pairwise fun a b => a.1 ≤ b.1) :
    ofDirectory t extension directory = addEntries t directory place extension {} entries := by
  have hsame : Directory.sorted entries = entries := by
    apply List.mergeSort_of_pairwise
    apply hsorted.imp
    intro a b hab
    exact decide_eq_true hab
  rw [ofDirectory, hstat]
  dsimp only
  rw [hsame]

theorem fragments_addEntry {l : Listing} {e : String × Entry} {isDirectory : Bool}
    (h : isDirectoryEntry t directory place (directory.join ⟨e.1⟩) e.2 = .ok isDirectory) :
    (l.addEntry extension (directory.join ⟨e.1⟩) isDirectory).fragments =
      l.fragments ++
        if IsFragment t extension directory place e then [directory.join ⟨e.1⟩] else [] := by
  by_cases hfragment : IsFragment t extension directory place e
  · obtain ⟨hfile, htable, hextension⟩ := hfragment
    obtain rfl := Except.ok.inj (hfile.symm.trans h)
    rw [if_pos ⟨hfile, htable, hextension⟩, addEntry, htable]
    simp only [Bool.false_eq_true, if_false, hextension, if_true]
  · rw [if_neg hfragment, List.append_nil, addEntry]
    split
    next => rfl
    next hfile =>
      split
      next => rfl
      next htable =>
        rw [if_neg]
        -- a file with the extension that is no table would be a fragment
        intro hextension
        rw [Bool.not_eq_true] at hfile
        exact hfragment ⟨hfile ▸ h, htable, hextension⟩

theorem fragments_addEntries {l l' : Listing} {entries : List (String × Entry)}
    (h : addEntries t directory place extension l entries = .ok l') :
    l'.fragments = l.fragments ++ (entries.filter (IsFragment t extension directory place)).map
      fun e => directory.join ⟨e.1⟩ := by
  induction entries generalizing l with
  | nil =>
    obtain rfl := Except.ok.inj h
    simp
  | cons e entries ih =>
    rw [addEntries] at h
    cases hentry : isDirectoryEntry t directory place (directory.join ⟨e.1⟩) e.2 with
    | error failure =>
      rw [hentry] at h
      cases h
    | ok isDirectory =>
      rw [hentry] at h
      rw [ih h, fragments_addEntry hentry, List.append_assoc, List.filter_cons]
      by_cases hfragment : IsFragment t extension directory place e
      · simp [hfragment]
      · simp [hfragment]

/-- What is listed are the fragments in order. -/
theorem listsFragments_of_ofDirectory {l : Listing}
    (h : ofDirectory t extension directory = .ok l) :
    ListsFragments t extension directory l.fragments := by
  unfold ofDirectory at h
  unfold ListsFragments
  split at h
  next => cases h
  next place entries hstat =>
    refine ⟨((Directory.sorted entries).filter (IsFragment t extension directory place)).map
      Prod.fst, ?_, ?_, ?_⟩
    · rw [fragments_addEntries h, List.map_map]
      rfl
    · apply List.Pairwise.map Prod.fst (fun a b hab => hab)
      exact (Directory.sorted_pairwise entries).filter _
    · rw [hstat]
      exact ((Directory.sorted_perm entries).filter _).map Prod.fst
  next hfile hstat =>
    obtain rfl := Except.ok.inj h
    refine ⟨[], rfl, .nil, ?_⟩
    split
    next place entries hdirectory =>
      -- it would be a directory after all
      have hsame := Except.ok.inj (hstat.symm.trans hdirectory)
      exact (hfile place entries hsame).elim
    next => rfl

end Listing

end GrammarLayers
