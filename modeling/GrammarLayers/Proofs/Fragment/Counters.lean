import GrammarLayers.Proofs.Fragment.Outcome
import GrammarLayers.Proofs.Fragment.Passage
import GrammarLayers.Proofs.Table.Lines
import GrammarLayers.Proofs.Text.PlaceOrder

/-!
# Numbers that fit 32 bits

Open braces, lines and columns are counted without a bound. Where they are kept in 32 bits, nothing
changes for texts with fewer than 2 ^ 32 - 1 characters: no number that comes up in reading the
productions or the assignments of such a text is too large.

## Main definitions

* `Cursor.Operation.trackAll`, `Passage.tracker` — the tracker of the block that is being taken
* `TextFault.numbers` — the numbers that a fault tells

## Main results

* `Passage.tracker_peek`, `Passage.tracker_next` — it is started and fed as blocks are taken
* `Production.readAll_numbers_lt` — the numbers in reading productions
* `readAssignments_numbers_lt` — the numbers in reading assignments
-/

namespace GrammarLayers

/-- The lines and columns that a fault tells. -/
def TextFault.numbers : TextFault → List Nat
  | missingBlock _ _ position | unclosedBlock _ position => [position.line, position.column]
  | malformedEntry line _ => [line]

/-! ### The tracker that is in use -/

namespace Cursor.Operation

/-- The tracker after an operation. Before a block is taken, a token is looked at, and from then on
tokens are fed to the tracker as they are taken. -/
def track (c : Cursor) (t : BlockTracker) : Operation → BlockTracker
  | peek => {}
  | next =>
    match c.next? with
    | some (token, _) => t.feed token
    | none => t
  | nextIf _ | takeTo _ => t

/-- The tracker after operations. -/
def trackAll (c : Cursor) (t : BlockTracker) : List Operation → BlockTracker
  | [] => t
  | op :: ops => trackAll (op.run c).2 (op.track c t) ops

theorem trackAll_concat (c : Cursor) (t : BlockTracker) (ops : List Operation) (op : Operation) :
    trackAll c t (ops ++ [op]) = op.track (runAll c ops).2 (trackAll c t ops) := by
  induction ops generalizing c t with
  | nil => rfl
  | cons first ops ih => exact ih _ _

end Cursor.Operation

namespace Passage

/-- The tracker of the block that is being taken, as the record tells it. -/
def tracker (source : List Char) (k : Passage) : BlockTracker :=
  Cursor.Operation.trackAll (Cursor.ofText source) {} k.operations

variable {source : List Char} {k k' : Passage} {token : Token}

/-- A block is taken with a new tracker. -/
theorem tracker_peek (source : List Char) (k : Passage) : k.peek.2.tracker source = {} :=
  Cursor.Operation.trackAll_concat _ _ k.operations .peek

/-- The tracker is fed with the token that is taken. -/
theorem tracker_next (hk : Advances source k) (hnext : k.next? = (some token, k')) :
    k'.tracker source = (k.tracker source).feed token := by
  have hcursor := next?_eq_some hnext
  obtain ⟨-, rfl⟩ := Prod.mk.inj hnext
  have htrack := Cursor.Operation.trackAll_concat (Cursor.ofText source) {} k.operations .next
  rw [← hk.cursor_eq, Cursor.Operation.track, hcursor] at htrack
  exact htrack

end Passage

/-! ### Open braces -/

theorem Token.length_consText_le (c : Char) (offset : Nat) (tokens : List Token) :
    (consText c offset tokens).length ≤ tokens.length + 1 := by
  unfold consText
  split
  next => exact Nat.le_succ _
  next => exact Nat.le_refl _

theorem Token.length_scan_le (offset : Nat) (text : List Char) :
    (scan offset text).length ≤ text.length := by
  fun_induction scan offset text with
  | case1 => exact Nat.le_refl 0
  | case2 offset rest ih | case3 offset rest ih | case4 offset rest ih =>
    exact (Nat.succ_le_succ ih).trans (Nat.le_succ _)
  | case5 offset c rest _ _ _ following kind hkind ih => exact Nat.succ_le_succ ih
  | case6 offset c rest _ _ _ following hkind ih =>
    exact (length_consText_le c offset following).trans (Nat.succ_le_succ ih)

namespace Cursor

/-- A token that is split makes room for its second part. -/
theorem length_unread_takeTo_le (target : Nat) (c : Cursor) :
    (c.takeTo target).2.unread.length ≤ c.unread.length := by
  fun_induction takeTo target c with
  | case1 | case4 => exact Nat.le_refl _
  | case2 c hlt token c' hnext hstop before after hsplit =>
    have hupcoming : c'.upcoming.length ≤ c'.unread.length := by
      rw [unread, List.length_append]
      exact Nat.le_add_left _ _
    rw [unread_next? hnext]
    exact Nat.succ_le_succ hupcoming
  | case3 c hlt token c' hnext hstop text c'' htake ih =>
    rw [htake] at ih
    exact ih.trans (Nat.le_of_lt (length_unread_next? hnext))

/-- No operation adds a token to those that are left, and a brace is opened only by a token that is
taken. -/
theorem Operation.depth_track_le (op : Operation) (c : Cursor) (t : BlockTracker) :
    (op.track c t).depth + (op.run c).2.unread.length ≤ t.depth + c.unread.length := by
  cases op with
  | peek =>
    rw [track, run, unread_peek]
    exact Nat.add_le_add_right (Nat.zero_le _) _
  | next =>
    rcases hnext : c.next? with _ | ⟨token, c'⟩
    · simp only [track, run, hnext]
      exact Nat.le_refl _
    · -- the token that makes the tracker deeper is one less to read
      have hdepth := BlockTracker.feedAll_depth_le t [token]
      have hopen := List.countP_le_length (p := (·.kind = .openBrace)) (l := [token])
      rw [unread_next? hnext, List.length_cons]
      simp only [BlockTracker.feedAll, List.foldl_cons, List.foldl_nil, List.length_singleton]
        at hdepth hopen
      simp only [track, run, hnext]
      omega
  | nextIf p =>
    refine Nat.add_le_add_left ?_ t.depth
    rw [run]
    split
    next hnext => exact Nat.le_of_lt (length_unread_nextIf? hnext)
    next => rw [unread_peek]
  | takeTo target => exact Nat.add_le_add_left (length_unread_takeTo_le target c) t.depth

theorem Operation.depth_trackAll_le (ops : List Operation) (c : Cursor) (t : BlockTracker) :
    (trackAll c t ops).depth ≤ t.depth + c.unread.length := by
  induction ops generalizing c t with
  | nil => exact Nat.le_add_right _ _
  | cons op ops ih => exact (ih _ _).trans (depth_track_le op c t)

/-- There are no more open braces than the text has characters. -/
theorem depth_trackAll_ofText_le (source : List Char) (ops : List Operation) :
    (Operation.trackAll (ofText source) {} ops).depth ≤ source.length := by
  have hdepth := Operation.depth_trackAll_le ops (ofText source) {}
  have htokens := Token.length_scan_le 0 source
  rw [Nat.zero_add] at hdepth
  exact hdepth.trans htokens

end Cursor

/-! ### Places -/

/-- What stands in the place of a block is told by its place in the text. -/
theorem StandsForBlock.numbers_eq {name : String} {before rest : List Char} {fault : TextFault}
    (h : StandsForBlock name before rest fault) : fault.numbers =
      [(Position.find (before ++ rest) (byteSize before)).line,
        (Position.find (before ++ rest) (byteSize before)).column] := by
  rw [Position.find_append]
  cases h with
  | nothing | token | unclosed => rfl

theorem Signature.HasFault.exists_find {source : List Char} {sig : Signature} {fault : TextFault}
    (h : sig.HasFault source fault) : ∃ n, fault.numbers =
      [(Position.find source n).line, (Position.find source n).column] := by
  have hlacks : ∀ {before rest : List Char}, source = before ++ rest →
      LacksBlock sig.name before rest fault → ∃ n, fault.numbers =
        [(Position.find source n).line, (Position.find source n).column] := by
    rintro before _ hsource ⟨blanks, rest', rfl, -, -, hstands⟩
    rw [← List.append_assoc] at hsource
    exact ⟨_, hsource ▸ hstands.numbers_eq⟩
  cases h with
  | initializer hsource _ h => exact hlacks hsource h
  | body hsource _ hblock h =>
    refine hlacks ?_ h
    rw [hsource, hblock.eq]
    simp

/-! ### Reading productions -/

/-- At no moment of reading the productions of a text there are too many open braces, and if this
fails, the line and the column that the fault tells are not too large. -/
theorem Production.readAll_numbers_lt {source : List Char}
    (hlength : source.length < UInt32.size - 1) :
    (∀ done todo, (Passage.readAll source).2.operations = done ++ todo →
      (Cursor.Operation.trackAll (Cursor.ofText source) {} done).depth < UInt32.size) ∧
    ∀ fault, readAll source = .error fault → ∀ n ∈ fault.numbers, n < UInt32.size := by
  constructor
  · intro done todo _
    have := Cursor.depth_trackAll_ofText_le source done
    omega
  · intro fault hread number hnumber
    obtain ⟨sig, -, hfault⟩ := readAll_eq_error_iff.mp hread
    obtain ⟨n, hnumbers⟩ := hfault.exists_find
    obtain ⟨hline, hcolumn⟩ := Position.lines_le_length source n
    rw [hnumbers] at hnumber
    rcases List.mem_pair.mp hnumber with rfl | rfl <;> omega

/-! ### Reading assignments -/

theorem lt_of_mem_numberLines {number : Nat} {lines : List (List Char)} {entry : Nat × List Char}
    (h : entry ∈ numberLines number lines) : entry.1 < number + lines.length := by
  induction lines generalizing number with
  | nil => cases h
  | cons line lines ih =>
    rw [numberLines] at h
    rw [List.length_cons]
    split at h
    next =>
      have := ih h
      omega
    next =>
      rcases List.mem_cons.mp h with rfl | h
      · exact Nat.lt_add_of_pos_right (Nat.succ_pos _)
      · have := ih h
        omega

/-- The number of a line of a table, and the one that the fault tells which reading the table fails
with, are not too large. -/
theorem readAssignments_numbers_lt {text : List Char} (hlength : text.length < UInt32.size - 1) :
    (∀ entry ∈ entryLines text, entry.1 < UInt32.size) ∧
    ∀ fault, readAssignments text = .error fault → ∀ n ∈ fault.numbers, n < UInt32.size := by
  constructor
  · intro entry hentry
    have hnumber := lt_of_mem_numberLines hentry
    have hcount := text.count_le_length (a := '\n')
    rw [length_splitLines] at hnumber
    omega
  · intro fault hread number hnumber
    obtain ⟨above, line, below, hfirst, rfl⟩ := readAssignments_eq_error_iff.mp hread
    have hcount := above.count_le_length (a := '\n')
    have htext := congrArg List.length hfirst.text_eq
    rw [List.length_append, List.length_append] at htext
    obtain rfl := List.mem_singleton.mp hnumber
    omega

end GrammarLayers
