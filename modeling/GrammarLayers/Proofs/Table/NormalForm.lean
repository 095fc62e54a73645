import GrammarLayers.Proofs.Table.Lines
import GrammarLayers.Proofs.Text.UpperCase

/-!
# Tables in parts, and their normal form

A newline cuts a table into two. The upper one is read first, and what it fails with is what the
whole fails with; the lower one is read as if it stood alone, but its lines are counted from the
first line of the whole.

Entries that have been read are in normal form: their names are in upper case, nothing in them is
left to trim, and neither a colon nor a newline can be mistaken for the end of a name or of a line.
Written as lines and read again, they are the same entries.

## Main definitions

* `Assignment.line` — an entry as a line `name: value`
* `Assignment.IsNormal` — an entry that can be read again from its line

## Main results

* `readAssignments_eq_ok_iff` — the entries of a table that can be read
* `IsFirstMalformed.append`, `IsFirstMalformed.prepend` — the first malformed line of two tables
* `IsNormal.of_read?`, `IsNormal.read?_line` — what is read is normal, and can be read again
* `tables_read_in_parts` — reading two tables, and reading a table that has been written
-/

namespace GrammarLayers

namespace Assignment

variable {text front back : List Char} {e : Assignment}

/-! ### Reading a line -/

theorem takeWhile_append_colon (h : ':' ∉ front) :
    (front ++ ':' :: back).takeWhile (· != ':') = front := by
  have hfront : ∀ c ∈ front, (c != ':') = true := fun c hc => bne_iff_ne.mpr fun heq => h (heq ▸ hc)
  rw [List.takeWhile_append_of_pos hfront]
  exact List.append_nil front

theorem dropWhile_append_colon (h : ':' ∉ front) :
    (front ++ ':' :: back).dropWhile (· != ':') = ':' :: back := by
  have hfront : ∀ c ∈ front, (c != ':') = true := fun c hc => bne_iff_ne.mpr fun heq => h (heq ▸ hc)
  rw [List.dropWhile_append_of_pos hfront]
  rfl

theorem read?_append (h : ':' ∉ front) :
    read? (front ++ ':' :: back) =
      some ⟨String.ofList (upperChars (trim front)), String.ofList (trim back)⟩ := by
  rw [read?, dropWhile_append_colon h, takeWhile_append_colon h]

/-- An entry is read from what stands before and behind the first colon. -/
theorem read?_eq_some_iff :
    read? text = some e ↔ ∃ front back, text = front ++ ':' :: back ∧ ':' ∉ front ∧
      e = ⟨String.ofList (upperChars (trim front)), String.ofList (trim back)⟩ := by
  constructor
  · intro h
    have hcolon : ':' ∈ text := by
      by_contra hcolon
      rw [read?_eq_none_iff.mpr hcolon] at h
      cases h
    obtain ⟨front, back, rfl, hfront⟩ := List.eq_append_cons_of_mem hcolon
    rw [read?_append hfront] at h
    exact ⟨front, back, rfl, hfront, (Option.some.inj h).symm⟩
  · rintro ⟨front, back, rfl, hfront, rfl⟩
    exact read?_append hfront

/-- The blanks around a line make no difference. -/
theorem read?_trim (text : List Char) : read? (trim text) = read? text := by
  have hblank : isBlank ':' = false := by decide
  by_cases hcolon : ':' ∈ trim text
  · -- the first colon is the same one, as there is none among the blanks
    obtain ⟨a, b, htext, ha, hb, -⟩ := exists_append_trim text
    obtain ⟨front, back, htrim, hfront⟩ := List.eq_append_cons_of_mem hcolon
    have hcut : text = (a ++ front) ++ ':' :: (back ++ b) := by
      rw [htext, htrim]
      simp only [List.append_assoc, List.cons_append]
    have hfront' : ':' ∉ a ++ front := by
      rw [List.mem_append, not_or]
      refine ⟨fun hmem => ?_, hfront⟩
      rw [ha _ hmem] at hblank
      cases hblank
    have hname : trim (a ++ front) = trim front := trim_append_eq_iff.mpr ha
    have hvalue : trim (back ++ b) = trim back :=
      trim_append_append (List.forall_mem_nil _) hb back
    rw [htrim, hcut, read?_append hfront, read?_append hfront', hname, hvalue]
  · have htext := (mem_trim_iff hblank).not.mp hcolon
    rw [read?_eq_none_iff.mpr hcolon, read?_eq_none_iff.mpr htext]

/-! ### The normal form of an entry -/

/-- An entry as a line of a table. -/
def line (e : Assignment) : List Char := e.name.toList ++ ':' :: ' ' :: e.value.toList

/-- The name is in upper case and has no colon, there are no blanks around name and value, and
nothing in them ends the line. -/
structure IsNormal (e : Assignment) : Prop where
  upper_name : upper e.name = e.name
  trim_name : trim e.name.toList = e.name.toList
  colon_notMem : ':' ∉ e.name.toList
  trim_value : trim e.value.toList = e.value.toList
  newline_notMem : '\n' ∉ e.line

/-- What is read from a line is normal. -/
theorem IsNormal.of_read? (htext : '\n' ∉ text) (h : read? text = some e) :
    e.IsNormal := by
  obtain ⟨front, back, rfl, hfront, rfl⟩ := read?_eq_some_iff.mp h
  have hsub : ∀ {s : List Char} {c : Char}, c ∈ trim s → c ∈ s := by
    intro s c hc
    obtain ⟨a, b, hs, -⟩ := exists_append_trim s
    rw [hs]
    exact List.mem_append_left b (List.mem_append_right a hc)
  simp only [List.mem_append, List.mem_cons, not_or] at htext
  obtain ⟨hnewline, -, hnewline'⟩ := htext
  constructor
  · rw [upper_ofList, upperChars_upperChars]
  · rw [String.toList_ofList, trim_upperChars, trim_trim]
  · -- upper case brings in no colon
    rw [String.toList_ofList, colon_mem_upperChars_iff]
    exact fun hmem => hfront (hsub hmem)
  · rw [String.toList_ofList, trim_trim]
  · simp only [line, String.toList_ofList, List.mem_append, List.mem_cons, not_or]
    refine ⟨?_, by decide, by decide, fun hmem => hnewline' (hsub hmem)⟩
    rw [newline_mem_upperChars_iff]
    exact fun hmem => hnewline (hsub hmem)

/-- The blank that a line has before the value is trimmed away again. -/
theorem IsNormal.trim_cons_value (h : e.IsNormal) :
    trim (' ' :: e.value.toList) = e.value.toList := by
  have hspace : ∀ c ∈ [' '], isBlank c = true := List.forall_mem_singleton.mpr (by decide)
  exact (trim_append_eq_iff.mpr hspace).trans h.trim_value

/-- A normal entry is read from its line. -/
theorem IsNormal.read?_line (h : e.IsNormal) : read? e.line = some e := by
  have hname : upperChars (trim e.name.toList) = e.name.toList := by
    have hupper := congrArg String.toList h.upper_name
    rw [upper, String.toList_ofList] at hupper
    rw [h.trim_name, hupper]
  rw [line, read?_append h.colon_notMem, hname, h.trim_cons_value, String.ofList_toList,
    String.ofList_toList]

/-- Lines of normal entries are read as these entries. -/
theorem filterMap_read?_line {entries : List Assignment} (h : ∀ e ∈ entries, e.IsNormal) :
    (entries.map line).filterMap read? = entries := by
  rw [List.filterMap_map]
  refine (List.filterMap_congr fun e he => (h e he).read?_line).trans ?_
  exact List.filterMap_some

end Assignment

/-! ### The entries of a table -/

/-- Neither blank lines nor the numbers of the others make a difference to the entries. -/
theorem filterMap_numberLines (number : Nat) (lines : List (List Char)) :
    (numberLines number lines).filterMap (fun l => Assignment.read? l.2) =
      lines.filterMap Assignment.read? := by
  induction lines generalizing number with
  | nil => rfl
  | cons line lines ih =>
    rw [numberLines, List.filterMap_cons, ← Assignment.read?_trim line]
    split
    next hblank =>
      rw [hblank, ih]
      rfl
    next => rw [List.filterMap_cons, ih]

theorem readEntries_eq_filterMap {lines : List (Nat × List Char)} {entries : List Assignment}
    (h : readEntries lines = .ok entries) :
    entries = lines.filterMap fun l => Assignment.read? l.2 := by
  induction lines generalizing entries with
  | nil => exact (Except.ok.inj h).symm
  | cons line lines ih =>
    rw [readEntries] at h
    rw [List.filterMap_cons]
    cases hread : Assignment.read? line.2 with
    | none =>
      rw [hread] at h
      cases h
    | some entry =>
      cases hrest : readEntries lines with
      | error fault =>
        rw [hread, hrest] at h
        cases h
      | ok rest =>
        rw [hread, hrest] at h
        rw [← ih hrest]
        exact (Except.ok.inj h).symm

/-- A table without malformed lines has the entries of its lines. -/
theorem readAssignments_eq_ok_iff {text : List Char} {entries : List Assignment} :
    readAssignments text = .ok entries ↔
      (∀ line ∈ splitLines text, ¬ IsMalformed line) ∧
        entries = (splitLines text).filterMap Assignment.read? := by
  have hmalformed : (∀ line ∈ splitLines text, ¬ IsMalformed line) ↔
      ∃ entries, readAssignments text = .ok entries := by
    rw [exists_readAssignments_iff]
    refine forall₂_congr fun line _ => ?_
    rw [IsMalformed, not_and, not_not]
  have hentries : ∀ {entries}, readAssignments text = .ok entries →
      entries = (splitLines text).filterMap Assignment.read? := by
    intro entries h
    rw [← filterMap_numberLines 1]
    exact readEntries_eq_filterMap h
  rw [hmalformed]
  constructor
  · intro h
    exact ⟨⟨entries, h⟩, hentries h⟩
  · rintro ⟨⟨entries', h⟩, rfl⟩
    rw [h, hentries h]

theorem isNormal_of_mem {text : List Char} {entries : List Assignment}
    (h : readAssignments text = .ok entries) : ∀ e ∈ entries, e.IsNormal := by
  intro e he
  rw [(readAssignments_eq_ok_iff.mp h).2] at he
  obtain ⟨line, hline, hread⟩ := List.mem_filterMap.mp he
  exact .of_read? (newline_notMem_of_mem_splitLines hline) hread

/-! ### Two tables -/

section
variable {a b text above line below : List Char}

/-- A table may have something below it, as long as this starts on a line of its own. -/
theorem IsFirstMalformed.append (h : IsFirstMalformed a above line below) :
    IsFirstMalformed (a ++ '\n' :: b) above line (below ++ '\n' :: b) := by
  obtain ⟨⟨rfl, habove, hline, hbelow⟩, hmalformed, hfirst⟩ := h
  refine ⟨⟨by simp only [List.append_assoc], habove, hline, .inr ?_⟩, hmalformed, hfirst⟩
  rcases hbelow with rfl | ⟨rest, rfl⟩
  · exact ⟨b, rfl⟩
  · exact ⟨rest ++ '\n' :: b, rfl⟩

theorem IsFirstMalformed.prepend (h : IsFirstMalformed b above line below)
    (ha : ∀ earlier ∈ splitLines a, ¬ IsMalformed earlier) :
    IsFirstMalformed (a ++ '\n' :: b) (a ++ '\n' :: above) line below := by
  obtain ⟨⟨rfl, habove, hline, hbelow⟩, hmalformed, hfirst⟩ := h
  refine ⟨⟨by simp only [List.append_assoc, List.cons_append], .inr ?_, hline, hbelow⟩,
    hmalformed, ?_⟩
  · rcases habove with rfl | ⟨rest, rfl⟩
    · exact ⟨a, rfl⟩
    · exact ⟨a ++ '\n' :: rest, by simp only [List.append_assoc, List.cons_append]⟩
  · rw [splitLines_append_newline, List.forall_mem_append]
    exact ⟨ha, hfirst⟩

theorem readAssignments_append_of_error {fault : TextFault}
    (h : readAssignments a = .error fault) :
    readAssignments (a ++ '\n' :: b) = .error fault := by
  obtain ⟨above, line, below, hfirst, hfault⟩ := readAssignments_eq_error_iff.mp h
  exact readAssignments_eq_error_iff.mpr ⟨above, line, _, hfirst.append, hfault⟩

/-- What the lower table fails with is found as many lines further down as the upper one has. -/
theorem readAssignments_append_of_ok_of_error {entries : List Assignment} {fault : TextFault}
    (ha : readAssignments a = .ok entries) (hb : readAssignments b = .error fault) :
    ∃ number line, fault = .malformedEntry number line ∧
      readAssignments (a ++ '\n' :: b) =
        .error (.malformedEntry (number + (a.count '\n' + 1)) line) := by
  obtain ⟨above, line, below, hfirst, rfl⟩ := readAssignments_eq_error_iff.mp hb
  refine ⟨_, _, rfl, readAssignments_eq_error_iff.mpr
    ⟨_, line, below, hfirst.prepend (readAssignments_eq_ok_iff.mp ha).1, ?_⟩⟩
  rw [List.count_append, List.count_cons_self]
  congr 1
  omega

theorem readAssignments_append_of_ok {entries entries' : List Assignment}
    (ha : readAssignments a = .ok entries) (hb : readAssignments b = .ok entries') :
    readAssignments (a ++ '\n' :: b) = .ok (entries ++ entries') := by
  obtain ⟨habove, hentries⟩ := readAssignments_eq_ok_iff.mp ha
  obtain ⟨hbelow, hentries'⟩ := readAssignments_eq_ok_iff.mp hb
  rw [readAssignments_eq_ok_iff, splitLines_append_newline, List.filterMap_append, ← hentries,
    ← hentries']
  exact ⟨List.forall_mem_append.mpr ⟨habove, hbelow⟩, rfl⟩

theorem readWords_append (a b : List Char) :
    readWords (a ++ '\n' :: b) = readWords a ++ readWords b := by
  have hwords : ∀ text, readWords text =
      (((splitLines text).map trim).filter (· ≠ [])).map (String.ofList <| upperChars ·) := by
    intro text
    rw [← map_snd_numberLines 1, List.map_map]
    rfl
  simp only [hwords, splitLines_append_newline, List.map_append, List.filter_append]

/-! ### Writing and reading again -/

/-- A table whose lines, apart from blank ones, are those of normal entries. -/
theorem readAssignments_of_splitLines {entries : List Assignment} (h : ∀ e ∈ entries, e.IsNormal)
    {blank : List (List Char)} (hblank : ∀ line ∈ blank, line = [])
    (htext : splitLines text = entries.map Assignment.line ++ blank) :
    readAssignments text = .ok entries := by
  have hread : blank.filterMap Assignment.read? = [] := by
    rw [List.filterMap_eq_nil_iff]
    intro line hline
    rw [hblank line hline]
    rfl
  rw [readAssignments_eq_ok_iff, htext, List.filterMap_append, hread, List.append_nil,
    Assignment.filterMap_read?_line h]
  -- a written line has a colon, and a blank one need not have one
  refine ⟨List.forall_mem_append.mpr ⟨?_, ?_⟩, rfl⟩
  · rintro _ hline ⟨-, hcolon⟩
    obtain ⟨e, -, rfl⟩ := List.mem_map.mp hline
    exact hcolon (List.mem_append_right _ List.mem_cons_self)
  · rintro line hline ⟨htrim, -⟩
    rw [hblank line hline] at htrim
    exact htrim rfl

/-- The entries of a table are read again from their lines, with newlines between them or after
each of them. -/
theorem readAssignments_lines {entries : List Assignment} (h : readAssignments text = .ok entries) :
    readAssignments (List.intercalate ['\n'] (entries.map Assignment.line)) = .ok entries ∧
      readAssignments (entries.flatMap fun e => e.line ++ ['\n']) = .ok entries := by
  have hnormal := isNormal_of_mem h
  have hlines : ∀ line ∈ entries.map Assignment.line, '\n' ∉ line := by
    intro line hline
    obtain ⟨e, he, rfl⟩ := List.mem_map.mp hline
    exact (hnormal e he).newline_notMem
  constructor
  · by_cases hnil : entries = []
    · -- no lines are a blank one
      subst hnil
      rfl
    · exact readAssignments_of_splitLines hnormal (List.forall_mem_nil _)
        ((splitLines_intercalate (mt List.map_eq_nil_iff.mp hnil) hlines).trans
          (List.append_nil _).symm)
  · apply readAssignments_of_splitLines hnormal (List.forall_mem_singleton.mpr rfl)
    rw [← splitLines_flatMap hlines, List.flatMap_map]

end

/-- Of a table that is cut into two at a newline, the upper part is read first. If it cannot be
read, the whole fails with the same fault. Otherwise a fault of the lower part is one of the whole,
on a line that is further down by the newlines of the upper part and the one that cuts it off.
Otherwise both parts are read, and the whole has the entries of the upper part and then those of the
lower one. The words of a list come one part after the other as well. And what is read from a table
and written as lines is read again unchanged. -/
theorem tables_read_in_parts (a b : List Char) :
    (∀ fault, readAssignments a = .error fault →
      readAssignments (a ++ '\n' :: b) = .error fault) ∧
    (∀ above, readAssignments a = .ok above →
      (∀ fault, readAssignments b = .error fault →
        ∃ number line, fault = .malformedEntry number line ∧
          readAssignments (a ++ '\n' :: b) =
            .error (.malformedEntry (number + (a.count '\n' + 1)) line)) ∧
      ∀ below, readAssignments b = .ok below →
        readAssignments (a ++ '\n' :: b) = .ok (above ++ below)) ∧
    readWords (a ++ '\n' :: b) = readWords a ++ readWords b ∧
    ∀ text entries, readAssignments text = .ok entries →
      readAssignments (List.intercalate ['\n'] (entries.map Assignment.line)) = .ok entries ∧
        readAssignments (entries.flatMap fun e => e.line ++ ['\n']) = .ok entries := by
  refine ⟨?_, ?_, readWords_append a b, fun text entries => readAssignments_lines⟩
  · intro fault
    exact readAssignments_append_of_error
  · intro above ha
    exact ⟨fun fault hb => readAssignments_append_of_ok_of_error ha hb,
      fun below hb => readAssignments_append_of_ok ha hb⟩

/-- A table with a name that grows in upper case and with a blank line, in front of a table that
cannot be read, behind it, and in front of another one that can be read. -/
theorem tables_read_in_parts_sharp_s :
    let good := " a\u00df : x:y \r\n\r".toList
    let bad := "b:\n word\r\n".toList
    let entries : List Assignment := [⟨"ASS", "x:y"⟩]
    readAssignments good = .ok entries ∧
      readAssignments bad = .error (.malformedEntry 2 "word".toList) ∧
      readAssignments (bad ++ '\n' :: good) = .error (.malformedEntry 2 "word".toList) ∧
      readAssignments (good ++ '\n' :: bad) = .error (.malformedEntry 4 "word".toList) ∧
      readAssignments (good ++ '\n' :: good) = .ok (entries ++ entries) ∧
      readAssignments "ASS: x:y\n".toList = .ok entries := by
  intro good bad entries
  have hgood : readAssignments good = .ok entries := by decide
  have hbad : readAssignments bad = .error (.malformedEntry 2 "word".toList) := by decide
  obtain ⟨-, habove, -, hlines⟩ := tables_read_in_parts good bad
  obtain ⟨hfault, -⟩ := habove entries hgood
  obtain ⟨number, line, heq, hbelow⟩ := hfault _ hbad
  obtain ⟨rfl, rfl⟩ := TextFault.malformedEntry.inj heq
  refine ⟨hgood, hbad, ?_, hbelow, ?_, ?_⟩
  · exact (tables_read_in_parts bad good).1 _ hbad
  · exact ((tables_read_in_parts good good).2.1 entries hgood).2 entries hgood
  · exact (hlines good entries hgood).2

end GrammarLayers
