import GrammarLayers.Proofs.Layer.Atomicity
import GrammarLayers.Proofs.Table.NormalForm
import GrammarLayers.Render.Sections

/-!
# Reading back the section of a token table

In the section of a token table every token has a line of its own, in the order of the table. Names
and values come from files, as normal entries of tables, and so it can be told where in the line a
name ends and where its value does. What is in the table can therefore be read back from its
section, whatever files it was filled from.

## Main definitions

* `TokenDef.assignment` — the name and the value of a token
* `readTokenLine` — reads a line of a section
* `tableAfter` — a table that was filled from files
* `tokenLines` — the lines of the tokens of a table

## Main results

* `toList_tableAfter` — the tokens in a table after files have been tried
* `isNormal_of_mem_tableAfter` — names and values in it can be told apart in a line
* `splitLines_tokenSection` — the lines of a section
* `tokenSection_lossless` — what is in a table can be read back from its section
-/

namespace GrammarLayers

/-- The name and the value of a token, as a table file assigns them. -/
def TokenDef.assignment (t : TokenDef) : Assignment := ⟨t.name, t.value⟩

/-- Reads a line of a section: a lead of four characters, and then a name and its value between
angle brackets, split at the first colon. -/
def readTokenLine (line : List Char) : Option Assignment := do
  let opened ← (line.drop 4).dropPrefix? "< ".toList
  let item ← opened.dropSuffix? " >".toList
  match item.dropWhile (· != ':') with
  | [] => none
  | _ :: value => some ⟨String.ofList (item.takeWhile (· != ':')), String.ofList (trim value)⟩

/-- The table of a class after files have been tried one after another, with no tokens before. -/
def tableAfter (files : List TableFile) (c : TokenClass) : TokenTable :=
  (Loading.attempts TableFile.load .empty files).2.table c

/-- The lines of the tokens in a section. -/
def tokenLines (table : TokenTable) : List (List Char) :=
  leadLines "    ".toList "|   ".toList (table.toList.map tokenItem)

/-! ### Tables after files have been tried -/

namespace TableFile

variable {f : TableFile} {c : TokenClass} {l l' : Lexicon} {failure : Failure}

/-- A file that is not merged assigns nothing. -/
theorem assigned_eq_nil_of_error (h : f.load.run.run l = (.error failure, l')) :
    f.assigned c = [] := by
  rw [load, Lexicon.run_load] at h
  by_cases hkind : f.kind = .assignments c
  · rw [assigned, if_pos hkind]
    rw [hkind] at h
    cases hread : readTextAs f.tree .tokenTable f.path with
    | error cause =>
      rw [content, hread]
      rfl
    | ok text =>
      rw [hread] at h
      rw [content_of_readTextAs hread]
      dsimp only at h
      split at h
      next hfault => rw [hfault]
      next => cases h
  · exact assigned_eq_nil hkind

/-- Trying a file puts what it assigns into a table. -/
theorem table_run_load (f : TableFile) (c : TokenClass) (l : Lexicon) :
    (f.load.run.run l).2.table c = ((l.table c).insertAll (f.assigned c)).2 := by
  rcases hrun : f.load.run.run l with ⟨failure | report, l'⟩
  · obtain ⟨rfl, -⟩ := (Lexicon.load_isAtomic l l' failure).mp hrun
    rw [assigned_eq_nil_of_error hrun]
    rfl
  · exact (load_eq_ok hrun).1 c

end TableFile

open Loading TableFile

section
variable {files : List TableFile} {c : TokenClass} {l : Lexicon}

/-- After files have been tried, a table has the last token of each name that they assign. -/
theorem toList_table_attempts (hindexed : (l.table c).WellIndexed) :
    ((attempts TableFile.load l files).2.table c).toList =
      (files.flatMap (·.assigned c)).foldl (overrideAtEnd TokenDef.name) (l.table c).toList := by
  induction files generalizing l with
  | nil => rfl
  | cons f files ih =>
    -- what the file assigns is put into the table, whether or not it could be merged
    obtain ⟨hindexed', hlist⟩ := hindexed.insertAll (f.assigned c)
    rw [← table_run_load] at hindexed' hlist
    rw [List.flatMap_cons, List.foldl_append, ← hlist, ← ih hindexed']
    rfl

theorem toList_tableAfter : (tableAfter files c).toList =
    (files.flatMap (·.assigned c)).foldl (overrideAtEnd TokenDef.name) [] := by
  have hempty : Lexicon.empty.table c = .empty := by cases c <;> rfl
  have hindexed : (Lexicon.empty.table c).WellIndexed := by
    rw [hempty]
    exact TokenTable.wellIndexed_empty
  rw [tableAfter, toList_table_attempts hindexed, hempty]
  rfl

/-- What a file assigns was read from its lines. -/
theorem TableFile.isNormal_of_mem_assigned {f : TableFile} {token : TokenDef}
    (h : token ∈ f.assigned c) : token.assignment.IsNormal := by
  unfold assigned at h
  split at h
  next =>
    split at h
    next entries hentries =>
      obtain ⟨e, he, rfl⟩ := List.mem_map.mp h
      exact isNormal_of_mem hentries e he
    next => cases h
  next => cases h

theorem isNormal_of_mem_tableAfter {token : TokenDef} (h : token ∈ (tableAfter files c).toList) :
    token.assignment.IsNormal := by
  have hassigned : token ∈ files.flatMap (·.assigned c) := by
    rw [toList_tableAfter] at h
    exact (mem_or_mem_of_mem_foldl_overrideAtEnd TokenDef.name h).resolve_right List.not_mem_nil
  obtain ⟨f, -, hf⟩ := List.mem_flatMap.mp hassigned
  exact isNormal_of_mem_assigned hf

end

/-! ### The lines of a section -/

section
variable {table table' : TokenTable} {text : List Char}

theorem tokenItem_eq (t : TokenDef) :
    tokenItem t = "< ".toList ++ (t.assignment.line ++ " >".toList) := by
  simp [tokenItem, TokenDef.assignment, Assignment.line]

/-- Whatever its lead, a line is read back as the token in it. -/
theorem readTokenLine_append_tokenItem {lead : List Char} (hlead : lead.length = 4) {t : TokenDef}
    (h : t.assignment.IsNormal) : readTokenLine (lead ++ tokenItem t) = some t.assignment := by
  have hopened : ((lead ++ tokenItem t).drop 4).dropPrefix? "< ".toList =
      some (t.assignment.line ++ " >".toList) := by
    rw [List.drop_left' hlead, tokenItem_eq]
    exact List.dropPrefix?_append_of_beq _ (beq_self_eq_true _)
  have hitem : (t.assignment.line ++ " >".toList).dropSuffix? " >".toList =
      some t.assignment.line :=
    List.dropSuffix?_eq_some_iff.mpr ⟨_, rfl, beq_self_eq_true _⟩
  have hname : t.assignment.line.takeWhile (· != ':') = t.assignment.name.toList :=
    Assignment.takeWhile_append_colon h.colon_notMem
  have hvalue : t.assignment.line.dropWhile (· != ':') = ':' :: ' ' :: t.assignment.value.toList :=
    Assignment.dropWhile_append_colon h.colon_notMem
  simp only [readTokenLine, hopened, hitem, hname, hvalue, h.trim_cons_value, Option.bind_eq_bind,
    Option.bind_some, String.ofList_toList]

/-- What is read from a line does not depend on which of the two leads it has. -/
theorem map_leadLines {α β : Type} {first other : List Char} {item : α → List Char}
    {read : List Char → β} {value : α → β} {entries : List α}
    (h : ∀ e ∈ entries, read (first ++ item e) = value e ∧ read (other ++ item e) = value e) :
    (leadLines first other (entries.map item)).map read = entries.map value := by
  cases entries with
  | nil => rfl
  | cons e entries =>
    obtain ⟨⟨hfirst, -⟩, hothers⟩ := List.forall_mem_cons.mp h
    rw [List.map_cons, leadLines, List.map_cons, List.map_cons, hfirst, List.map_map, List.map_map]
    exact congrArg _ (List.map_congr_left fun e he => (hothers e he).2)

theorem exists_of_mem_leadLines {first other line : List Char} {items : List (List Char)}
    (h : line ∈ leadLines first other items) :
    ∃ item ∈ items, line = first ++ item ∨ line = other ++ item := by
  cases items with
  | nil => cases h
  | cons item items =>
    rcases List.mem_cons.mp h with rfl | h
    · exact ⟨item, List.mem_cons_self, .inl rfl⟩
    · obtain ⟨item', hitem', rfl⟩ := List.mem_map.mp h
      exact ⟨item', List.mem_cons_of_mem item hitem', .inr rfl⟩

theorem tokenSection_eq_none_iff : tokenSection table = none ↔ table.toList = [] := by
  rw [tokenSection, TokenTable.isEmpty, TokenTable.toList]
  split
  next hempty => simpa using hempty
  next htokens => simpa using htokens

theorem eq_of_tokenSection_eq_some (h : tokenSection table = some text) :
    text = "<DEFAULT, DQID, BTID> TOKEN :".toList ++ '\n' :: (['\x7b'] ++ '\n' ::
      (List.intercalate ['\n'] (tokenLines table) ++ '\n' :: ['\x7d'])) := by
  rw [tokenSection] at h
  split at h
  next => cases h
  next =>
    have hsome := Option.some.inj h
    rw [← hsome, tokenLines]
    simp

/-- Tokens that can be told apart in a line do not end it either. -/
theorem newline_notMem_tokenLines (h : ∀ t ∈ table.toList, t.assignment.IsNormal) :
    ∀ line ∈ tokenLines table, '\n' ∉ line := by
  intro line hline
  obtain ⟨item, hitem, hlead⟩ := exists_of_mem_leadLines hline
  obtain ⟨t, ht, rfl⟩ := List.mem_map.mp hitem
  have hitem' : '\n' ∉ tokenItem t := by
    have hassignment := (h t ht).newline_notMem
    simpa [tokenItem_eq] using hassignment
  rcases hlead with rfl | rfl
  all_goals simpa using hitem'

theorem map_readTokenLine_tokenLines (h : ∀ t ∈ table.toList, t.assignment.IsNormal) :
    (tokenLines table).map readTokenLine = (table.toList.map TokenDef.assignment).map some := by
  rw [List.map_map]
  exact map_leadLines fun t ht =>
    ⟨readTokenLine_append_tokenItem rfl (h t ht), readTokenLine_append_tokenItem rfl (h t ht)⟩

/-- Between its second line and its last one a section has the lines of its tokens. -/
theorem splitLines_tokenSection (h : ∀ t ∈ table.toList, t.assignment.IsNormal)
    (htext : tokenSection table = some text) :
    splitLines text =
      "<DEFAULT, DQID, BTID> TOKEN :".toList :: ['\x7b'] :: (tokenLines table ++ [['\x7d']]) := by
  have hlines : tokenLines table ≠ [] := by
    intro hnil
    have hread := map_readTokenLine_tokenLines h
    rw [hnil] at hread
    have hempty : table.toList = [] := by simpa using hread
    rw [tokenSection_eq_none_iff.mpr hempty] at htext
    cases htext
  have hheader : '\n' ∉ "<DEFAULT, DQID, BTID> TOKEN :".toList := by decide
  have hopening : '\n' ∉ ['\x7b'] := by decide
  have hclosing : '\n' ∉ ['\x7d'] := by decide
  rw [eq_of_tokenSection_eq_some htext, splitLines_append_newline, splitLines_append_newline,
    splitLines_append_newline, splitLines_of_notMem hheader, splitLines_of_notMem hopening,
    splitLines_of_notMem hclosing, splitLines_intercalate hlines (newline_notMem_tokenLines h)]
  rfl

/-- Tables with the same section have the same names with the same values, in the same order. -/
theorem map_assignment_eq_of_tokenSection_eq (h : ∀ t ∈ table.toList, t.assignment.IsNormal)
    (h' : ∀ t ∈ table'.toList, t.assignment.IsNormal)
    (heq : tokenSection table = tokenSection table') :
    table.toList.map TokenDef.assignment = table'.toList.map TokenDef.assignment := by
  cases htext : tokenSection table with
  | none => rw [tokenSection_eq_none_iff.mp htext, tokenSection_eq_none_iff.mp (heq ▸ htext)]
  | some text =>
    have hsplit := splitLines_tokenSection h htext
    rw [splitLines_tokenSection h' (heq ▸ htext)] at hsplit
    have hlines : tokenLines table = tokenLines table' := by simpa using hsplit.symm
    have hread := map_readTokenLine_tokenLines h
    rw [hlines, map_readTokenLine_tokenLines h'] at hread
    exact List.map_injective_iff.mpr (Option.some_injective _) hread.symm

end

/-- A table that was filled from files has a section unless it is empty. The lines of the section
between the braces are as many as the tokens, and they can be read back as their names and values,
in their order. So tables in which these are different have different sections. -/
theorem tokenSection_lossless (files : List TableFile) (c : TokenClass) :
    (tokenSection (tableAfter files c) = none ↔ (tableAfter files c).toList = []) ∧
    (∀ text, tokenSection (tableAfter files c) = some text →
      ∃ lines, splitLines text =
          "<DEFAULT, DQID, BTID> TOKEN :".toList :: ['\x7b'] :: (lines ++ [['\x7d']]) ∧
        lines.length = (tableAfter files c).toList.length ∧
        lines.map readTokenLine =
          (tableAfter files c).toList.map fun t => some ⟨t.name, t.value⟩) ∧
    ∀ files' c', tokenSection (tableAfter files c) = tokenSection (tableAfter files' c') →
      (tableAfter files c).toList.map TokenDef.assignment =
        (tableAfter files' c').toList.map TokenDef.assignment := by
  have hnormal : ∀ files c, ∀ t ∈ (tableAfter files c).toList, t.assignment.IsNormal :=
    fun files c t => isNormal_of_mem_tableAfter
  refine ⟨tokenSection_eq_none_iff, ?_, ?_⟩
  · intro text htext
    have hread := map_readTokenLine_tokenLines (hnormal files c)
    rw [List.map_map] at hread
    have hlength := congrArg List.length hread
    rw [List.length_map, List.length_map] at hlength
    exact ⟨_, splitLines_tokenSection (hnormal files c) htext, hlength, hread⟩
  · intro files' c' heq
    exact map_assignment_eq_of_tokenSection_eq (hnormal files c) (hnormal files' c') heq

/-- A table with a license header, and with a name and a value that are hard to tell apart, and a
table with a malformed line. -/
def oddTree : FileTree where
  top :=
    [("a.txt", .ofText "#\nk\u00df : \x7b| > : \x7d\r\n\n:\n"), ("b.txt", .ofText "A: 1\nB\n")]
  workingDirectory := []

/-- Both tables, loaded as keywords. -/
def oddTables : List TableFile :=
  [⟨oddTree, some ['#', '\n'], .assignments .keyword, ⟨"/a.txt"⟩⟩,
    ⟨oddTree, none, .assignments .keyword, ⟨"/b.txt"⟩⟩]

theorem oddTables_assigned : oddTables.flatMap (·.assigned .keyword) =
    [⟨"KSS", "\x7b| > : \x7d", some ⟨"/a.txt"⟩⟩, ⟨"", "", some ⟨"/a.txt"⟩⟩] := by
  have hfirst : oddTree.readText ⟨"/a.txt"⟩ = .ok "#\nk\u00df : \x7b| > : \x7d\r\n\n:\n" := by
    have hsteps : (⟨"/a.txt"⟩ : Path).allSteps = ["a.txt"].map .down := by decide
    exact FileTree.readText_of_at? rfl rfl hsteps rfl (by decide)
  have hsecond : oddTree.readText ⟨"/b.txt"⟩ = .ok "A: 1\nB\n" := by
    have hsteps : (⟨"/b.txt"⟩ : Path).allSteps = ["b.txt"].map .down := by decide
    exact FileTree.readText_of_at? rfl rfl hsteps rfl (by decide)
  simp only [oddTables, List.flatMap_cons, List.flatMap_nil, assigned, content, readTextAs, hfirst,
    hsecond]
  decide

/-- The table with the malformed line is not merged. One of the tokens of the other table has
neither a name nor a value. -/
theorem oddTables_lossless :
    ∃ text lines, tokenSection (tableAfter oddTables .keyword) = some text ∧
      splitLines text =
        "<DEFAULT, DQID, BTID> TOKEN :".toList :: ['\x7b'] :: (lines ++ [['\x7d']]) ∧
      lines.map readTokenLine = [some ⟨"KSS", "\x7b| > : \x7d"⟩, some ⟨"", ""⟩] ∧
      tokenSection (tableAfter oddTables .keyword) ≠ tokenSection (tableAfter [] .operator) := by
  have htokens : (tableAfter oddTables .keyword).toList =
      [⟨"KSS", "\x7b| > : \x7d", some ⟨"/a.txt"⟩⟩, ⟨"", "", some ⟨"/a.txt"⟩⟩] := by
    rw [toList_tableAfter, oddTables_assigned]
    decide
  obtain ⟨hnone, hsome, hinjective⟩ := tokenSection_lossless oddTables .keyword
  cases htext : tokenSection (tableAfter oddTables .keyword) with
  | none =>
    rw [hnone.mp htext] at htokens
    cases htokens
  | some text =>
    obtain ⟨lines, hlines, -, hread⟩ := hsome text htext
    rw [htokens] at hread
    refine ⟨text, lines, rfl, hlines, hread, ?_⟩
    intro heq
    have hsame := hinjective [] .operator (htext.trans heq)
    rw [htokens, toList_tableAfter] at hsame
    cases hsame

end GrammarLayers
