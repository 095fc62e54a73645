import GrammarLayers.Proofs.Fragment.PlainText
import GrammarLayers.Proofs.Layer.TokenOrder
import GrammarLayers.Proofs.Render.TokenLines

/-!
# Reading back the production for a word list

The production that accepts any non-reserved keyword is written from the list of these words, and
not read from a fragment. Still, what is written is the text of a production: read as a fragment it
gives the one that is put into the grammar, and no other. For this the words have to be plain, as
they stand in the second block of the production. Otherwise they are free: what looks like a
signature in them lies inside of the production, and the brackets around a word keep it from forming
the opening of a comment with what comes before or after it.

## Main definitions

* `wordLines` — the lines of the words in the text of the production
* `nonReservedBody` — what stands between the outer braces of the second block

## Main results

* `nonReservedText_eq_some` — the text, cut at its blocks
* `holdsItems_nonReservedBody` — plain words may stand in a block
* `standsAlone_of_nonReservedProduction` — the production stands alone
* `nonReservedText_reads_back` — what is read from the text is what is put into the grammar
-/

namespace GrammarLayers

variable {words : WordList}

/-- The lines of the words in the text of their production. -/
def wordLines (words : WordList) : List (List Char) :=
  leadLines "        ".toList "    |   ".toList
    (words.names.map fun name => '<' :: (name.toList ++ ['>']))

/-- What stands between the outer braces of the second block. -/
def nonReservedBody (words : WordList) : List Char :=
  "\n    (\n".toList ++ (List.intercalate ['\n'] (wordLines words) ++ ['\n'] ++
    ("    )\n    ".toList ++
      (('\x7b' :: ("\n        return unquotedIdentifier();\n    ".toList ++ ['\x7d'])) ++ ['\n'])))

/-! ### The parts of the text -/

theorem WordList.isEmpty_eq_false_iff : words.isEmpty = false ↔ words.names ≠ [] := by
  simp [isEmpty, names, toList]

theorem wordLines_ne_nil (h : words.isEmpty = false) : wordLines words ≠ [] := by
  obtain ⟨name, names, hcons⟩ := List.exists_cons_of_ne_nil (WordList.isEmpty_eq_false_iff.mp h)
  rw [wordLines, hcons]
  exact List.cons_ne_nil _ _

/-- The text of the production is a signature and two blocks. -/
theorem nonReservedText_eq_some (h : words.isEmpty = false) :
    nonReservedText words = some ("String NonReservedKeyWord() :".toList ++ ['\n'] ++
      ('\x7b' :: (['\n'] ++ ['\x7d'])) ++
        (['\n'] ++ '\x7b' :: (nonReservedBody words ++ ['\x7d']))) := by
  have hne : ¬ words.isEmpty = true := by
    rw [h]
    exact Bool.false_ne_true
  -- the fixed texts are cut first, while nothing else is there
  have hopening : "String NonReservedKeyWord() :\n\x7b\n\x7d\n\x7b\n    (\n".toList =
      "String NonReservedKeyWord() :".toList ++ ['\n'] ++ ('\x7b' :: (['\n'] ++ ['\x7d'])) ++
        (['\n'] ++ '\x7b' :: "\n    (\n".toList) := by
    decide
  have hclosing : "\n    )\n    \x7b\n        return unquotedIdentifier();\n    \x7d\n\x7d".toList =
      ['\n'] ++ ("    )\n    ".toList ++
        ('\x7b' :: ("\n        return unquotedIdentifier();\n    ".toList ++ ['\x7d']) ++
          (['\n'] ++ ['\x7d']))) := by
    decide
  have hparts : ∀ front opening lines closing action : List Char,
      front ++ (['\n'] ++ '\x7b' :: opening) ++ lines ++ (['\n'] ++ (closing ++
          ('\x7b' :: (action ++ ['\x7d']) ++ (['\n'] ++ ['\x7d'])))) =
        front ++ (['\n'] ++ '\x7b' :: (opening ++ (lines ++ ['\n'] ++ (closing ++
          (('\x7b' :: (action ++ ['\x7d'])) ++ ['\n']))) ++ ['\x7d'])) := by
    simp
  have hjoin := congrArg₂ (fun opening closing =>
    opening ++ List.intercalate ['\n'] (wordLines words) ++ closing) hopening hclosing
  unfold nonReservedText
  rw [if_neg hne]
  exact congrArg some (hjoin.trans (hparts _ _ _ _ _))

/-! ### Plain words -/

/-- The line of a plain word, with the newline after it. -/
theorem holdsItems_wordLine {lead name : List Char}
    (hlead : lead = "        ".toList ∨ lead = "    |   ".toList) (hname : IsPlain name) :
    HoldsItems (lead ++ '<' :: (name ++ ['>']) ++ ['\n']) := by
  have hopening : IsPlain (lead ++ ['<']) := by
    rcases hlead with rfl | rfl
    all_goals decide
  have hclosing : IsPlain ['>', '\n'] := by decide
  -- the brackets keep a slash or a star of the word from what is around it
  have hplain : IsPlain (lead ++ ['<'] ++ name ++ ['>', '\n']) :=
    (hopening.append hname (.inl (by simp))).append hclosing (.inr (by decide))
  have hline : lead ++ '<' :: (name ++ ['>']) ++ ['\n'] =
      lead ++ ['<'] ++ name ++ ['>', '\n'] := by
    simp
  rw [hline]
  refine hplain.holdsItems ⟨'\n', ?_, by decide⟩
  rw [List.getLast?_append_of_ne_nil _ (List.cons_ne_nil _ _)]
  rfl

theorem holdsItems_nonReservedBody (hne : words.isEmpty = false)
    (h : ∀ name ∈ words.names, IsPlain name.toList) : HoldsItems (nonReservedBody words) := by
  have hlines : HoldsItems (List.intercalate ['\n'] (wordLines words) ++ ['\n']) := by
    rw [intercalate_append_newline (wordLines_ne_nil hne)]
    apply HoldsItems.flatMap
    intro line hline
    obtain ⟨item, hitem, hlead⟩ := exists_of_mem_leadLines hline
    obtain ⟨name, hname, rfl⟩ := List.mem_map.mp hitem
    rcases hlead with rfl | rfl
    · exact holdsItems_wordLine (.inl rfl) (h name hname)
    · exact holdsItems_wordLine (.inr rfl) (h name hname)
  have hopening : HoldsItems "\n    (\n".toList :=
    IsPlain.holdsItems (by decide) ⟨'\n', by decide, by decide⟩
  have hclosing : HoldsItems "    )\n    ".toList :=
    IsPlain.holdsItems (by decide) ⟨' ', by decide, by decide⟩
  have haction : HoldsItems "\n        return unquotedIdentifier();\n    ".toList :=
    IsPlain.holdsItems (by decide) ⟨' ', by decide, by decide⟩
  have hnewline : HoldsItems ['\n'] :=
    IsPlain.holdsItems (by decide) ⟨'\n', rfl, by decide⟩
  exact hopening.append (hlines.append (hclosing.append (haction.braces.append hnewline)))

/-! ### What is read from the text -/

theorem isForm_nonReserved : Signature.IsForm "String".toList "NonReservedKeyWord".toList
    "String NonReservedKeyWord() :".toList := by
  have hspace : Signature.IsBlanks [' '] := List.forall_mem_singleton.mpr rfl
  have hkind : Signature.IsWord "String".toList :=
    ⟨by decide, List.all_eq_true.mp (by decide)⟩
  have hname : Signature.IsWord "NonReservedKeyWord".toList :=
    ⟨by decide, List.all_eq_true.mp (by decide)⟩
  have hpair : Signature.IsPair "String".toList "NonReservedKeyWord".toList
      ("String".toList ++ [' '] ++ "NonReservedKeyWord".toList) :=
    .mk hkind (List.cons_ne_nil _ _) hspace hname
  have hform := Signature.IsForm.mk hpair Signature.isBlanks_nil
    (.inl Signature.isBlanks_nil) hspace
  have htext : "String".toList ++ [' '] ++ "NonReservedKeyWord".toList ++ [] ++ '(' :: [] ++
      ')' :: [' '] ++ [':'] = "String NonReservedKeyWord() :".toList := by
    decide
  exact Eq.mp (congrArg _ htext) hform

/-- The production stands alone. -/
theorem standsAlone_of_nonReservedProduction {p : Production} (hne : words.isEmpty = false)
    (hplain : ∀ name ∈ words.names, IsPlain name.toList)
    (h : nonReservedProduction words = some p) : p.StandsAlone := by
  obtain ⟨text, htext, rfl⟩ := Option.map_eq_some_iff.mp h
  have hcut := Option.some.inj (htext.symm.trans (nonReservedText_eq_some hne))
  have hnewline : HoldsItems ['\n'] := IsPlain.holdsItems (by decide) ⟨'\n', rfl, by decide⟩
  exact Production.standsAlone_of_holdsItems isForm_nonReserved hnewline
    (List.forall_mem_singleton.mpr rfl) (holdsItems_nonReservedBody hne hplain)
    String.ofList_toList.symm String.ofList_toList.symm (String.toList_ofList.trans hcut)

/-- Where all the words of a list are plain, their production can be read back from its text as the
only production there. What is read is what goes into the grammar: it has the name and the kind that
the text says, it is all of the text, and it comes from no file. -/
theorem nonReservedText_reads_back (words : WordList) (hne : words.isEmpty = false)
    (hplain : ∀ name ∈ words.names, IsPlain name.toList) :
    ∃ text p, nonReservedText words = some text ∧ Production.readAll text = .ok [p] ∧
      p = ⟨"NonReservedKeyWord", "String", String.ofList text, ⟨0, byteSize text⟩, none⟩ ∧
      nonReservedProduction words = some p ∧
      (∀ a : Assembly, a.lexicon.nonReserved = words →
        a.addNonReserved = { a with grammar := (a.grammar.insert p).2 }) ∧
      ∀ t options root dialect a, assemble t options root dialect = .ok a →
        a.lexicon.nonReserved = words → a.grammar.get? "NonReservedKeyWord" = some p := by
  obtain ⟨text, htext⟩ : ∃ text, nonReservedText words = some text :=
    ⟨_, nonReservedText_eq_some hne⟩
  have hproduction : nonReservedProduction words = some
      ⟨"NonReservedKeyWord", "String", String.ofList text, ⟨0, byteSize text⟩, none⟩ := by
    rw [nonReservedProduction, htext]
    rfl
  have hread := (standsAlone_of_nonReservedProduction hne hplain hproduction).readAll_eq
  rw [Production.alone] at hread
  simp only [String.toList_ofList] at hread
  refine ⟨text, _, htext, hread, rfl, hproduction, ?_, ?_⟩
  · rintro a rfl
    rw [Assembly.addNonReserved, hproduction]
  · rintro t options root dialect a ha rfl
    obtain ⟨names, layers, gathered, -, -, hgathers, rfl⟩ := assemble_eq_ok_iff.mp ha
    obtain ⟨ps, -, hgrammar⟩ := hgathers.exists_productionsIn
    -- the production is inserted last, and so is the one that is found
    have hget := (Assembly.overrides_addNonReserved hgrammar).get?_nonReservedName
    rw [hproduction, Option.some_or] at hget
    exact hget

/-- Words that hold a signature, a backslash, and the end of a comment before a slash; and the words
of the assembled sample. -/
theorem nonReservedText_reads_back_signature :
    let words := WordList.empty.insertAll ["t a():", "\\*", "*/ \u00e9/"] ⟨"/words.txt"⟩
    let a : Assembly := { Assembly.empty with lexicon := { nonReserved := words } }
    words.names = ["T A():", "\\*", "*/ \u00c9/"] ∧ words.isEmpty = false ∧
      (∀ name ∈ words.names, IsPlain name.toList) ∧
      (∃ text p, nonReservedText words = some text ∧ Production.readAll text = .ok [p] ∧
        p.text = String.ofList text ∧ a.addNonReserved.grammar = (a.grammar.insert p).2) ∧
      ∃ b p, assemble sampleTree ⟨"ftl", none⟩ ⟨"/g"⟩ ⟨"/g/d"⟩ = .ok b ∧
        nonReservedProduction b.lexicon.nonReserved = some p ∧
        b.grammar.get? "NonReservedKeyWord" = some p := by
  intro words a
  have hnames : words.names = ["T A():", "\\*", "*/ \u00c9/"] := by decide +kernel
  have hne : words.isEmpty = false := by decide +kernel
  have hplain : ∀ name ∈ words.names, IsPlain name.toList := by
    rw [hnames]
    decide
  obtain ⟨text, p, htext, hread, hp, -, hinsert, -⟩ := nonReservedText_reads_back words hne hplain
  refine ⟨hnames, hne, hplain, ⟨text, p, htext, hread, ?_, ?_⟩, ?_⟩
  · rw [hp]
  · rw [hinsert a rfl]
  · obtain ⟨b, hb, hwords⟩ := sampleTree_words
    have hne' : b.lexicon.nonReserved.isEmpty = false := by
      rw [WordList.isEmpty_eq_false_iff, hwords]
      exact List.cons_ne_nil _ _
    have hplain' : ∀ name ∈ b.lexicon.nonReserved.names, IsPlain name.toList := by
      rw [hwords]
      decide
    obtain ⟨-, q, -, -, -, hq, -, hget⟩ :=
      nonReservedText_reads_back b.lexicon.nonReserved hne' hplain'
    exact ⟨b, q, hb, hq, hget _ _ _ _ b hb rfl⟩

end GrammarLayers
