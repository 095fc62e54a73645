import GrammarLayers.Proofs.Fragment.Concatenation
import GrammarLayers.Proofs.Fragment.SelfDelimiting
import GrammarLayers.Proofs.Merge.Index
import GrammarLayers.Render.Sections

/-!
# Reading back what is written

The productions of a grammar can be read back from the generated file and from the listing of
entries. Both are put together from the texts of productions, and blanks and names around them,
which have no signature in them. As no piece can run over into the next one, each of them may be
read by itself.

## Main definitions

* `Production.content` — what is kept of a production: its name, its kind and its text
* `ReadsAs` — a text from which productions with certain contents are read, whatever comes after it
* `Production.IsRead` — a production that was read from some text
* `Grammar.BuiltFrom` — a grammar into which productions of some kind were merged

## Main results

* `ReadsAs.append` — texts can be read one after another
* `BuiltFrom.forall_mem` — nothing else is in a grammar than what was merged into it
* `renderings_read_back` — both renderings of a grammar can be read back, and so tell grammars apart
-/

namespace GrammarLayers

open Signature (Seals IsBlanks)

/-- What is kept of a production: its name, its kind and its text. -/
def Production.content (p : Production) : String × String × String := (p.name, p.kind, p.text)

/-- Productions with these contents are read from the text, and no signature runs over its end. -/
structure ReadsAs (text : List Char) (contents : List (String × String × String)) : Prop where
  seals : Seals text
  reads : ∃ ps, Production.readAll text = .ok ps ∧ ps.map Production.content = contents

variable {a b s : List Char} {p : Production} {contents contents' : List (String × String × String)}

/-! ### Pieces of a text -/

namespace Signature

theorem Match.HasForm.colon_mem {m : Match} (h : m.HasForm) : ':' ∈ m.text := by
  obtain ⟨pair, gap, tail, newline, -, -, -, -, htext⟩ := h.exists_parts
  simp [htext]

/-- There is no signature where there is no colon. -/
theorem findAll_eq_nil (h : ':' ∉ s) : findAll s = [] := by
  rw [List.eq_nil_iff_forall_not_mem]
  intro sig hsig
  obtain ⟨before, m, rfl, hform, -, -⟩ := mem_findAll_iff.mp hsig
  exact h (by simp [hform.colon_mem])

end Signature

theorem ReadsAs.append (ha : ReadsAs a contents) (hb : ReadsAs b contents') :
    ReadsAs (a ++ b) (contents ++ contents') := by
  obtain ⟨hseals, ps, hps, rfl⟩ := ha
  obtain ⟨hseals', qs, hqs, rfl⟩ := hb
  refine ⟨hseals.append hseals', _, Production.readAll_append_of_ok hseals hps hqs, ?_⟩
  rw [List.map_append, List.map_map]
  rfl

/-- What is read from a text does not depend on how it was put together. -/
theorem ReadsAs.unique (h : ReadsAs s contents) (h' : ReadsAs s contents') :
    contents = contents' := by
  obtain ⟨-, ps, hps, rfl⟩ := h
  obtain ⟨-, qs, hqs, rfl⟩ := h'
  rw [Except.ok.inj (hps.symm.trans hqs)]

theorem ReadsAs.of_notMem (hseals : Seals s) (h : ':' ∉ s) : ReadsAs s [] := by
  refine ⟨hseals, [], ?_, rfl⟩
  rw [Production.readAll_eq_ok_iff, Signature.findAll_eq_nil h]
  exact .nil

theorem ReadsAs.of_isBlanks (h : IsBlanks s) : ReadsAs s [] :=
  .of_notMem h.seals fun hcolon => absurd (h ':' hcolon) (by decide)

theorem readsAs_nil : ReadsAs [] [] := .of_isBlanks Signature.isBlanks_nil

theorem isBlanks_newline : IsBlanks ['\n'] := List.forall_mem_singleton.mpr rfl

theorem readsAs_newline : ReadsAs ['\n'] [] := .of_isBlanks isBlanks_newline

theorem ReadsAs.flatMap {f : Production → List Char} {ps : List Production}
    (h : ∀ p ∈ ps, ReadsAs (f p) [p.content]) :
    ReadsAs (ps.flatMap f) (ps.map Production.content) := by
  induction ps with
  | nil => exact readsAs_nil
  | cons p ps ih =>
    obtain ⟨hp, hps⟩ := List.forall_mem_cons.mp h
    rw [List.flatMap_cons]
    exact hp.append (ih hps)

theorem ReadsAs.intercalate {f : Production → List Char} {separator : List Char}
    {ps : List Production} (hseparator : IsBlanks separator)
    (h : ∀ p ∈ ps, ReadsAs (f p) [p.content]) :
    ReadsAs (List.intercalate separator (ps.map f)) (ps.map Production.content) := by
  induction ps with
  | nil => exact readsAs_nil
  | cons p ps ih =>
    obtain ⟨hp, hps⟩ := List.forall_mem_cons.mp h
    cases ps with
    | nil => simpa using hp
    | cons q ps =>
      have hseparated := (hp.append (.of_isBlanks hseparator)).append (ih hps)
      simpa [List.intercalate] using hseparated

/-! ### Productions -/

namespace Production

/-- The production was read from some text; where that text was found may have been noted. -/
def IsRead (p : Production) : Prop :=
  ∃ source ps, readAll source = .ok ps ∧ { p with origin := none } ∈ ps

theorem IsRead.of_mem {source : List Char} {ps : List Production}
    (hread : readAll source = .ok ps) (hp : p ∈ ps) : p.IsRead := by
  obtain ⟨sig, -, hcapture⟩ := (readAll_eq_ok_iff.mp hread).exists_isCapture p hp
  refine ⟨source, ps, hread, ?_⟩
  rwa [← hcapture.origin_eq]

theorem IsRead.standsAlone (h : p.IsRead) : p.StandsAlone := by
  obtain ⟨source, ps, hread, hp⟩ := h
  have hstands : StandsAlone { p with origin := none } := .of_mem hread hp
  exact hstands

theorem StandsAlone.endsInBrace (h : p.StandsAlone) : EndsInBrace p.text.toList := by
  obtain ⟨sig, -, hcapture⟩ := h
  exact hcapture.endsInBrace

theorem StandsAlone.colon_notMem_name (h : p.StandsAlone) : ':' ∉ p.name.toList := by
  obtain ⟨head, ⟨⟨-, -, -, hname⟩, -, -, -⟩, -⟩ := h.hasSignature
  exact fun hcolon => absurd (hname.2 ':' hcolon) (by decide)

theorem StandsAlone.readsAs (h : p.StandsAlone) : ReadsAs p.text.toList [p.content] :=
  ⟨h.endsInBrace.seals, [p.alone], h.readAll_eq, rfl⟩

end Production

/-! ### Grammars -/

namespace Grammar

variable {g : Grammar} {P : Production → Prop}

/-- The grammar was built by merging in productions of some kind, one by one or several at once. -/
inductive BuiltFrom (P : Production → Prop) : Grammar → Prop
  | empty : BuiltFrom P empty
  | insert {g : Grammar} {p : Production} : BuiltFrom P g → P p → BuiltFrom P (g.insert p).2
  | insertAll {g : Grammar} {ps : List Production} : BuiltFrom P g → (∀ p ∈ ps, P p) →
    BuiltFrom P (g.insertAll ps).2

theorem BuiltFrom.wellIndexed (h : g.BuiltFrom P) : g.WellIndexed := by
  induction h with
  | empty => exact wellIndexed_empty
  | insert _ _ ih => exact ih.insert _
  | insertAll _ _ ih => exact (ih.insertAll _).1

/-- Nothing is in a grammar but what was merged into it. -/
theorem BuiltFrom.forall_mem (h : g.BuiltFrom P) : ∀ p ∈ g.toList, P p := by
  induction h with
  | empty => exact List.forall_mem_nil P
  | insert hg hp ih =>
    intro q hq
    rw [hg.wellIndexed.toList_insert] at hq
    rcases eq_or_mem_of_mem_overrideInPlace Production.name hq with rfl | hq
    · exact hp
    · exact ih q hq
  | insertAll hg hps ih =>
    intro q hq
    rw [(hg.wellIndexed.insertAll _).2] at hq
    exact (mem_or_mem_of_mem_foldl_overrideInPlace Production.name hq).elim (hps q) (ih q)

/-- Where all token tables are empty, the generated file has only productions in it. -/
theorem grammarFile_eq_flatMap {lexicon : Lexicon}
    (hlexicon : ∀ c, (lexicon.table c).isEmpty = true) (g : Grammar) :
    grammarFile none lexicon g = g.toList.flatMap fun p => '\n' :: (p.text.toList ++ ['\n']) := by
  have hsections : (TokenClass.all.filterMap fun c => tokenSection (lexicon.table c)) = [] := by
    simp [tokenSection, hlexicon]
  simp only [grammarFile, hsections, List.nil_append, Option.getD_none, List.flatMap_map]

theorem readsAs_grammarFile {lexicon : Lexicon} (hlexicon : ∀ c, (lexicon.table c).isEmpty = true)
    (h : ∀ p ∈ g.toList, p.StandsAlone) :
    ReadsAs (grammarFile none lexicon g) (g.toList.map Production.content) := by
  rw [grammarFile_eq_flatMap hlexicon]
  refine .flatMap fun p hp => ?_
  exact readsAs_newline.append ((h p hp).readsAs.append readsAs_newline)

theorem readsAs_entryListing (h : ∀ p ∈ g.toList, p.StandsAlone) :
    ReadsAs (entryListing g) (g.toList.map Production.content) := by
  refine .intercalate isBlanks_newline fun p hp => ?_
  -- an equals sign stands in no signature
  have hname : ReadsAs (p.name.toList ++ ['=']) [] := by
    refine .of_notMem ⟨_, [], (List.append_nil _).symm, Signature.isBlanks_nil, ?_⟩ ?_
    · exact endsOutside_concat_iff.mpr rfl
    · simp [(h p hp).colon_notMem_name]
  have hentry := hname.append ((h p hp).readsAs.append readsAs_newline)
  simpa using hentry

/-- From the generated file of a grammar without tokens, and from its listing of entries, the
productions of the grammar can be read back, with their names, kinds and texts, and in their order.
Grammars that differ in any of these are for this reason not written alike. -/
theorem renderings_read_back (lexicon : Lexicon) (g : Grammar)
    (hlexicon : ∀ c, (lexicon.table c).isEmpty = true) (h : g.BuiltFrom Production.IsRead) :
    (∃ ps, Production.readAll (grammarFile none lexicon g) = .ok ps ∧
      ps.map Production.content = g.toList.map Production.content) ∧
    (∃ ps, Production.readAll (entryListing g) = .ok ps ∧
      ps.map Production.content = g.toList.map Production.content) ∧
    ∀ g' : Grammar, g'.BuiltFrom Production.IsRead →
      (grammarFile none lexicon g = grammarFile none lexicon g' ∨
        entryListing g = entryListing g') →
      g.toList.map Production.content = g'.toList.map Production.content := by
  have hstands : ∀ {g : Grammar}, g.BuiltFrom Production.IsRead → ∀ p ∈ g.toList, p.StandsAlone :=
    fun h p hp => (h.forall_mem p hp).standsAlone
  have hfile := readsAs_grammarFile hlexicon (hstands h)
  have hlisting := readsAs_entryListing (hstands h)
  refine ⟨hfile.reads, hlisting.reads, ?_⟩
  rintro g' h' (heq | heq)
  · exact hfile.unique (heq ▸ readsAs_grammarFile hlexicon (hstands h'))
  · exact hlisting.unique (heq ▸ readsAs_entryListing (hstands h'))

/-- The body of the second production is a comment, in which there is a brace and another signature.
The first production is overridden by one of another kind, with a brace in quotes. -/
theorem renderings_read_back_overridden :
    let a : Production := ⟨"A", "T", "T A():\x7b\x7d\x7b\x7d", ⟨0, 10⟩, none⟩
    let b : Production := ⟨"B", "T", "T B():\x7b\x7d\x7b/*\x7dT C():*/\x7d", ⟨11, 32⟩, none⟩
    let c : Production := ⟨"A", "U", "U A():\x7b\x7d\x7b\x27\x7b\x27\x7d", ⟨0, 13⟩, none⟩
    let before := (empty.insertAll [a, b]).2
    let g := (before.insert c).2
    (∃ ps, Production.readAll (grammarFile none .empty g) = .ok ps ∧
      ps.map Production.content = [c.content, b.content]) ∧
    (∃ ps, Production.readAll (entryListing g) = .ok ps ∧
      ps.map Production.content = [c.content, b.content]) ∧
    grammarFile none .empty g ≠ grammarFile none .empty before ∧
    entryListing g ≠ entryListing before := by
  intro a b c before g
  have hfirst : Production.readAll (a.text ++ "\n" ++ b.text).toList = .ok [a, b] := by
    decide +kernel
  have hsecond : Production.readAll c.text.toList = .ok [c] := by
    decide +kernel
  have hbefore : before.BuiltFrom Production.IsRead :=
    .insertAll .empty fun p hp => .of_mem hfirst hp
  have hg : g.BuiltFrom Production.IsRead :=
    .insert hbefore (.of_mem hsecond List.mem_cons_self)
  have hlistBefore : before.toList = [a, b] := (wellIndexed_empty.insertAll [a, b]).2
  -- the new production has taken the place of the old one
  have hlist : g.toList = [c, b] := by
    rw [hbefore.wellIndexed.toList_insert, hlistBefore]
    rfl
  have hne : g.toList.map Production.content ≠ before.toList.map Production.content := by
    rw [hlist, hlistBefore]
    decide
  have hempty : ∀ d, ((Lexicon.empty).table d).isEmpty = true := by
    intro d
    cases d <;> rfl
  obtain ⟨hfile, hlisting, hunique⟩ := renderings_read_back .empty g hempty hg
  rw [hlist] at hfile hlisting
  exact ⟨hfile, hlisting, fun heq => hne (hunique before hbefore (.inl heq)),
    fun heq => hne (hunique before hbefore (.inr heq))⟩

end Grammar

end GrammarLayers
