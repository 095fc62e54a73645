import GrammarLayers.Proofs.Fragment.SignatureForm
import GrammarLayers.Proofs.Text.Pattern

/-!
# Signatures as a pattern

The form of a signature is a pattern, in which the kind and the name are kept. The reader of
signatures finds what a search for this pattern finds. It differs from the search in that it tries
no places inside of words, and in that it reads each part in one way only. Nothing is lost by this:
if there is a signature inside of a word, there is one from an earlier character of the word on,
and there are no two ways to read a signature but for the newline after it.

## Main definitions

* `Signature.headPattern` — the form of a signature, up to the colon
* `Signature.pattern` — the same, with a newline after it
* `Signature.ofPiece` — the signature that has been found

## Main results

* `first?_pattern` — the preferred way in which a text starts with the pattern
* `findAll_eq_search` — the signatures of a text are what a search for the pattern finds
-/

namespace GrammarLayers

namespace Signature

open Pattern

/-! ### The pattern of a signature -/

def wordPattern : Pattern := (char isWordChar).atLeastOnce

def blanksPattern : Pattern := (char isSpaceChar).many

/-- Two words with blanks between them. -/
def pairPattern : Pattern := wordPattern.seq ((char isSpaceChar).atLeastOnce.seq wordPattern)

/-- A further pair: a comma, blanks, two words and blanks. -/
def nextPairPattern : Pattern :=
  (exactly ',').seq (blanksPattern.seq (pairPattern.seq blanksPattern))

/-- What stands between the parentheses. -/
def argumentsPattern : Pattern :=
  blanksPattern.seq (pairPattern.seq (blanksPattern.seq nextPairPattern.many)).optional

/-- What follows the name, up to the colon. -/
def tailPattern : Pattern :=
  blanksPattern.seq <| (exactly '(').seq <| argumentsPattern.seq <| (exactly ')').seq <|
    blanksPattern.seq (exactly ':')

/-- The form of a signature, up to the colon. -/
def headPattern : Pattern :=
  (wordPattern.group "kind").seq <| (char isSpaceChar).atLeastOnce.seq <|
    (wordPattern.group "name").seq tailPattern

/-- The form of a signature, with a newline after it. -/
def pattern : Pattern := headPattern.seq (exactly '\n').optional

/-- The signature that has been found. -/
def ofPiece (f : Piece) : Signature :=
  ⟨String.ofList (f.group "name"), String.ofList (f.group "kind"), f.span⟩

/-! ### What the pattern allows -/

variable {s u : List Char} {g : Groups}

theorem isBare_wordPattern : wordPattern.IsBare IsWord := isBare_atLeastOnce_char isWordChar

theorem isBare_blanksPattern : blanksPattern.IsBare IsBlanks := isBare_many_char isSpaceChar

theorem isBare_pairPattern : pairPattern.IsBare fun s => ∃ kind name, IsPair kind name s := by
  refine (isBare_wordPattern.seq
    ((isBare_atLeastOnce_char isSpaceChar).seq isBare_wordPattern)).congr fun s => ?_
  constructor
  · rintro ⟨kind, _, hkind, ⟨gap, name, ⟨hne, hgap⟩, hname, rfl⟩, rfl⟩
    exact ⟨kind, name, by rw [← List.append_assoc]; exact .mk hkind hne hgap hname⟩
  · rintro ⟨kind, name, @⟨gap, hkind, hne, hgap, hname⟩⟩
    exact ⟨kind, gap ++ name, hkind, ⟨gap, name, ⟨hne, hgap⟩, hname, rfl⟩, List.append_assoc ..⟩

/-- A pair with blanks around it. -/
inductive IsPadded : List Char → Prop
  | mk {before kind name pair after : List Char} : IsBlanks before → IsPair kind name pair →
    IsBlanks after → IsPadded (before ++ pair ++ after)

theorem isBare_nextPairPattern :
    nextPairPattern.IsBare fun s => ∃ t, IsPadded t ∧ s = ',' :: t := by
  refine ((isBare_exactly ',').seq (isBare_blanksPattern.seq
    (isBare_pairPattern.seq isBare_blanksPattern))).congr fun s => ?_
  constructor
  · rintro ⟨_, _, rfl, ⟨before, _, hbefore, ⟨pair, after, ⟨_, _, hpair⟩, hafter, rfl⟩, rfl⟩, rfl⟩
    exact ⟨_, by rw [← List.append_assoc]; exact .mk hbefore hpair hafter, rfl⟩
  · rintro ⟨_, @⟨before, kind, name, pair, after, hbefore, hpair, hafter⟩, rfl⟩
    refine ⟨[','], _, rfl, ⟨before, pair ++ after, hbefore, ?_, List.append_assoc ..⟩, rfl⟩
    exact ⟨pair, after, ⟨kind, name, hpair⟩, hafter, rfl⟩

theorem isPairs_of_repeats (h : Repeats nextPairPattern.Takes u g) {t : List Char}
    (ht : IsPadded t) : IsPairs (t ++ u) := by
  induction h generalizing t with
  | nil =>
    obtain ⟨hbefore, hpair, hafter⟩ := ht
    rw [List.append_nil]
    exact .one hbefore hpair hafter
  | cons _ hallows _ ih =>
    obtain ⟨⟨t', ht', rfl⟩, -⟩ := (isBare_nextPairPattern _ _).mp hallows
    obtain ⟨hbefore, hpair, hafter⟩ := ht
    exact .more hbefore hpair hafter (ih ht')

theorem IsPairs.exists_repeats (h : IsPairs s) :
    ∃ t u, IsPadded t ∧ Repeats nextPairPattern.Takes u [] ∧ s = t ++ u := by
  induction h with
  | one hbefore hpair hafter =>
    exact ⟨_, [], .mk hbefore hpair hafter, .nil, (List.append_nil _).symm⟩
  | more hbefore hpair hafter _ ih =>
    obtain ⟨t, u, ht, hu, rfl⟩ := ih
    have hnext := (isBare_nextPairPattern (',' :: t) []).mpr ⟨⟨t, ht, rfl⟩, rfl⟩
    exact ⟨_, _, .mk hbefore hpair hafter, .cons (List.cons_ne_nil _ _) hnext hu, rfl⟩

theorem isBare_argumentsPattern : argumentsPattern.IsBare IsArguments := by
  refine (isBare_blanksPattern.seq (isBare_pairPattern.seq
    (isBare_blanksPattern.seq isBare_nextPairPattern.many)).optional).congr fun s => ?_
  constructor
  · rintro ⟨before, _, hbefore,
      ⟨pair, _, ⟨_, _, hpair⟩, ⟨after, u, hafter, hu, rfl⟩, rfl⟩ | rfl, rfl⟩
    · have hpairs := isPairs_of_repeats hu (.mk hbefore hpair hafter)
      exact .inr (by simpa using hpairs)
    · exact .inl (by rwa [List.append_nil])
  · rintro (hblanks | hpairs)
    · exact ⟨s, [], hblanks, .inr rfl, (List.append_nil s).symm⟩
    · obtain ⟨_, u, @⟨before, kind, name, pair, after, hbefore, hpair, hafter⟩, hu, rfl⟩ :=
        hpairs.exists_repeats
      refine ⟨before, pair ++ (after ++ u), hbefore, .inl ?_, by simp⟩
      exact ⟨pair, after ++ u, ⟨kind, name, hpair⟩, ⟨after, u, hafter, hu, rfl⟩, rfl⟩

theorem isBare_tailPattern : tailPattern.IsBare fun s => ∃ gap arguments last, IsBlanks gap ∧
    IsArguments arguments ∧ IsBlanks last ∧
    s = gap ++ '(' :: arguments ++ ')' :: last ++ [':'] := by
  refine (isBare_blanksPattern.seq ((isBare_exactly '(').seq (isBare_argumentsPattern.seq
    ((isBare_exactly ')').seq (isBare_blanksPattern.seq (isBare_exactly ':')))))).congr fun s => ?_
  constructor
  · rintro ⟨gap, _, hgap, ⟨_, _, rfl, ⟨arguments, _, harguments,
      ⟨_, _, rfl, ⟨last, _, hlast, rfl, rfl⟩, rfl⟩, rfl⟩, rfl⟩, rfl⟩
    exact ⟨gap, arguments, last, hgap, harguments, hlast, by simp⟩
  · rintro ⟨gap, arguments, last, hgap, harguments, hlast, rfl⟩
    exact ⟨gap, _, hgap, ⟨_, _, rfl, ⟨arguments, _, harguments,
      ⟨_, _, rfl, ⟨last, _, hlast, rfl, rfl⟩, rfl⟩, rfl⟩, rfl⟩, by simp⟩

/-- Up to the colon, the pattern allows just what has the form of a signature, and keeps the kind
and the name. -/
theorem takes_headPattern_iff : headPattern.Takes s g ↔
    ∃ kind name, IsForm kind name s ∧ g = [("kind", kind), ("name", name)] := by
  constructor
  · rintro ⟨kind, _, gk, _, hkind, ⟨blanks, _, gb, _, hblanks,
      ⟨name, _, gn, gt, hname, htail, rfl, rfl⟩, rfl, rfl⟩, rfl, rfl⟩
    obtain ⟨hword, hgk⟩ := (isBare_wordPattern.takes_group_iff "kind").mp hkind
    obtain ⟨⟨hne, hall⟩, hgb⟩ := (isBare_atLeastOnce_char isSpaceChar _ _).mp hblanks
    obtain ⟨hword', hgn⟩ := (isBare_wordPattern.takes_group_iff "name").mp hname
    obtain ⟨⟨gap, arguments, last, hgap, harguments, hlast, rfl⟩, hgt⟩ :=
      (isBare_tailPattern _ _).mp htail
    have hform := IsForm.mk (.mk hword hne hall hword') hgap harguments hlast
    -- only the two words are kept
    exact ⟨kind, name, by simpa using hform, by rw [hgk, hgb, hgn, hgt]; rfl⟩
  · rintro ⟨kind, name, @⟨_, gap, arguments, last, @⟨blanks, hword, hne, hall, hword'⟩, hgap,
      harguments, hlast⟩, rfl⟩
    have htail := (isBare_tailPattern _ []).mpr
      ⟨⟨gap, arguments, last, hgap, harguments, hlast, rfl⟩, rfl⟩
    have hname := (isBare_wordPattern.takes_group_iff "name").mpr ⟨hword', rfl⟩
    have hkind := (isBare_wordPattern.takes_group_iff "kind").mpr ⟨hword, rfl⟩
    have hblanks := (isBare_atLeastOnce_char isSpaceChar blanks []).mpr ⟨⟨hne, hall⟩, rfl⟩
    exact ⟨kind, _, _, _, hkind, ⟨blanks, _, _, _, hblanks,
      ⟨name, _, _, _, hname, htail, rfl, rfl⟩, rfl, rfl⟩, by simp, rfl⟩

/-! ### The preferred way -/

/-- The way in which a text starts with a match. -/
def Match.toWay (m : Match) : Way := ⟨m.text, m.rest, [("kind", m.kind), ("name", m.name)]⟩

theorem first?_newline (t : List Char) :
    (exactly '\n').optional.first? t =
      some ⟨t.take (t.length - (skipNewline t).length), skipNewline t, []⟩ := by
  cases t with
  | nil => rfl
  | cons c t =>
    by_cases hc : c = '\n'
    · subst hc
      simp [first?, ways, exactly, skipNewline]
    · have hskip : skipNewline (c :: t) = c :: t := skipNewline_eq_self (by simpa using hc)
      simp [first?, ways, exactly, hc, hskip, Way.nothing]

/-- All ways to read a signature agree but for the newline after it, which is rather taken. -/
theorem first?_pattern (s : List Char) : pattern.first? s = (match? s).map Match.toWay := by
  cases hhead : headPattern.first? s with
  | none =>
    rw [pattern, first?_seq_of_none hhead]
    cases hmatch : match? s with
    | none => rfl
    | some m =>
      -- the form of the match would be a way
      obtain ⟨head, t, hform, rfl, -⟩ := match?_eq_some hmatch
      have hway : (⟨head, t, [("kind", m.kind), ("name", m.name)]⟩ : Way) ∈
          headPattern.ways (head ++ t) :=
        (mem_ways_iff _ _ _).mpr ⟨rfl, takes_headPattern_iff.mpr ⟨_, _, hform, rfl⟩⟩
      rw [List.head?_eq_none_iff.mp hhead] at hway
      exact absurd hway List.not_mem_nil
  | some w =>
    obtain ⟨hs, htakes⟩ := (mem_ways_iff _ _ _).mp (List.mem_of_head? hhead)
    obtain ⟨kind, name, hform, hgroups⟩ := takes_headPattern_iff.mp htakes
    have hlength : (w.text ++ w.rest).length - (skipNewline w.rest).length =
        w.text.length + (w.rest.length - (skipNewline w.rest).length) := by
      have := skipNewline_length w.rest
      rw [List.length_append]
      omega
    rw [pattern, first?_seq_of_some hhead (first?_newline w.rest), hs, match?_append hform, hlength,
      List.take_length_add_append, Way.append, hgroups]
    rfl

/-! ### All signatures of a text -/

/-- A signature inside of a word is not the first one in the word. -/
theorem match?_eq_none_of_cons {c : Char} (hc : isWordChar c = true)
    (h : match? (c :: s) = none) : match? s = none := by
  cases hmatch : match? s with
  | none => rfl
  | some m =>
    obtain ⟨head, t, @⟨_, gap, arguments, last, @⟨blanks, hkind, hne, hblanks, hname⟩, hgap,
      harguments, hlast⟩, rfl, -⟩ := match?_eq_some hmatch
    have hlonger : IsWord (c :: m.kind) :=
      ⟨List.cons_ne_nil c m.kind, List.forall_mem_cons.mpr ⟨hc, hkind.2⟩⟩
    have hsome := match?_append (.mk (.mk hlonger hne hblanks hname) hgap harguments hlast) t
    simp only [List.cons_append] at hsome
    rw [h] at hsome
    cases hsome

/-- The reader and the search go on alike from any place, as long as there is no signature where
the reader is inside of a word. -/
theorem map_searchFrom_pattern (before : List Char) (inWord : Bool) (s : List Char)
    (hword : inWord = true → match? s = none) (behind : Bool) :
    findFrom (byteSize before) inWord s =
      (pattern.searchFrom (byteSize before) behind s).map ofPiece := by
  induction before, inWord, s using induction_on_findFrom generalizing behind with
  | nil before inWord =>
    rw [findFrom_nil, searchFrom_nil_of_none (first?_pattern [])]
    rfl
  | found before m hform ih =>
    have hmatch : match? (m.text ++ m.rest) = some m := match?_eq_some_iff.mpr ⟨hform, rfl⟩
    have hfirst : pattern.first? (m.text ++ m.rest) = some m.toWay := by
      rw [first?_pattern, hmatch]
      rfl
    rw [findFrom_match hmatch, searchFrom_of_some hfirst hform.text_ne_nil, List.map_cons,
      ih (by rintro ⟨⟩) true, Match.toSignature, byteSize_append]
    rfl
  | skip before inWord c s hskip ih =>
    -- the reader skips a place inside of a word unseen, and the search finds nothing there
    have hnone : match? (c :: s) = none := hskip.elim hword id
    have hfirst : pattern.first? (c :: s) = none := by
      rw [first?_pattern, hnone]
      rfl
    have hsize : byteSize before + c.utf8Size = byteSize (before ++ [c]) := by simp
    rw [findFrom_cons hskip, searchFrom_cons_of_none hfirst, hsize]
    exact ih (fun hc => match?_eq_none_of_cons hc hnone) false

/-- The signatures of a text are what a search from left to right finds for their pattern. -/
theorem findAll_eq_search (text : List Char) :
    findAll text = (pattern.search text).map ofPiece :=
  map_searchFrom_pattern [] false text (by rintro ⟨⟩) false

end Signature

end GrammarLayers
