import GrammarLayers.Fragment.Signature
import GrammarLayers.Proofs.Text.Slice
import Mathlib.Data.List.TakeWhile

/-!
# The form of a signature

A signature is described here by what it is made of: words, blanks, and pairs of words with
commas between them. The reader of signatures finds this form wherever a text starts with it.
No two of the signatures in a text overlap, because the words and blanks before the opening
parenthesis leave one way to choose the kind and the name, and nothing between that parenthesis
and the colon could be the start of another signature. Whether a signature is found depends for
this reason on no other signature.

## Main definitions

* `Signature.IsWord`, `Signature.IsBlanks`, `Signature.IsPair` — the parts
* `Signature.IsPairs`, `Signature.IsArguments` — what stands between the parentheses
* `Signature.IsForm` — the form of a signature, up to the colon
* `Signature.Match.HasForm` — a match with this form that takes in the newline after it
* `Signature.Occurs` — a signature that stands in a text

## Main results

* `match?_eq_some_iff` — the signature that a text starts with
* `exists_append_of_colon`, `Match.HasForm.exists_append` — no signature starts inside of another
  one
* `mem_findFrom_iff` — the signatures from some place on
* `findAll_eq_occurrences` — the signatures of a text are those that occur in it, in order
-/

namespace GrammarLayers

namespace Signature

def IsWord (s : List Char) : Prop := s ≠ [] ∧ ∀ c ∈ s, isWordChar c = true

def IsBlanks (s : List Char) : Prop := ∀ c ∈ s, isSpaceChar c = true

/-- Two words with blanks between them. -/
inductive IsPair (kind name : List Char) : List Char → Prop
  | mk {blanks : List Char} : IsWord kind → blanks ≠ [] → IsBlanks blanks → IsWord name →
    IsPair kind name (kind ++ blanks ++ name)

/-- Pairs of words with commas between them and blanks around each. -/
inductive IsPairs : List Char → Prop
  | one {kind name pair before after : List Char} : IsBlanks before → IsPair kind name pair →
    IsBlanks after → IsPairs (before ++ pair ++ after)
  | more {kind name pair before after rest : List Char} : IsBlanks before →
    IsPair kind name pair → IsBlanks after → IsPairs rest →
    IsPairs (before ++ pair ++ after ++ ',' :: rest)

/-- What may stand between the parentheses. -/
def IsArguments (s : List Char) : Prop := IsBlanks s ∨ IsPairs s

/-- The form of a signature, up to the colon. -/
inductive IsForm (kind name : List Char) : List Char → Prop
  | mk {pair gap arguments last : List Char} : IsPair kind name pair → IsBlanks gap →
    IsArguments arguments → IsBlanks last →
    IsForm kind name (pair ++ gap ++ '(' :: arguments ++ ')' :: last ++ [':'])

/-- The match has the form of a signature, and takes in a newline right after the colon. -/
def Match.HasForm (m : Match) : Prop :=
  ∃ head, IsForm m.kind m.name head ∧
    (m.text = head ++ ['\n'] ∨ m.text = head ∧ m.rest.head? ≠ some '\n')

/-- The signature that a match found after `before` stands for. -/
def Match.toSignature (m : Match) (before : List Char) : Signature :=
  ⟨String.ofList m.name, String.ofList m.kind, ⟨byteSize before, byteSize (before ++ m.text)⟩⟩

/-- The signature stands in the text at its span, and no word runs into it. -/
def Occurs (text : List Char) (sig : Signature) : Prop :=
  ∃ (before : List Char) (m : Match), text = before ++ (m.text ++ m.rest) ∧ m.HasForm ∧
    EndsOutside isWordChar before ∧ sig = m.toSignature before

/-! ### Words and blanks -/

variable {s r rest kind name pair blanks : List Char} {c : Char}

theorem isSpaceChar_eq_false_of_isWordChar (h : isWordChar c = true) : isSpaceChar c = false := by
  by_contra hspace
  simp only [isSpaceChar, Bool.not_eq_false, Bool.or_eq_true, beq_iff_eq] at hspace
  rcases hspace with ((((rfl | rfl) | rfl) | rfl) | rfl) | rfl <;> simp [isWordChar] at h

theorem isWordChar_eq_false_of_isSpaceChar (h : isSpaceChar c = true) : isWordChar c = false := by
  by_contra hword
  rw [isSpaceChar_eq_false_of_isWordChar (Bool.not_eq_false _ ▸ hword)] at h
  exact absurd h (by decide)

theorem IsWord.startsOutside_append (h : IsWord s) (rest : List Char) :
    StartsOutside isSpaceChar (s ++ rest) := by
  obtain ⟨hne, hall⟩ := h
  cases s with
  | nil => exact absurd rfl hne
  | cons c s =>
    exact startsOutside_cons_iff.mpr
      (isSpaceChar_eq_false_of_isWordChar (hall c List.mem_cons_self))

theorem IsWord.endsOutside_append (h : IsWord s) (before : List Char) :
    EndsOutside isSpaceChar (before ++ s) :=
  .append_of_forall h.1 fun c hc => isSpaceChar_eq_false_of_isWordChar (h.2 c hc)

theorem IsBlanks.startsOutside_append (h : IsBlanks s) (hrest : StartsOutside isWordChar rest) :
    StartsOutside isWordChar (s ++ rest) :=
  .of_forall_append (fun c hc => isWordChar_eq_false_of_isSpaceChar (h c hc)) hrest

theorem IsBlanks.startsOutside_append_of_ne_nil (h : IsBlanks s) (hne : s ≠ [])
    (rest : List Char) : StartsOutside isWordChar (s ++ rest) := by
  cases s with
  | nil => exact absurd rfl hne
  | cons c s =>
    exact startsOutside_cons_iff.mpr
      (isWordChar_eq_false_of_isSpaceChar (h c List.mem_cons_self))

theorem IsBlanks.endsOutside_append (h : IsBlanks s) (hne : s ≠ []) (before : List Char) :
    EndsOutside isWordChar (before ++ s) :=
  .append_of_forall hne fun c hc => isWordChar_eq_false_of_isSpaceChar (h c hc)

/-! ### The readers of the parts -/

theorem word?_append (h : IsWord s) (hrest : StartsOutside isWordChar rest) :
    word? (s ++ rest) = some (s, rest) := by
  have hrest' : rest.takeWhile isWordChar = [] ∧ rest.dropWhile isWordChar = rest := by
    cases rest with
    | nil => exact ⟨rfl, rfl⟩
    | cons c rest => simp [startsOutside_cons_iff.mp hrest]
  unfold word?
  rw [List.takeWhile_append_of_pos h.2, List.dropWhile_append_of_pos h.2, hrest'.1, hrest'.2,
    List.append_nil]
  cases s with
  | nil => exact absurd rfl h.1
  | cons c s => rfl

theorem word?_eq_some {w : List Char} (h : word? s = some (w, r)) : IsWord w ∧ s = w ++ r := by
  unfold word? at h
  split at h
  · cases h
  · next hne =>
    cases h
    refine ⟨⟨hne, fun c hc => List.mem_takeWhile_imp hc⟩, ?_⟩
    exact List.takeWhile_append_dropWhile.symm

theorem skipBlanks_append (h : IsBlanks s) (hrest : StartsOutside isSpaceChar rest) :
    skipBlanks (s ++ rest) = rest := by
  rw [skipBlanks, List.dropWhile_append_of_pos h]
  cases rest with
  | nil => rfl
  | cons c rest => simp [startsOutside_cons_iff.mp hrest]

theorem exists_append_skipBlanks (s : List Char) : ∃ b, IsBlanks b ∧ s = b ++ skipBlanks s :=
  ⟨s.takeWhile isSpaceChar, fun _ hc => List.mem_takeWhile_imp hc,
    List.takeWhile_append_dropWhile.symm⟩

theorem skipSomeBlanks?_append (h : IsBlanks s) (hne : s ≠ [])
    (hrest : StartsOutside isSpaceChar rest) : skipSomeBlanks? (s ++ rest) = some rest := by
  cases s with
  | nil => exact absurd rfl hne
  | cons c s =>
    have hs : IsBlanks s := fun d hd => h d (List.mem_cons_of_mem c hd)
    rw [List.cons_append, skipSomeBlanks?, if_pos (h c List.mem_cons_self),
      skipBlanks_append hs hrest]

theorem skipSomeBlanks?_eq_some (h : skipSomeBlanks? s = some r) :
    ∃ b, b ≠ [] ∧ IsBlanks b ∧ s = b ++ r := by
  cases s with
  | nil => cases h
  | cons c s =>
    rw [skipSomeBlanks?] at h
    split at h
    · next hc =>
      obtain rfl := Option.some.inj h
      obtain ⟨b, hb, hs⟩ := exists_append_skipBlanks s
      refine ⟨c :: b, by simp, ?_, by rw [List.cons_append, ← hs]⟩
      rintro d (_ | ⟨_, hd⟩)
      · exact hc
      · exact hb d hd
    · cases h

theorem skipChar?_eq_some_iff : skipChar? c s = some r ↔ s = c :: r := by
  cases s with
  | nil => simp [skipChar?]
  | cons d s =>
    rw [skipChar?, List.cons.injEq]
    split <;> simp_all

theorem IsPair.startsOutside_append (h : IsPair kind name pair) (rest : List Char) :
    StartsOutside isSpaceChar (pair ++ rest) := by
  obtain ⟨hkind, -, -, -⟩ := h
  rw [List.append_assoc, List.append_assoc]
  exact hkind.startsOutside_append _

theorem skipPair?_append (h : IsPair kind name pair) (hrest : StartsOutside isWordChar rest) :
    skipPair? (pair ++ rest) = some rest := by
  obtain ⟨hkind, hne, hblanks, hname⟩ := h
  rw [List.append_assoc, List.append_assoc]
  simp [skipPair?, word?_append hkind (hblanks.startsOutside_append_of_ne_nil hne _),
    skipSomeBlanks?_append hblanks hne (hname.startsOutside_append _), word?_append hname hrest]

theorem skipPair?_eq_some (h : skipPair? s = some r) :
    ∃ kind name pair, IsPair kind name pair ∧ s = pair ++ r := by
  simp only [skipPair?, Option.bind_eq_bind, Option.bind_eq_some_iff, Prod.exists,
    Option.pure_def, Option.some.injEq] at h
  obtain ⟨kind, _, hreadKind, _, hreadBlanks, name, _, hreadName, rfl⟩ := h
  obtain ⟨hkind, rfl⟩ := word?_eq_some hreadKind
  obtain ⟨blanks, hne, hblanks, rfl⟩ := skipSomeBlanks?_eq_some hreadBlanks
  obtain ⟨hname, rfl⟩ := word?_eq_some hreadName
  exact ⟨kind, name, _, .mk hkind hne hblanks hname, by simp⟩

/-! ### The reader of signatures -/

theorem skipMoreArguments?_closing (rest : List Char) :
    skipMoreArguments? (')' :: rest) = some rest := by
  rw [skipMoreArguments?]
  rfl

theorem skipMoreArguments?_comma {afterPair : List Char}
    (h : skipPair? (skipBlanks s) = some afterPair) :
    skipMoreArguments? (',' :: s) = skipMoreArguments? (skipBlanks afterPair) := by
  conv_lhs => rw [skipMoreArguments?]
  have hclosing : skipChar? ')' (',' :: s) = none := rfl
  have hcomma : skipChar? ',' (',' :: s) = some s := rfl
  simp only [hclosing]
  split
  · next hnone => simp [hcomma] at hnone
  · next afterComma hsome =>
    obtain rfl : s = afterComma := by simpa [hcomma] using hsome
    split
    · next hnone => simp [h] at hnone
    · next hpair =>
      rw [h, Option.some.injEq] at hpair
      rw [hpair]

theorem IsPairs.skip_append (h : IsPairs s) (rest : List Char) :
    ∃ afterPair, skipPair? (skipBlanks (s ++ ')' :: rest)) = some afterPair ∧
      skipMoreArguments? (skipBlanks afterPair) = some rest := by
  have hmore : ∀ {before after t : List Char} {kind name pair c}, IsBlanks before →
      IsPair kind name pair → IsBlanks after → isWordChar c = false → isSpaceChar c = false →
      ∃ afterPair, skipPair? (skipBlanks (before ++ pair ++ after ++ c :: t)) = some afterPair ∧
        skipBlanks afterPair = c :: t := by
    intro before after t kind name pair c hbefore hpair hafter hword hspace
    -- the reader takes the longest words and blanks, and each ends where the next part begins
    refine ⟨after ++ c :: t, ?_, ?_⟩
    · rw [List.append_assoc, List.append_assoc,
        skipBlanks_append hbefore (hpair.startsOutside_append _)]
      exact skipPair?_append hpair
        (hafter.startsOutside_append (startsOutside_cons_iff.mpr hword))
    · exact skipBlanks_append hafter (startsOutside_cons_iff.mpr hspace)
  induction h with
  | one hbefore hpair hafter =>
    obtain ⟨afterPair, hskip, hblanks⟩ :=
      hmore (t := rest) hbefore hpair hafter (c := ')') rfl rfl
    exact ⟨afterPair, hskip, by rw [hblanks, skipMoreArguments?_closing]⟩
  | @more _ _ _ _ _ others hbefore hpair hafter _ ih =>
    obtain ⟨afterOther, hskipOther, hclose⟩ := ih
    obtain ⟨afterPair, hskip, hblanks⟩ :=
      hmore (t := others ++ ')' :: rest) hbefore hpair hafter (c := ',') rfl rfl
    refine ⟨afterPair, by simpa using hskip, ?_⟩
    rw [hblanks, skipMoreArguments?_comma hskipOther, hclose]

theorem skipArguments?_append (h : IsArguments s) (rest : List Char) :
    skipArguments? (s ++ ')' :: rest) = some rest := by
  unfold skipArguments?
  rcases h with hblanks | hpairs
  · rw [skipBlanks_append hblanks (startsOutside_cons_iff.mpr rfl)]
    rfl
  · obtain ⟨afterPair, hskip, hclose⟩ := hpairs.skip_append rest
    simp only [hskip, hclose]

/-- A pair and what is read after it, put together with the blanks around the pair. -/
theorem exists_isPairs_append {afterPair : List Char}
    (hskip : skipPair? (skipBlanks s) = some afterPair)
    (hmore : skipBlanks afterPair = ')' :: r ∨
      ∃ t, IsPairs t ∧ skipBlanks afterPair = ',' :: t ++ ')' :: r) :
    ∃ t, IsPairs t ∧ s = t ++ ')' :: r := by
  obtain ⟨before, hbefore, hcut⟩ := exists_append_skipBlanks s
  obtain ⟨kind, name, pair, hpair, hcutPair⟩ := skipPair?_eq_some hskip
  obtain ⟨after, hafter, hcutAfter⟩ := exists_append_skipBlanks afterPair
  rcases hmore with hclosing | ⟨t, ht, hcomma⟩
  · refine ⟨_, .one hbefore hpair hafter, ?_⟩
    rw [hcut, hcutPair, hcutAfter, hclosing]
    simp
  · refine ⟨_, .more hbefore hpair hafter ht, ?_⟩
    rw [hcut, hcutPair, hcutAfter, hcomma]
    simp

theorem skipMoreArguments?_eq_some (h : skipMoreArguments? s = some r) :
    s = ')' :: r ∨ ∃ t, IsPairs t ∧ s = ',' :: t ++ ')' :: r := by
  fun_induction skipMoreArguments? s with
  | case1 s r' hclosing =>
    obtain rfl := Option.some.inj h
    exact .inl (skipChar?_eq_some_iff.mp hclosing)
  | case2 => cases h
  | case3 => cases h
  | case4 s _ afterComma hcomma afterPair hpair ih =>
    obtain rfl := skipChar?_eq_some_iff.mp hcomma
    obtain ⟨t, ht, rfl⟩ := exists_isPairs_append hpair (ih h)
    exact .inr ⟨t, ht, rfl⟩

theorem skipArguments?_eq_some (h : skipArguments? s = some r) :
    ∃ t, IsArguments t ∧ s = t ++ ')' :: r := by
  unfold skipArguments? at h
  split at h
  · next afterPair hskip =>
    obtain ⟨t, ht, rfl⟩ := exists_isPairs_append hskip (skipMoreArguments?_eq_some h)
    exact ⟨t, .inr ht, rfl⟩
  · obtain ⟨blanks, hblanks, hcut⟩ := exists_append_skipBlanks s
    exact ⟨blanks, .inl hblanks, by rw [← skipChar?_eq_some_iff.mp h, ← hcut]⟩

theorem append_skipNewline (s : List Char) :
    s = ['\n'] ++ skipNewline s ∨ s = skipNewline s ∧ s.head? ≠ some '\n' := by
  unfold skipNewline
  split
  · exact .inl rfl
  · next hne =>
    refine .inr ⟨rfl, fun hhead => ?_⟩
    obtain ⟨t, rfl⟩ := List.head?_eq_some_iff.mp hhead
    exact hne t rfl

theorem skipNewline_eq_self (h : s.head? ≠ some '\n') : skipNewline s = s := by
  unfold skipNewline
  split
  · exact absurd rfl h
  · rfl

theorem match?_append {head : List Char} (h : IsForm kind name head) (t : List Char) :
    match? (head ++ t) =
      some ⟨kind, name, (head ++ t).take ((head ++ t).length - (skipNewline t).length),
        skipNewline t⟩ := by
  obtain @⟨_, gap, arguments, last, ⟨hkind, hne, hblanks, hname⟩, hgap, harguments, hlast⟩ := h
  -- each part ends where the reader stops, because of the first character of the next part
  have hopening : ∀ u, StartsOutside isWordChar (gap ++ '(' :: u) := fun u =>
    hgap.startsOutside_append (startsOutside_cons_iff.mpr rfl)
  have hafterName : ∀ u, skipBlanks (gap ++ '(' :: u) = '(' :: u := fun u =>
    skipBlanks_append hgap (startsOutside_cons_iff.mpr rfl)
  have hafterList : ∀ u, skipBlanks (last ++ ':' :: u) = ':' :: u := fun u =>
    skipBlanks_append hlast (startsOutside_cons_iff.mpr rfl)
  have hchar : ∀ (c : Char) (u : List Char), skipChar? c (c :: u) = some u := fun _ _ =>
    skipChar?_eq_some_iff.mpr rfl
  simp only [match?, List.append_assoc, List.cons_append, List.nil_append, Option.bind_eq_bind,
    word?_append hkind (hblanks.startsOutside_append_of_ne_nil hne _), Option.bind_some,
    skipSomeBlanks?_append hblanks hne (hname.startsOutside_append _),
    word?_append hname (hopening _), hafterName, hchar, skipArguments?_append harguments,
    hafterList, Option.pure_def]

theorem match?_eq_some {m : Match} (h : match? s = some m) :
    ∃ head t, IsForm m.kind m.name head ∧ s = head ++ t ∧ m.rest = skipNewline t ∧
      m.text = s.take (s.length - m.rest.length) := by
  simp only [match?, Option.bind_eq_bind, Option.bind_eq_some_iff, Prod.exists, Option.pure_def,
    Option.some.injEq] at h
  obtain ⟨kind, _, hreadKind, _, hreadBlanks, name, afterName, hreadName, _, hreadOpening,
    afterList, hreadArguments, t, hreadColon, rfl⟩ := h
  obtain ⟨hkind, rfl⟩ := word?_eq_some hreadKind
  obtain ⟨blanks, hne, hblanks, rfl⟩ := skipSomeBlanks?_eq_some hreadBlanks
  obtain ⟨hname, rfl⟩ := word?_eq_some hreadName
  obtain ⟨gap, hgap, hcut⟩ := exists_append_skipBlanks afterName
  obtain ⟨arguments, harguments, rfl⟩ := skipArguments?_eq_some hreadArguments
  obtain ⟨last, hlast, hcutLast⟩ := exists_append_skipBlanks afterList
  rw [skipChar?_eq_some_iff.mp hreadOpening] at hcut
  rw [skipChar?_eq_some_iff.mp hreadColon] at hcutLast
  refine ⟨_, t, .mk (.mk hkind hne hblanks hname) hgap harguments hlast, ?_, rfl, rfl⟩
  rw [hcut, hcutLast]
  simp

/-- The reader finds a signature where the text starts with one, and nowhere else. -/
theorem match?_eq_some_iff {m : Match} :
    match? s = some m ↔ m.HasForm ∧ s = m.text ++ m.rest := by
  constructor
  · intro h
    obtain ⟨head, t, hform, hs, hrest, htext⟩ := match?_eq_some h
    -- the text of the match is the form, and the newline if there is one
    have hcut : ∀ u, t = u ++ m.rest → m.text = head ++ u := by
      rintro u hu
      rw [htext, hs, hu, ← List.append_assoc, List.length_append, Nat.add_sub_cancel,
        List.take_left]
    rcases append_skipNewline t with hnewline | ⟨hnone, hhead⟩
    · have htext' := hcut ['\n'] (hrest ▸ hnewline)
      refine ⟨⟨head, hform, .inl htext'⟩, ?_⟩
      rw [hs, htext', List.append_assoc, hrest, ← hnewline]
    · have htext' : m.text = head := by simpa using hcut [] (hrest ▸ hnone)
      refine ⟨⟨head, hform, .inr ⟨htext', ?_⟩⟩, ?_⟩
      · rw [hrest, ← hnone]
        exact hhead
      · rw [hs, htext', hrest, ← hnone]
  · rintro ⟨⟨head, hform, htext⟩, rfl⟩
    obtain ⟨t, ht, hrest⟩ : ∃ t, m.text ++ m.rest = head ++ t ∧ skipNewline t = m.rest := by
      rcases htext with htext | ⟨htext, hhead⟩
      · exact ⟨'\n' :: m.rest, by simp [htext], rfl⟩
      · exact ⟨m.rest, by rw [htext], skipNewline_eq_self hhead⟩
    have hlength : (head ++ t).length - m.rest.length = m.text.length := by
      rw [← ht, List.length_append, Nat.add_sub_cancel]
    rw [ht, match?_append hform, hrest, hlength, ← ht, List.take_left]

/-! ### No signature starts inside of another one -/

theorem IsPair.ne_nil (h : IsPair kind name pair) : pair ≠ [] := by
  obtain ⟨hkind, -, -, -⟩ := h
  simp [hkind.1]

theorem IsPair.forall_mem (h : IsPair kind name pair) :
    ∀ c ∈ pair, isWordChar c = true ∨ isSpaceChar c = true := by
  obtain ⟨hkind, -, hblanks, hname⟩ := h
  intro c hc
  rcases List.mem_append.mp hc with hc | hc
  · rcases List.mem_append.mp hc with hc | hc
    · exact .inl (hkind.2 c hc)
    · exact .inr (hblanks c hc)
  · exact .inl (hname.2 c hc)

theorem IsPairs.forall_mem (h : IsPairs s) :
    ∀ c ∈ s, isWordChar c = true ∨ isSpaceChar c = true ∨ c = ',' := by
  induction h with
  | one hbefore hpair hafter =>
    intro c hc
    simp only [List.mem_append] at hc
    rcases hc with (hc | hc) | hc
    · exact .inr (.inl (hbefore c hc))
    · exact (hpair.forall_mem c hc).imp_right .inl
    · exact .inr (.inl (hafter c hc))
  | more hbefore hpair hafter _ ih =>
    intro c hc
    simp only [List.mem_append, List.mem_cons] at hc
    rcases hc with ((hc | hc) | hc) | rfl | hc
    · exact .inr (.inl (hbefore c hc))
    · exact (hpair.forall_mem c hc).imp_right .inl
    · exact .inr (.inl (hafter c hc))
    · exact .inr (.inr rfl)
    · exact ih c hc

theorem IsArguments.forall_mem (h : IsArguments s) :
    ∀ c ∈ s, isWordChar c = true ∨ isSpaceChar c = true ∨ c = ',' := by
  rcases h with hblanks | hpairs
  · exact fun c hc => .inr (.inl (hblanks c hc))
  · exact hpairs.forall_mem

/-- The parts of a signature that matter for where another one may start. -/
theorem Match.HasForm.exists_parts {m : Match} (h : m.HasForm) :
    ∃ pair gap tail newline, IsPair m.kind m.name pair ∧ IsBlanks gap ∧
      (∀ c ∈ tail, c ≠ '(' ∧ c ≠ '\x7d') ∧ (newline = [] ∨ newline = ['\n']) ∧
      m.text = pair ++ gap ++ '(' :: tail ++ ':' :: newline := by
  obtain ⟨head, hform, htext⟩ := h
  obtain ⟨newline, hnewline, htext⟩ :
      ∃ newline, (newline = [] ∨ newline = ['\n']) ∧ m.text = head ++ newline := by
    rcases htext with htext | ⟨htext, -⟩
    · exact ⟨_, .inr rfl, htext⟩
    · exact ⟨[], .inl rfl, by rw [htext, List.append_nil]⟩
  obtain @⟨pair, gap, arguments, last, hpair, hgap, harguments, hlast⟩ := hform
  -- what follows the parenthesis is words, blanks, commas and another parenthesis
  have htail : ∀ c ∈ arguments ++ ')' :: last, c ≠ '(' ∧ c ≠ '\x7d' := by
    intro c hc
    rcases List.mem_append.mp hc with hc | hc
    · constructor <;> rintro rfl <;> have := harguments.forall_mem _ hc <;>
        exact absurd this (by decide)
    · rcases List.mem_cons.mp hc with rfl | hc
      · decide
      · constructor <;> rintro rfl <;> have := hlast _ hc <;> exact absurd this (by decide)
  refine ⟨pair, gap, arguments ++ ')' :: last, newline, hpair, hgap, htail, hnewline, ?_⟩
  rw [htext]
  simp

/-- The words and blanks before the parenthesis can be read in one way only. -/
theorem IsPair.eq_nil_of_append {kind' name' pair' gap gap' x : List Char}
    (h : IsPair kind name pair) (hgap : IsBlanks gap) (h' : IsPair kind' name' pair')
    (hgap' : IsBlanks gap') (heq : pair ++ gap = x ++ (pair' ++ gap'))
    (hx : EndsOutside isWordChar x) : x = [] := by
  obtain ⟨hkind, hne, hblanks, hname⟩ := h
  obtain ⟨hkind', hne', hblanks', hname'⟩ := h'
  -- from right to left: the gap, the name, the blanks and the kind
  rw [← List.append_assoc] at heq
  have hpairs := (append_inj_of_endsOutside heq (hname.endsOutside_append _)
    (by rw [← List.append_assoc]; exact hname'.endsOutside_append _) hgap hgap').1
  rw [← List.append_assoc] at hpairs
  have hleads := (append_inj_of_endsOutside hpairs (hblanks.endsOutside_append hne _)
    (by rw [← List.append_assoc]; exact hblanks'.endsOutside_append hne' _) hname.2 hname'.2).1
  rw [← List.append_assoc] at hleads
  have hkinds := (append_inj_of_endsOutside hleads (hkind.endsOutside_append [])
    (hkind'.endsOutside_append x) hblanks hblanks').1
  have hnil := append_inj_of_endsOutside (x := []) hkinds endsOutside_nil hx hkind.2 hkind'.2
  exact hnil.1.symm

theorem IsPair.notMem_append {gap : List Char} (h : IsPair kind name pair) (hgap : IsBlanks gap)
    (hc : c = '(' ∨ c = ':') : c ∉ pair ++ gap := by
  intro hmem
  have hplain : isWordChar c = true ∨ isSpaceChar c = true := by
    rcases List.mem_append.mp hmem with hmem | hmem
    · exact h.forall_mem c hmem
    · exact .inr (hgap c hmem)
  rcases hc with rfl | rfl <;> exact absurd hplain (by decide)

/-- Between the opening parenthesis of a signature and its colon, no other signature starts. -/
theorem exists_append_of_colon {lead tail r v y : List Char} (hlead : ':' ∉ lead)
    (htail : '(' ∉ tail) (h : tail ++ ':' :: r = y ++ (lead ++ '(' :: v)) :
    ∃ z, y = tail ++ ':' :: z ∧ r = z ++ (lead ++ '(' :: v) := by
  rcases List.append_eq_append_iff.mp h with ⟨z, rfl, hz⟩ | ⟨z, rfl, hz⟩
  · rcases List.cons_eq_append_iff.mp hz with ⟨rfl, hstart⟩ | ⟨z, rfl, hrest⟩
    · -- the colon would be the first character of the other signature, or its parenthesis
      cases lead with
      | nil => exact absurd (List.cons.inj hstart).1 (by decide)
      | cons c lead => exact absurd ((List.cons.inj hstart).1 ▸ List.mem_cons_self) hlead
    · exact ⟨z, rfl, hrest⟩
  · -- the colon would come before the parenthesis of the other signature, or after it
    rcases List.append_eq_append_iff.mp hz with ⟨u, rfl, hu⟩ | ⟨u, rfl, hu⟩
    · cases u with
      | nil => exact absurd (List.cons.inj hu).1 (by decide)
      | cons c u =>
        obtain ⟨rfl, -⟩ := List.cons.inj hu
        exact absurd (by simp) htail
    · cases u with
      | nil => exact absurd (List.cons.inj hu).1 (by decide)
      | cons c u =>
        obtain ⟨rfl, -⟩ := List.cons.inj hu
        exact absurd (by simp) hlead

/-- A signature that starts after the start of another one starts after its end. -/
theorem Match.HasForm.exists_append {m m' : Match} {x : List Char} (h : m.HasForm)
    (h' : m'.HasForm) (heq : m.text ++ m.rest = x ++ (m'.text ++ m'.rest))
    (hx : EndsOutside isWordChar x) (hne : x ≠ []) : ∃ y, x = m.text ++ y := by
  obtain ⟨pair, gap, tail, newline, hpair, hgap, htail, hnewline, htext⟩ := h.exists_parts
  obtain ⟨pair', gap', tail', newline', hpair', hgap', -, -, htext'⟩ := h'.exists_parts
  obtain ⟨v, hv⟩ : ∃ v, m'.text ++ m'.rest = pair' ++ gap' ++ '(' :: v :=
    ⟨tail' ++ ':' :: newline' ++ m'.rest, by rw [htext']; simp⟩
  have hopening : '(' ∉ pair' ++ gap' := hpair'.notMem_append hgap' (.inl rfl)
  have hcut : pair ++ gap ++ '(' :: (tail ++ ':' :: (newline ++ m.rest)) =
      x ++ (pair' ++ gap' ++ '(' :: v) := by
    rw [← hv, ← heq, htext]
    simp
  rcases List.append_eq_append_iff.mp hcut with ⟨y, rfl, hy⟩ | ⟨y, hy, hv'⟩
  · rcases List.cons_eq_append_iff.mp hy with ⟨rfl, hstart⟩ | ⟨y, rfl, hinside⟩
    · -- the other signature cannot start with a parenthesis
      have hnil : pair' ++ gap' = [] :=
        (append_cons_inj (y := []) hstart hopening List.not_mem_nil).1
      exact absurd (List.append_eq_nil_iff.mp hnil).1 hpair'.ne_nil
    · obtain ⟨z, rfl, hz⟩ := exists_append_of_colon (hpair'.notMem_append hgap' (.inr rfl))
        (fun hmem => (htail _ hmem).1 rfl) hinside
      rcases hnewline with rfl | rfl
      · exact ⟨z, by rw [htext]; simp⟩
      · cases z with
        | nil =>
          -- nor with a newline
          have hword := hpair'.startsOutside_append (gap' ++ '(' :: v)
          rw [← List.append_assoc, ← List.nil_append (pair' ++ gap' ++ '(' :: v), ← hz] at hword
          exact absurd (startsOutside_cons_iff.mp hword) (by decide)
        | cons c z =>
          obtain ⟨rfl, -⟩ := List.cons.inj hz
          exact ⟨z, by rw [htext]; simp⟩
  · -- both have the same parenthesis, and then the same kind and name
    have hleads : pair' ++ gap' = y := by
      refine (append_cons_inj hv' hopening fun hmem => ?_).1
      exact hpair.notMem_append hgap (.inl rfl) (hy ▸ List.mem_append_right x hmem)
    rw [← hleads] at hy
    exact absurd (hpair.eq_nil_of_append hgap hpair' hgap' hy hx) hne

/-! ### All signatures of a text -/

theorem Match.HasForm.text_ne_nil {m : Match} (h : m.HasForm) : m.text ≠ [] := by
  obtain ⟨pair, gap, tail, newline, -, -, -, -, htext⟩ := h.exists_parts
  simp [htext]

theorem Match.HasForm.eq_of_mem_getLast? {m : Match} (h : m.HasForm)
    (hc : c ∈ m.text.getLast?) : c = ':' ∨ c = '\n' := by
  obtain ⟨pair, gap, tail, newline, -, -, -, hnewline, htext⟩ := h.exists_parts
  rw [htext, List.getLast?_append_cons] at hc
  rcases hnewline with rfl | rfl
  · exact .inl (by simpa using hc.symm)
  · exact .inr (by simpa using hc.symm)

theorem Match.HasForm.endsOutside_append {m : Match} (h : m.HasForm) (before : List Char) :
    EndsOutside isWordChar (before ++ m.text) := by
  intro c hc
  rw [List.getLast?_append_of_ne_nil before h.text_ne_nil] at hc
  rcases h.eq_of_mem_getLast? hc with rfl | rfl <;> decide

theorem findFrom_nil (offset : Nat) (inWord : Bool) : findFrom offset inWord [] = [] := by
  rw [findFrom]

/-- Where a signature stands, it is found, and reading goes on after it. -/
theorem findFrom_match {m : Match} (h : match? s = some m) (before : List Char) :
    findFrom (byteSize before) false s =
      m.toSignature before :: findFrom (byteSize (before ++ m.text)) false m.rest := by
  cases s with
  | nil => simp [match?, word?] at h
  | cons c s =>
    rw [findFrom]
    split
    · next m' hm =>
      obtain rfl : m = m' := by simpa [h] using hm
      rw [Match.toSignature, byteSize_append]
    · next hnone => simp [h] at hnone

theorem findFrom_cons {inWord : Bool} (h : inWord = true ∨ match? (c :: s) = none)
    (before : List Char) :
    findFrom (byteSize before) inWord (c :: s) =
      findFrom (byteSize (before ++ [c])) (isWordChar c) s := by
  have hnone : (if inWord = true then none else match? (c :: s)) = none := by
    rcases h with rfl | h
    · rfl
    · simp [h]
  rw [findFrom]
  split
  · next m hm => simp [hnone] at hm
  · rw [byteSize_append, byteSize_cons, byteSize_nil, Nat.add_zero]

/-- Induction on what is left to search, along the steps that the search takes. -/
theorem induction_on_findFrom {motive : List Char → Bool → List Char → Prop}
    (nil : ∀ before inWord, motive before inWord [])
    (found : ∀ before (m : Match), m.HasForm → motive (before ++ m.text) false m.rest →
      motive before false (m.text ++ m.rest))
    (skip : ∀ before inWord c s, inWord = true ∨ match? (c :: s) = none →
      motive (before ++ [c]) (isWordChar c) s → motive before inWord (c :: s))
    (before : List Char) (inWord : Bool) (s : List Char) : motive before inWord s := by
  induction hn : s.length using Nat.strong_induction_on generalizing before inWord s with
  | _ n ih =>
    subst hn
    cases s with
    | nil => exact nil before inWord
    | cons c s =>
      -- the text gets shorter by a character, or by a match, which is not empty
      by_cases hskip : inWord = true ∨ match? (c :: s) = none
      · exact skip before inWord c s hskip (ih s.length (by simp) _ _ s rfl)
      · obtain ⟨hword, hmatch⟩ := not_or.mp hskip
        obtain ⟨m, hm⟩ := Option.ne_none_iff_exists'.mp hmatch
        have hlength := match?_length hm
        obtain ⟨hform, heq⟩ := match?_eq_some_iff.mp hm
        obtain rfl := Bool.not_eq_true _ ▸ hword
        rw [heq]
        exact found before m hform (ih m.rest.length hlength _ _ m.rest rfl)

/-- A signature of the text that starts after `before`. -/
theorem occurs_append_iff {before : List Char} {sig : Signature} :
    Occurs (before ++ s) sig ∧ byteSize before ≤ sig.span.start ↔
      ∃ (x : List Char) (m : Match), s = x ++ (m.text ++ m.rest) ∧ m.HasForm ∧
        EndsOutside isWordChar (before ++ x) ∧ sig = m.toSignature (before ++ x) := by
  constructor
  · rintro ⟨⟨before', m, htext, hform, hends, rfl⟩, hle⟩
    obtain ⟨x, rfl, hs⟩ := exists_append_of_byteSize_le htext hle
    exact ⟨x, m, hs, hform, hends, rfl⟩
  · rintro ⟨x, m, rfl, hform, hends, rfl⟩
    refine ⟨⟨before ++ x, m, by rw [List.append_assoc], hform, hends, rfl⟩, ?_⟩
    simp [Match.toSignature]

/-- The signatures from some place on. -/
theorem mem_findFrom_iff {inWord : Bool} (before : List Char) (s : List Char) (sig : Signature)
    (h : inWord = false ↔ EndsOutside isWordChar before) :
    sig ∈ findFrom (byteSize before) inWord s ↔
      Occurs (before ++ s) sig ∧ byteSize before ≤ sig.span.start := by
  induction before, inWord, s using induction_on_findFrom with
  | nil before inWord =>
    rw [occurs_append_iff, findFrom_nil]
    refine ⟨fun hmem => absurd hmem List.not_mem_nil, ?_⟩
    rintro ⟨x, m, hnil, hform, -⟩
    exact absurd (List.append_eq_nil_iff.mp (List.append_eq_nil_iff.mp hnil.symm).2).1
      hform.text_ne_nil
  | found before m hform ih =>
    have hmatch : match? (m.text ++ m.rest) = some m := match?_eq_some_iff.mpr ⟨hform, rfl⟩
    rw [findFrom_match hmatch, List.mem_cons,
      ih (iff_of_true rfl (hform.endsOutside_append before)), occurs_append_iff, occurs_append_iff]
    constructor
    · rintro (rfl | ⟨x, m', hrest, hform', hends, rfl⟩)
      · exact ⟨[], m, rfl, hform, by simpa using h.mp rfl, by rw [List.append_nil]⟩
      · refine ⟨m.text ++ x, m', ?_, hform', ?_, ?_⟩
        · rw [hrest, List.append_assoc]
        · rwa [← List.append_assoc]
        · rw [← List.append_assoc]
    · rintro ⟨x, m', heq, hform', hends, rfl⟩
      by_cases hx : x = []
      -- here only one signature can start, and any other one starts after its end
      · subst hx
        have hmatch' : match? (m.text ++ m.rest) = some m' :=
          match?_eq_some_iff.mpr ⟨hform', heq⟩
        obtain rfl := Option.some.inj (hmatch.symm.trans hmatch')
        exact .inl (by rw [List.append_nil])
      · have hends' : EndsOutside isWordChar x := by
          rwa [EndsOutside, List.getLast?_append_of_ne_nil before hx] at hends
        obtain ⟨y, rfl⟩ := hform.exists_append hform' heq hends' hx
        rw [List.append_assoc, List.append_cancel_left_eq] at heq
        rw [← List.append_assoc] at hends ⊢
        exact .inr ⟨y, m', heq, hform', hends, rfl⟩
  | skip before inWord c s hskip ih =>
    have hword : isWordChar c = false ↔ EndsOutside isWordChar (before ++ [c]) :=
      endsOutside_concat_iff.symm
    rw [findFrom_cons hskip, ih hword, occurs_append_iff, occurs_append_iff]
    constructor
    · rintro ⟨x, m, rfl, hform, hends, rfl⟩
      refine ⟨c :: x, m, rfl, hform, ?_, ?_⟩
      · rwa [List.append_assoc] at hends
      · rw [List.append_assoc, List.singleton_append]
    · rintro ⟨x, m, heq, hform, hends, rfl⟩
      cases x with
      | nil =>
        -- nothing starts where the reader finds nothing, or inside of a word
        rw [List.append_nil, ← h] at hends
        have hmatch : match? (c :: s) = some m := match?_eq_some_iff.mpr ⟨hform, heq⟩
        simp [hends, hmatch] at hskip
      | cons d x =>
        obtain ⟨rfl, rfl⟩ := List.cons.inj heq
        refine ⟨x, m, rfl, hform, ?_, ?_⟩
        · rwa [List.append_assoc]
        · rw [List.append_assoc, List.singleton_append]

/-- The signatures from some place on come in order. -/
theorem findFrom_pairwise {inWord : Bool} (before s : List Char)
    (h : inWord = false ↔ EndsOutside isWordChar before) :
    (findFrom (byteSize before) inWord s).Pairwise fun a b => a.span.stop ≤ b.span.start := by
  induction before, inWord, s using induction_on_findFrom with
  | nil before inWord =>
    rw [findFrom_nil]
    exact .nil
  | found before m hform ih =>
    have hends : false = false ↔ EndsOutside isWordChar (before ++ m.text) :=
      iff_of_true rfl (hform.endsOutside_append before)
    rw [findFrom_match (match?_eq_some_iff.mpr ⟨hform, rfl⟩)]
    refine .cons (fun sig hsig => ?_) (ih hends)
    exact ((mem_findFrom_iff _ _ sig hends).mp hsig).2
  | skip before inWord c s hskip ih =>
    rw [findFrom_cons hskip]
    exact ih endsOutside_concat_iff.symm

theorem mem_findAll_iff {text : List Char} {sig : Signature} :
    sig ∈ findAll text ↔ Occurs text sig := by
  have h := mem_findFrom_iff [] text sig (iff_of_true rfl endsOutside_nil)
  simpa [findAll] using h

theorem Occurs.start_lt_stop {text : List Char} {sig : Signature} (h : Occurs text sig) :
    sig.span.start < sig.span.stop := by
  obtain ⟨before, m, -, hform, -, rfl⟩ := h
  have := byteSize_pos hform.text_ne_nil
  simp only [Match.toSignature, byteSize_append]
  omega

theorem findAll_pairwise (text : List Char) :
    (findAll text).Pairwise fun a b =>
      a.span.start < b.span.start ∧ a.span.stop ≤ b.span.start := by
  have hordered : (findAll text).Pairwise fun a b => a.span.stop ≤ b.span.start :=
    findFrom_pairwise [] text (iff_of_true rfl endsOutside_nil)
  refine hordered.imp_of_mem ?_
  intro a b ha _ hle
  exact ⟨Nat.lt_of_lt_of_le (mem_findAll_iff.mp ha).start_lt_stop hle, hle⟩

/-- The signatures of a text are those that occur in it, in order. They do not overlap, and none
is kept from being found by what stands elsewhere in the text. -/
theorem findAll_eq_occurrences (text : List Char) :
    (∀ sig, sig ∈ findAll text ↔ Occurs text sig) ∧
      (findAll text).Pairwise fun a b =>
        a.span.start < b.span.start ∧ a.span.stop ≤ b.span.start :=
  ⟨fun _ => mem_findAll_iff, findAll_pairwise text⟩

end Signature

end GrammarLayers
