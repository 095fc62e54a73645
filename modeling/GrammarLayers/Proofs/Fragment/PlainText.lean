import GrammarLayers.Proofs.Fragment.SelfDelimiting

/-!
# Plain text in blocks

Text without quotes, braces and openings of comments makes no difference to the block it stands in:
each of its tokens is an item by itself. From such text, and from braces around it, blocks can be
put together, and productions from a signature and two blocks. What keeps the tokens apart is that
every piece ends in a blank or in a brace.

## Main definitions

* `IsPlain` — a text without quotes, braces and openings of comments
* `HoldsItems` — a text that may stand between the braces of a block

## Main results

* `infix_append_cases` — where a part of two texts can lie
* `IsPlain.append` — plain texts, one after another
* `IsPlain.holdsItems` — plain text may stand in a block
* `HoldsItems.append`, `HoldsItems.flatMap`, `HoldsItems.braces` — and so may what is made of it
* `HoldsItems.delimitsBlock` — with braces around it, such a text is a block
* `Production.standsAlone_of_holdsItems` — a signature and two blocks are a production
-/

namespace GrammarLayers

/-- Texts that open something, or close a block. -/
def blockMarkers : List (List Char) :=
  [['\x22'], ['\''], ['\x7b'], ['\x7d'], ['/', '/'], ['/', '*']]

/-- The text has no quotes, braces and openings of comments in it. -/
def IsPlain (s : List Char) : Prop := ∀ marker ∈ blockMarkers, ¬ marker <:+: s

instance : DecidablePred IsPlain := fun _ => inferInstanceAs (Decidable (∀ _ ∈ blockMarkers, _))

/-- The text has the tokens of items, and the tokens of what comes after it are apart from them. -/
structure HoldsItems (s : List Char) : Prop where
  isItems : ∀ offset, IsItems (Token.scan offset s)
  ends : s = [] ∨ ∃ c ∈ s.getLast?, Token.Kind.ofChar? c ≠ none

/-! ### Plain texts -/

section
variable {α : Type} {part a b : List α}

/-- A part of two lists lies in one of them, or where they are put together. -/
theorem infix_append_cases (h : part <:+: a ++ b) :
    part <:+: a ∨ part <:+: b ∨ ∃ x y, x ≠ [] ∧ y ≠ [] ∧ part = x ++ y ∧ x <:+ a ∧ y <+: b := by
  obtain ⟨u, v, huv⟩ := h
  rcases List.append_eq_append_iff.mp huv with ⟨w, ha, -⟩ | ⟨w, hw, hb⟩
  · exact .inl ⟨u, w, ha.symm⟩
  · rcases List.append_eq_append_iff.mp hw with ⟨x, ha, hpart⟩ | ⟨x, -, hw'⟩
    · by_cases hx : x = []
      · exact .inr (.inl ⟨[], v, by simp [hb, hpart, hx]⟩)
      · by_cases hnil : w = []
        · exact .inl ⟨u, [], by simp [ha, hpart, hnil]⟩
        · exact .inr (.inr ⟨x, w, hx, hnil, hpart, ⟨u, ha.symm⟩, ⟨v, hb.symm⟩⟩)
    · exact .inr (.inl ⟨x, v, by rw [hb, hw']⟩)

end

variable {a b s after : List Char}

/-- A marker that is put together from two texts is the opening of a comment. -/
theorem eq_of_append_mem_blockMarkers (ha : a ≠ []) (hb : b ≠ []) (h : a ++ b ∈ blockMarkers) :
    a = ['/'] ∧ (b = ['/'] ∨ b = ['*']) := by
  obtain ⟨c, a, rfl⟩ := List.exists_cons_of_ne_nil ha
  obtain ⟨d, b, rfl⟩ := List.exists_cons_of_ne_nil hb
  cases a with
  | nil => simpa [blockMarkers, and_or_left] using h
  | cons => simp [blockMarkers] at h

/-- Two plain texts are one if no opening of a comment comes up between them. -/
theorem IsPlain.append (ha : IsPlain a) (hb : IsPlain b)
    (h : a.getLast? ≠ some '/' ∨ (b.head? ≠ some '/' ∧ b.head? ≠ some '*')) :
    IsPlain (a ++ b) := by
  intro marker hmarker hinfix
  rcases infix_append_cases hinfix with hin | hin | ⟨x, y, hx, hy, rfl, hsuffix, hprefix⟩
  · exact ha marker hmarker hin
  · exact hb marker hmarker hin
  · -- where the texts meet, only the opening of a comment could lie
    obtain ⟨rfl, hsecond⟩ := eq_of_append_mem_blockMarkers hx hy hmarker
    obtain ⟨a, rfl⟩ := hsuffix
    obtain ⟨b, rfl⟩ := hprefix
    rcases hsecond with rfl | rfl
    all_goals simp at h

/-! ### Texts in a block -/

theorem mem_blockMarkers {t : Token} (hmem : t.text ∈ t.kind.delimiters)
    (h : Context.ofOpening? t.kind ≠ none ∨ t.kind = .openBrace ∨ t.kind = .closeBrace) :
    t.text ∈ blockMarkers := by
  rcases t with ⟨kind, text, offset⟩
  cases kind <;> simp_all [Context.ofOpening?, Token.Kind.delimiters, blockMarkers]

theorem IsItems.append {items items' : List Token} (h : IsItems items) (h' : IsItems items') :
    IsItems (items ++ items') := by
  induction h with
  | nil => exact h'
  | piece hpiece _ ih =>
    rw [List.append_assoc]
    exact .piece hpiece ih
  | block hopen hinner hclose _ _ ih =>
    have hblock := IsItems.block hopen hinner hclose ih
    simpa using hblock

theorem IsItems.of_forall {tokens : List Token}
    (h : ∀ t ∈ tokens, Context.ofOpening? t.kind = none ∧ t.kind ≠ .openBrace ∧
      t.kind ≠ .closeBrace) : IsItems tokens := by
  induction tokens with
  | nil => exact .nil
  | cons t tokens ih =>
    obtain ⟨⟨hopens, hopen, hclose⟩, htokens⟩ := List.forall_mem_cons.mp h
    exact .piece (.single hopens hopen hclose) (ih htokens)

/-- A token of a text is a part of it. -/
theorem Token.text_infix_of_mem_scan {offset : Nat} {t : Token} (h : t ∈ scan offset s) :
    t.text <:+: s := by
  obtain ⟨before, rest, htokens⟩ := List.append_of_mem h
  refine ⟨textOf before, textOf rest, ?_⟩
  rw [← textOf_scan offset s, htokens, textOf_append, textOf_cons, List.append_assoc]

/-- Plain text may stand in a block, if its last token does not go on after it. -/
theorem IsPlain.holdsItems (h : IsPlain s)
    (hends : ∃ c ∈ s.getLast?, Token.Kind.ofChar? c ≠ none) : HoldsItems s := by
  refine ⟨fun offset => .of_forall fun t ht => ?_, .inr hends⟩
  have hdelimiter := (scan_eq_iff.mp rfl : IsTokenizationFrom offset s _).delimiter t ht
  have hkind : ¬ (Context.ofOpening? t.kind ≠ none ∨ t.kind = .openBrace ∨
      t.kind = .closeBrace) := by
    intro hopens
    -- its text would be a marker, and a part of the plain text
    have hnotText : t.kind ≠ .text := by
      intro htext
      simp [htext, Context.ofOpening?] at hopens
    exact h _ (mem_blockMarkers (hdelimiter hnotText) hopens) (Token.text_infix_of_mem_scan ht)
  simpa [not_or] using hkind

theorem holdsItems_nil : HoldsItems [] := ⟨fun _ => .nil, .inl rfl⟩

theorem HoldsItems.append (ha : HoldsItems a) (hb : HoldsItems b) : HoldsItems (a ++ b) := by
  rcases ha.ends with rfl | hends
  · exact hb
  · constructor
    · intro offset
      rw [Token.scan_append_of_delimiter hends]
      exact (ha.isItems _).append (hb.isItems _)
    · right
      rcases hb.ends with rfl | ⟨c, hc, hdelimiter⟩
      · rwa [List.append_nil]
      · have hne : b ≠ [] := by
          rintro rfl
          cases hc
        rw [List.getLast?_append_of_ne_nil a hne]
        exact ⟨c, hc, hdelimiter⟩

theorem HoldsItems.flatMap {α : Type} {f : α → List Char} {xs : List α}
    (h : ∀ x ∈ xs, HoldsItems (f x)) : HoldsItems (xs.flatMap f) := by
  induction xs with
  | nil => exact holdsItems_nil
  | cons x xs ih =>
    obtain ⟨hx, hxs⟩ := List.forall_mem_cons.mp h
    exact hx.append (ih hxs)

theorem delimiter_of_braces (s : List Char) :
    ∃ c ∈ ('\x7b' :: (s ++ ['\x7d'])).getLast?, Token.Kind.ofChar? c ≠ none := by
  refine ⟨'\x7d', ?_, by decide⟩
  rw [← List.cons_append, List.getLast?_concat]
  rfl

/-- The tokens of a text with braces around it. -/
theorem HoldsItems.scan_braces (h : HoldsItems s) (offset : Nat) :
    ∃ n m, Token.scan offset ('\x7b' :: (s ++ ['\x7d'])) =
      ⟨.openBrace, ['\x7b'], offset⟩ :: (Token.scan n s ++ [⟨.closeBrace, ['\x7d'], m⟩]) := by
  have hclosing : ∀ m, Token.scan m ['\x7d'] = [⟨.closeBrace, ['\x7d'], m⟩] :=
    fun m => Token.scan_delimiter m [] rfl
  rw [Token.scan_delimiter offset _ rfl]
  rcases h.ends with rfl | hends
  · exact ⟨0, _, congrArg _ (hclosing _)⟩
  · rw [Token.scan_append_of_delimiter hends, hclosing]
    exact ⟨_, _, rfl⟩

/-- A text that may stand in a block may have braces around it there. -/
theorem HoldsItems.braces (h : HoldsItems s) : HoldsItems ('\x7b' :: (s ++ ['\x7d'])) := by
  constructor
  · intro offset
    obtain ⟨n, m, hscan⟩ := h.scan_braces offset
    rw [hscan]
    exact .block rfl (h.isItems n) rfl .nil
  · exact .inr (delimiter_of_braces s)

/-- With braces around it, such a text is a block, whatever comes after it. -/
theorem HoldsItems.delimitsBlock (h : HoldsItems s) (after : List Char) :
    DelimitsBlock ('\x7b' :: (s ++ ['\x7d'])) after := by
  obtain ⟨n, m, hscan⟩ := h.scan_braces 0
  have hblock : IsBlock (tokensOf ('\x7b' :: (s ++ ['\x7d']))) :=
    ⟨_, _, _, rfl, h.isItems n, rfl, hscan⟩
  exact hblock.delimitsBlock (delimiter_of_braces s) after

/-! ### Productions -/

/-- A text that is put together from a signature and two blocks is that of a production. -/
theorem Production.standsAlone_of_holdsItems {p : Production} {kind name head gap : List Char}
    (hform : Signature.IsForm kind name head) (ha : HoldsItems a) (hgap : Signature.IsBlanks gap)
    (hb : HoldsItems b) (hkind : p.kind = String.ofList kind) (hname : p.name = String.ofList name)
    (htext : p.text.toList = head ++ ['\n'] ++ ('\x7b' :: (a ++ ['\x7d'])) ++
      (gap ++ '\x7b' :: (b ++ ['\x7d']))) : p.StandsAlone := by
  let m : Signature.Match :=
    { kind
      name
      text := head ++ ['\n']
      rest := '\x7b' :: (a ++ ['\x7d']) ++ (gap ++ '\x7b' :: (b ++ ['\x7d'])) }
  -- nothing comes before the signature and nothing after the body
  let k : Capture p.text.toList :=
    { before := []
      head := head ++ ['\n']
      gap := []
      initializer := '\x7b' :: (a ++ ['\x7d'])
      gap' := gap
      body := '\x7b' :: (b ++ ['\x7d'])
      after := []
      source_eq := by simp [htext]
      isBlanks_gap := Signature.isBlanks_nil
      delimits_initializer := ha.delimitsBlock _
      isBlanks_gap' := hgap
      delimits_body := hb.delimitsBlock _ }
  have hk : k.text = p.text.toList := Eq.trans (by simp [k, Capture.text]) htext.symm
  have hspan : k.span = ⟨0, byteSize p.text.toList⟩ :=
    congrArg (fun text => (⟨0, byteSize text⟩ : Span)) hk
  refine ⟨m.toSignature [], ⟨[], m, ?_, ⟨head, hform, .inl rfl⟩, endsOutside_nil, rfl⟩, k, rfl, ?_⟩
  · rw [htext]
    simp [m]
  · rw [alone, Capture.toProduction, hspan, hk, String.ofList_toList, hkind, hname]
    rfl

end GrammarLayers
