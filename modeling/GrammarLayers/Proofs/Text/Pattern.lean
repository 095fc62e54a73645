import GrammarLayers.Text.Position
import Mathlib.Data.List.Basic

/-!
# Searching for a pattern

A pattern says what a piece of a text may look like. There may be several ways in which a text
starts with such a piece, and one of them is preferred: what may be missing is rather there, and
what may be repeated is rather repeated once more. A search goes through a text from left to right.
It takes the first place where there is a way at all, and there the way that is preferred, and goes
on behind the piece.

## Main definitions

* `Pattern`, `Pattern.Takes` — what a piece of a text may look like
* `Pattern.ways` — the ways in which a text starts with such a piece, the preferred ones first
* `Pattern.search` — the pieces that a search finds

## Main results

* `Pattern.mem_ways_iff` — the ways are those that the pattern allows
* `Pattern.head?_search_eq_some_iff` — what is found first is leftmost, and preferred there
-/

namespace GrammarLayers

/-- What a piece of a text may look like. -/
inductive Pattern where
  /-- One character with a property. -/
  | char (p : Char → Bool)
  | seq (first second : Pattern)
  /-- Something or nothing, and rather something. -/
  | optional (inner : Pattern)
  /-- The same any number of times, and rather once more. -/
  | many (inner : Pattern)
  /-- Something whose text is kept under a name. -/
  | group (name : String) (inner : Pattern)

namespace Pattern

/-- Something at least once, and rather once more. -/
def atLeastOnce (inner : Pattern) : Pattern := inner.seq inner.many

/-- This character. -/
def exactly (c : Char) : Pattern := char (· == c)

/-- Texts with the names that they are kept under. -/
abbrev Groups := List (String × List Char)

/-! ### What a pattern allows -/

/-- Pieces one after another, none of them empty. -/
inductive Repeats (allows : List Char → Groups → Prop) : List Char → Groups → Prop
  | nil : Repeats allows [] []
  | cons {s t : List Char} {g h : Groups} : s ≠ [] → allows s g → Repeats allows t h →
    Repeats allows (s ++ t) (g ++ h)

/-- The pattern allows this piece, and keeps these texts of it. -/
def Takes : Pattern → List Char → Groups → Prop
  | char p, s, g => ∃ c, p c = true ∧ s = [c] ∧ g = []
  | seq first second, s, g =>
    ∃ u v gu gv, first.Takes u gu ∧ second.Takes v gv ∧ s = u ++ v ∧ g = gu ++ gv
  | optional inner, s, g => inner.Takes s g ∨ s = [] ∧ g = []
  | many inner, s, g => Repeats inner.Takes s g
  | group name inner, s, g => ∃ h, inner.Takes s h ∧ g = (name, s) :: h

/-! ### The ways in which a text starts with a pattern -/

/-- A way in which a text starts with a pattern: the piece, what is left, and what is kept. -/
structure Way where
  text : List Char
  rest : List Char
  groups : Groups

/-- The way that takes nothing. -/
def Way.nothing (s : List Char) : Way := ⟨[], s, []⟩

/-- A way that goes on where another one ends. -/
def Way.append (w next : Way) : Way := ⟨w.text ++ next.text, next.rest, w.groups ++ next.groups⟩

/-- The ways to go the same kind of way any number of times, and rather once more. Taking nothing is
not repeated. -/
def manyWays (ways : List Char → List Way) (s : List Char) : List Way :=
  ((ways s).flatMap fun w =>
    if w.rest.length < s.length then (manyWays ways w.rest).map w.append else []) ++ [.nothing s]
termination_by s.length

/-- The ways in which a text starts with a pattern. Those that are preferred come first. -/
def ways : Pattern → List Char → List Way
  | char p, s =>
    match s with
    | c :: rest => if p c then [⟨[c], rest, []⟩] else []
    | [] => []
  | seq first second, s => (first.ways s).flatMap fun w => (second.ways w.rest).map w.append
  | optional inner, s => inner.ways s ++ [.nothing s]
  | many inner, s => manyWays inner.ways s
  | group name inner, s =>
    (inner.ways s).map fun w => { w with groups := (name, w.text) :: w.groups }

/-- A text starts with this piece, which is one that is allowed. -/
def Way.IsAllowed (allows : List Char → Groups → Prop) (s : List Char) (w : Way) : Prop :=
  s = w.text ++ w.rest ∧ allows w.text w.groups

variable {p : Pattern} {s : List Char} {w : Way}

theorem mem_manyWays_iff {ways : List Char → List Way} {allows : List Char → Groups → Prop}
    (hways : ∀ s w, w ∈ ways s ↔ w.IsAllowed allows s) (s : List Char) (w : Way) :
    w ∈ manyWays ways s ↔ w.IsAllowed (Repeats allows) s := by
  induction hn : s.length using Nat.strongRecOn generalizing s w with
  | ind n ih =>
    subst hn
    rw [manyWays, List.mem_append, List.mem_flatMap, List.mem_singleton]
    constructor
    · rintro (⟨first, hfirst, hw⟩ | rfl)
      · obtain ⟨rfl, hallowed⟩ := (hways _ _).mp hfirst
        split at hw
        next hshorter =>
          obtain ⟨next, hnext, rfl⟩ := List.mem_map.mp hw
          obtain ⟨hrest, hrepeats⟩ := (ih _ hshorter _ _ rfl).mp hnext
          -- a way that is gone on with has taken something
          have hne : first.text ≠ [] := by
            intro hnil
            simp [hnil] at hshorter
          exact ⟨by rw [hrest]; simp [Way.append], .cons hne hallowed hrepeats⟩
        next => cases hw
      · exact ⟨rfl, .nil⟩
    · rintro ⟨hs, hrepeats⟩
      obtain ⟨text, rest, groups⟩ := w
      dsimp only at hs hrepeats
      subst hs
      cases hrepeats with
      | nil => exact .inr rfl
      | @cons u t g h hne hallowed hrepeats =>
        have hlength : (t ++ rest).length < (u ++ t ++ rest).length := by
          have := List.length_pos_iff.mpr hne
          simp only [List.length_append]
          omega
        refine .inl ⟨⟨u, t ++ rest, g⟩, (hways _ _).mpr ⟨List.append_assoc u t rest, hallowed⟩, ?_⟩
        rw [if_pos hlength]
        exact List.mem_map.mpr ⟨⟨t, rest, h⟩, (ih _ hlength _ _ rfl).mpr ⟨rfl, hrepeats⟩, rfl⟩

theorem mem_ways_char_iff (p : Char → Bool) (s : List Char) (w : Way) :
    w ∈ (char p).ways s ↔ w.IsAllowed (char p).Takes s := by
  obtain ⟨text, rest, groups⟩ := w
  cases s with
  | nil =>
    refine iff_of_false List.not_mem_nil ?_
    rintro ⟨hnil, c, -, rfl, -⟩
    cases hnil
  | cons d s =>
    rw [ways]
    constructor
    · split
      next hd =>
        intro hw
        obtain ⟨rfl, rfl, rfl⟩ := Way.mk.inj (List.mem_singleton.mp hw)
        exact ⟨rfl, d, hd, rfl, rfl⟩
      next => rintro ⟨⟩
    · rintro ⟨hs, c, hc, rfl, rfl⟩
      obtain ⟨rfl, rfl⟩ := List.cons.inj hs
      rw [if_pos hc]
      exact List.mem_singleton.mpr rfl

theorem mem_ways_seq_iff {first second : Pattern}
    (hfirst : ∀ s w, w ∈ first.ways s ↔ w.IsAllowed first.Takes s)
    (hsecond : ∀ s w, w ∈ second.ways s ↔ w.IsAllowed second.Takes s) (s : List Char) (w : Way) :
    w ∈ (first.seq second).ways s ↔ w.IsAllowed (first.seq second).Takes s := by
  rw [ways, List.mem_flatMap]
  constructor
  · rintro ⟨u, hu, hw⟩
    obtain ⟨v, hv, rfl⟩ := List.mem_map.mp hw
    obtain ⟨rfl, htakes⟩ := (hfirst _ _).mp hu
    obtain ⟨hrest, htakes'⟩ := (hsecond _ _).mp hv
    refine ⟨?_, u.text, v.text, u.groups, v.groups, htakes, htakes', rfl, rfl⟩
    rw [hrest, Way.append, List.append_assoc]
  · -- the piece is cut in two, and the second part starts what the first one leaves
    rintro ⟨rfl, u, v, gu, gv, htakes, htakes', htext, hgroups⟩
    refine ⟨⟨u, v ++ w.rest, gu⟩, (hfirst _ _).mpr ⟨?_, htakes⟩, ?_⟩
    · rw [htext, List.append_assoc]
    · refine List.mem_map.mpr ⟨⟨v, w.rest, gv⟩, (hsecond _ _).mpr ⟨rfl, htakes'⟩, ?_⟩
      rw [Way.append, ← htext, ← hgroups]

/-- The ways are those in which the text starts with a piece that the pattern allows. -/
theorem mem_ways_iff (p : Pattern) (s : List Char) (w : Way) :
    w ∈ p.ways s ↔ w.IsAllowed p.Takes s := by
  induction p generalizing s w with
  | char p => exact mem_ways_char_iff p s w
  | seq first second ihfirst ihsecond => exact mem_ways_seq_iff ihfirst ihsecond s w
  | optional inner ih =>
    rw [ways, List.mem_append, ih, List.mem_singleton]
    constructor
    · rintro (⟨hs, htakes⟩ | rfl)
      · exact ⟨hs, .inl htakes⟩
      · exact ⟨rfl, .inr ⟨rfl, rfl⟩⟩
    · rintro ⟨rfl, htakes | ⟨htext, hgroups⟩⟩
      · exact .inl ⟨rfl, htakes⟩
      · obtain ⟨text, rest, groups⟩ := w
        obtain rfl := htext
        obtain rfl := hgroups
        exact .inr rfl
  | many inner ih => exact mem_manyWays_iff ih s w
  | group name inner ih =>
    rw [ways, List.mem_map]
    constructor
    · rintro ⟨v, hv, rfl⟩
      obtain ⟨hs, htakes⟩ := (ih _ _).mp hv
      exact ⟨hs, v.groups, htakes, rfl⟩
    · rintro ⟨hs, h, htakes, hgroups⟩
      refine ⟨⟨w.text, w.rest, h⟩, (ih _ _).mpr ⟨hs, htakes⟩, ?_⟩
      rw [← hgroups]

/-! ### Patterns that keep nothing -/

/-- The pattern allows just the pieces with a property, and keeps nothing of them. -/
def IsBare (p : Pattern) (P : List Char → Prop) : Prop := ∀ s g, p.Takes s g ↔ P s ∧ g = []

section
variable {a b : Pattern} {P Q : List Char → Prop}

theorem IsBare.congr (h : a.IsBare P) (hPQ : ∀ s, P s ↔ Q s) : a.IsBare Q := fun s g => by
  rw [h s g, hPQ s]

theorem IsBare.seq (ha : a.IsBare P) (hb : b.IsBare Q) :
    (a.seq b).IsBare fun s => ∃ u v, P u ∧ Q v ∧ s = u ++ v := by
  intro s g
  constructor
  · rintro ⟨u, v, gu, gv, htakes, htakes', rfl, rfl⟩
    obtain ⟨hu, hgu⟩ := (ha _ _).mp htakes
    obtain ⟨hv, hgv⟩ := (hb _ _).mp htakes'
    exact ⟨⟨u, v, hu, hv, rfl⟩, by rw [hgu, hgv]; rfl⟩
  · rintro ⟨⟨u, v, hu, hv, rfl⟩, rfl⟩
    exact ⟨u, v, [], [], (ha _ _).mpr ⟨hu, rfl⟩, (hb _ _).mpr ⟨hv, rfl⟩, rfl, rfl⟩

theorem IsBare.optional (ha : a.IsBare P) : a.optional.IsBare fun s => P s ∨ s = [] := fun s g => by
  rw [Takes, ha s g, or_and_right]

theorem IsBare.many (ha : a.IsBare P) : a.many.IsBare fun s => Repeats a.Takes s [] := by
  intro s g
  have hbare : ∀ {s g}, Repeats a.Takes s g → g = [] := by
    intro s g h
    induction h with
    | nil => rfl
    | cons _ hallows _ ih => rw [((ha _ _).mp hallows).2, ih, List.append_nil]
  constructor
  · intro h
    obtain rfl := hbare h
    exact ⟨h, rfl⟩
  · rintro ⟨h, rfl⟩
    exact h

theorem IsBare.takes_group_iff {s : List Char} {g : Groups} (ha : a.IsBare P) (name : String) :
    (a.group name).Takes s g ↔ P s ∧ g = [(name, s)] := by
  constructor
  · rintro ⟨h, htakes, rfl⟩
    obtain ⟨hs, hh⟩ := (ha _ _).mp htakes
    exact ⟨hs, by rw [hh]⟩
  · rintro ⟨hs, rfl⟩
    exact ⟨[], (ha _ _).mpr ⟨hs, rfl⟩, rfl⟩

theorem isBare_exactly (c : Char) : (exactly c).IsBare (· = [c]) := by
  intro s g
  constructor
  · rintro ⟨d, hd, rfl, rfl⟩
    exact ⟨by rw [eq_of_beq hd], rfl⟩
  · rintro ⟨rfl, rfl⟩
    exact ⟨c, beq_self_eq_true c, rfl, rfl⟩

theorem isBare_many_char (p : Char → Bool) :
    (many (char p)).IsBare fun s => ∀ c ∈ s, p c = true := by
  intro s g
  constructor
  · intro h
    induction h with
    | nil => exact ⟨by simp, rfl⟩
    | cons _ hallows _ ih =>
      obtain ⟨c, hc, rfl, rfl⟩ := hallows
      exact ⟨List.forall_mem_cons.mpr ⟨hc, ih.1⟩, ih.2⟩
  · rintro ⟨hs, rfl⟩
    induction s with
    | nil => exact .nil
    | cons c s ih =>
      obtain ⟨hc, hs⟩ := List.forall_mem_cons.mp hs
      exact .cons (List.cons_ne_nil c []) ⟨c, hc, rfl, rfl⟩ (ih hs)

theorem isBare_atLeastOnce_char (p : Char → Bool) :
    (atLeastOnce (char p)).IsBare fun s => s ≠ [] ∧ ∀ c ∈ s, p c = true := by
  intro s g
  constructor
  · rintro ⟨_, t, _, h, ⟨c, hc, rfl, rfl⟩, hmany, rfl, rfl⟩
    obtain ⟨ht, hh⟩ := (isBare_many_char p _ _).mp hmany
    exact ⟨⟨List.cons_ne_nil c t, List.forall_mem_cons.mpr ⟨hc, ht⟩⟩, hh⟩
  · rintro ⟨⟨hne, hs⟩, rfl⟩
    obtain ⟨c, t, rfl⟩ := List.exists_cons_of_ne_nil hne
    obtain ⟨hc, ht⟩ := List.forall_mem_cons.mp hs
    exact ⟨[c], t, [], [], ⟨c, hc, rfl, rfl⟩, (isBare_many_char p _ _).mpr ⟨ht, rfl⟩, rfl, rfl⟩

end

/-! ### The search -/

/-- A piece that a search finds: where it stands, and what is kept of it. -/
structure Piece where
  span : Span
  groups : Groups

/-- The text that is kept under a name. -/
def Piece.group (f : Piece) (name : String) : List Char := (f.groups.lookup name).getD []

/-- The preferred way in which a text starts with a pattern. -/
def first? (p : Pattern) (s : List Char) : Option Way := (p.ways s).head?

theorem append_of_first? (h : p.first? s = some w) : s = w.text ++ w.rest :=
  ((mem_ways_iff p s w).mp (List.mem_of_head? h)).1

/-- The preferred way to go on after the preferred way. -/
theorem first?_seq_of_some {a b : Pattern} {w next : Way} (ha : a.first? s = some w)
    (hb : b.first? w.rest = some next) : (a.seq b).first? s = some (w.append next) := by
  obtain ⟨others, hothers⟩ := List.head?_eq_some_iff.mp ha
  obtain ⟨others', hothers'⟩ := List.head?_eq_some_iff.mp hb
  rw [first?, ways, hothers, List.flatMap_cons, hothers']
  rfl

theorem first?_seq_of_none {a b : Pattern} (ha : a.first? s = none) :
    (a.seq b).first? s = none := by
  rw [first?, ways, List.head?_eq_none_iff.mp ha]
  rfl

/-- What is found in a text whose first character stands at `offset`. A piece that is empty counts
as well, unless it stands right `behind` another one, and then the search goes on after the next
character. -/
def searchFrom (p : Pattern) (offset : Nat) (behind : Bool) (s : List Char) : List Piece :=
  let others :=
    match s with
    | [] => []
    | c :: rest => searchFrom p (offset + c.utf8Size) false rest
  match _h : p.first? s with
  | none => others
  | some w =>
    if w.text ≠ [] then
      ⟨⟨offset, offset + byteSize w.text⟩, w.groups⟩ ::
        searchFrom p (offset + byteSize w.text) true w.rest
    else if behind then others
    else ⟨⟨offset, offset⟩, w.groups⟩ :: others
termination_by s.length
decreasing_by
  · simp
  · have := List.length_pos_iff.mpr ‹w.text ≠ []›
    rw [append_of_first? _h, List.length_append]
    omega

/-- What is found in a text, in order. -/
def search (p : Pattern) (text : List Char) : List Piece := p.searchFrom 0 false text

/-- Behind `before` there is the first place of a text where the pattern matches, and this is the
preferred way there. -/
structure IsLeftmost (p : Pattern) (text before : List Char) (w : Way) : Prop where
  text_eq : text = before ++ (w.text ++ w.rest)
  preferred : p.first? (w.text ++ w.rest) = some w
  none_earlier : ∀ x y, text = x ++ y → x.length < before.length → p.first? y = none

section
variable {text before done : List Char} {c : Char} {offset : Nat} {behind : Bool}

theorem searchFrom_nil_of_none (h : p.first? [] = none) : p.searchFrom offset behind [] = [] := by
  rw [searchFrom]
  split
  next => rfl
  next hsome => simp [h] at hsome

theorem searchFrom_cons_of_none (h : p.first? (c :: s) = none) :
    p.searchFrom offset behind (c :: s) = p.searchFrom (offset + c.utf8Size) false s := by
  rw [searchFrom]
  split
  next => rfl
  next hsome => simp [h] at hsome

theorem searchFrom_of_some (h : p.first? s = some w) (hne : w.text ≠ []) :
    p.searchFrom offset behind s =
      ⟨⟨offset, offset + byteSize w.text⟩, w.groups⟩ ::
        p.searchFrom (offset + byteSize w.text) true w.rest := by
  cases s with
  | nil => exact absurd (List.append_eq_nil_iff.mp (append_of_first? h).symm).1 hne
  | cons c s =>
    rw [searchFrom]
    split
    next hnone => simp [h] at hnone
    next w' hsome =>
      obtain rfl : w = w' := Option.some.inj (h.symm.trans hsome)
      rw [if_pos hne]

theorem head?_searchFrom_of_some (h : p.first? s = some w) :
    (p.searchFrom offset false s).head? =
      some ⟨⟨offset, offset + byteSize w.text⟩, w.groups⟩ := by
  by_cases hne : w.text ≠ []
  · rw [searchFrom_of_some h hne, List.head?_cons]
  · -- an empty piece is found where it is not behind another one
    cases s with
    | nil | cons =>
      rw [searchFrom]
      split
      next hnone => simp [h] at hnone
      next w' hsome =>
        obtain rfl : w = w' := Option.some.inj (h.symm.trans hsome)
        simp [not_not.mp hne]

theorem isLeftmost_iff_of_some (h : p.first? s = some w) {before : List Char} {w' : Way} :
    p.IsLeftmost s before w' ↔ before = [] ∧ w' = w := by
  constructor
  · rintro ⟨htext, hpreferred, hearlier⟩
    obtain rfl : before = [] := by
      by_contra hne
      have hnone := hearlier [] s rfl (List.length_pos_iff.mpr hne)
      exact Option.some_ne_none w (h.symm.trans hnone)
    rw [List.nil_append] at htext
    rw [← htext, h] at hpreferred
    exact ⟨rfl, (Option.some.inj hpreferred).symm⟩
  · rintro ⟨rfl, rfl⟩
    have htext := append_of_first? h
    exact ⟨htext, htext ▸ h, fun x y _ hlt => absurd hlt (Nat.not_lt_zero _)⟩

theorem head?_searchFrom_iff_of_some {f : Piece} (h : p.first? text = some w) :
    (p.searchFrom (byteSize done) false text).head? = some f ↔
      ∃ before w, p.IsLeftmost text before w ∧
        f = ⟨⟨byteSize (done ++ before), byteSize (done ++ before ++ w.text)⟩, w.groups⟩ := by
  rw [head?_searchFrom_of_some h, Option.some.injEq]
  simp only [isLeftmost_iff_of_some h]
  constructor
  · rintro rfl
    exact ⟨[], w, ⟨rfl, rfl⟩, by simp⟩
  · rintro ⟨_, _, ⟨rfl, rfl⟩, rfl⟩
    simp

theorem isLeftmost_cons_iff_of_none (h : p.first? (c :: s) = none) {before : List Char} {w : Way} :
    p.IsLeftmost (c :: s) before w ↔ ∃ b, before = c :: b ∧ p.IsLeftmost s b w := by
  constructor
  · rintro ⟨htext, hpreferred, hearlier⟩
    cases before with
    | nil =>
      rw [List.nil_append] at htext
      rw [← htext, h] at hpreferred
      cases hpreferred
    | cons d b =>
      obtain ⟨rfl, hs⟩ := List.cons.inj htext
      refine ⟨b, rfl, hs, hpreferred, fun x y hxy hlt => ?_⟩
      exact hearlier (c :: x) y (by rw [hxy]; rfl) (Nat.succ_lt_succ hlt)
  · rintro ⟨b, rfl, hs, hpreferred, hearlier⟩
    refine ⟨by rw [hs]; rfl, hpreferred, fun x y hxy hlt => ?_⟩
    cases x with
    | nil =>
      -- the place before the first character is the one where there is nothing
      obtain rfl : y = c :: s := hxy.symm
      exact h
    | cons d x =>
      obtain ⟨-, hrest⟩ := List.cons.inj hxy
      exact hearlier x y hrest (Nat.lt_of_succ_lt_succ hlt)

theorem head?_searchFrom_eq_some_iff (done : List Char) {f : Piece} :
    (p.searchFrom (byteSize done) false text).head? = some f ↔
      ∃ before w, p.IsLeftmost text before w ∧
        f = ⟨⟨byteSize (done ++ before), byteSize (done ++ before ++ w.text)⟩, w.groups⟩ := by
  induction text generalizing done with
  | nil =>
    cases hfirst : p.first? [] with
    | some w => exact head?_searchFrom_iff_of_some hfirst
    | none =>
      rw [searchFrom_nil_of_none hfirst]
      refine iff_of_false (by rintro ⟨⟩) ?_
      rintro ⟨before, w, ⟨htext, hpreferred, -⟩, -⟩
      rw [(List.append_eq_nil_iff.mp htext.symm).2, hfirst] at hpreferred
      cases hpreferred
  | cons c text ih =>
    cases hfirst : p.first? (c :: text) with
    | some w => exact head?_searchFrom_iff_of_some hfirst
    | none =>
      have hoffset : byteSize done + c.utf8Size = byteSize (done ++ [c]) := by simp
      rw [searchFrom_cons_of_none hfirst, hoffset, ih]
      simp only [isLeftmost_cons_iff_of_none hfirst]
      constructor
      · rintro ⟨before, w, hleftmost, rfl⟩
        exact ⟨c :: before, w, ⟨before, rfl, hleftmost⟩, by simp⟩
      · rintro ⟨_, w, ⟨before, rfl, hleftmost⟩, rfl⟩
        exact ⟨before, w, hleftmost, by simp⟩

/-- What a search finds first is the preferred piece at the first place where there is any. -/
theorem head?_search_eq_some_iff {f : Piece} :
    (p.search text).head? = some f ↔ ∃ before w, p.IsLeftmost text before w ∧
      f = ⟨⟨byteSize before, byteSize (before ++ w.text)⟩, w.groups⟩ :=
  head?_searchFrom_eq_some_iff []

end

end Pattern

end GrammarLayers
