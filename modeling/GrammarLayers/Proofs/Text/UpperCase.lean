import GrammarLayers.Proofs.Text.Trimming
import GrammarLayers.Text.UpperCase
import Mathlib

/-!
# Upper case is final

Upper-casing a text a second time changes nothing: no character of an upper-case form has an
upper-case form other than itself. The tables are checked run against run, by the ends of the runs
and by parity, and not character by character.

Nor does upper-casing make blanks of other characters, or other characters of blanks, so that it may
come before or after trimming. The same is true of the colon, and can be checked for any ranges of
code points.

## Main definitions

* `CaseRun.low`, `CaseRun.high` — the ends of the upper-case forms of a run
* `CaseRun.avoids`, `CaseRun.misses` — no form of a run belongs to another run, or is a given
  code point
* `upperSpares` — upper-casing takes no code point out of some ranges, and puts none in

## Main results

* `CaseRun.holds_form_eq_false` — forms of a run that avoids another one do not belong to it
* `mem_upperChar_cases` — where a form comes from
* `upperChar_of_mem_upperChar` — upper-case forms stand for themselves
* `upperChars_upperChars`, `upper_upper` — upper-casing twice
* `holds_of_mem_upperChar`, `mem_upperChars_iff` — spared ranges
* `trim_upperChars` — trimming and upper-casing
-/

namespace GrammarLayers

namespace CaseRun

/-- The upper-case form of the first code point of the run. -/
def low (r : CaseRun) : Nat := (r.first + r.shift).toNat

/-- The upper-case form of the last code point of the run. -/
def high (r : CaseRun) : Nat := r.low + (r.last - r.first)

/-- The forms of the run are code points of characters. -/
def hasForms (r : CaseRun) : Bool :=
  decide (0 ≤ r.first + r.shift) &&
    (Nat.blt r.high 0xd800 || Nat.blt 0xdfff r.low && Nat.blt r.high 0x110000)

/-- The forms of the run lie before or after the other run, or between its code points. -/
def avoids (r q : CaseRun) : Bool :=
  Nat.blt r.high q.first || Nat.blt q.last r.low ||
    (r.step % 2 == 0 || r.first == r.last) && q.step % 2 == 0 && (r.low + q.first) % 2 == 1

/-- The forms of the run lie before or after the code point. -/
def misses (r : CaseRun) (n : Nat) : Bool := Nat.blt r.high n || Nat.blt n r.low

variable {r q : CaseRun} {n : Nat}

theorem holds_iff : r.holds n ↔ r.first ≤ n ∧ n ≤ r.last ∧ (n - r.first) % r.step = 0 := by
  simp [holds, and_assoc]

theorem mod_two_of_mod {a b : Nat} (hb : b % 2 = 0) (h : a % b = 0) : a % 2 = 0 :=
  Nat.mod_eq_zero_of_dvd
    (Nat.dvd_trans (Nat.dvd_of_mod_eq_zero hb) (Nat.dvd_of_mod_eq_zero h))

/-- The form of a code point of the run, as a character. -/
theorem toNat_form (h : r.holds n) (hforms : r.hasForms) :
    (Char.ofNat ((n : Int) + r.shift).toNat).toNat = r.low + (n - r.first) := by
  obtain ⟨hfirst, hlast, -⟩ := holds_iff.mp h
  simp only [hasForms, high, Bool.and_eq_true, Bool.or_eq_true, decide_eq_true_eq,
    Nat.blt_eq] at hforms
  obtain ⟨hsign, hvalid⟩ := hforms
  have hform : ((n : Int) + r.shift).toNat = r.low + (n - r.first) := by
    unfold low
    omega
  rw [hform, Char.toNat_ofNat, if_pos]
  unfold Nat.isValidChar
  omega

/-- No form of a run belongs to a run that it avoids. -/
theorem holds_form_eq_false (h : r.holds n) (havoids : r.avoids q) :
    q.holds (r.low + (n - r.first)) = false := by
  obtain ⟨hfirst, hlast, hstep⟩ := holds_iff.mp h
  apply Bool.eq_false_iff.mpr
  intro hq
  obtain ⟨hqfirst, hqlast, hqstep⟩ := holds_iff.mp hq
  simp only [avoids, high, Bool.or_eq_true, Bool.and_eq_true, Nat.blt_eq, beq_iff_eq]
    at havoids
  rcases havoids with (hbefore | hafter) | ⟨⟨hparity, hqparity⟩, hodd⟩
  · omega
  · omega
  · -- both runs go in steps of two, from ends of different parity
    have hq2 := mod_two_of_mod hqparity hqstep
    rcases hparity with heven | hsingle
    · have hr2 := mod_two_of_mod heven hstep
      omega
    · omega

theorem ne_of_misses {k : Nat} (h : r.holds n) (hmisses : r.misses k) :
    k ≠ r.low + (n - r.first) := by
  obtain ⟨hfirst, hlast, -⟩ := holds_iff.mp h
  simp only [misses, high, Bool.or_eq_true, Nat.blt_eq] at hmisses
  omega

end CaseRun

/-! ### The tables -/

/-- Forms of runs belong to no run and have no expansion. -/
theorem upperRuns_avoid :
    (upperRuns.all fun r =>
      r.hasForms && upperRuns.all r.avoids && upperExpansions.all (r.misses ·.1)) = true := by
  decide +kernel

/-- Forms in expansions belong to no run and have no expansion. -/
theorem upperExpansions_avoid :
    (upperExpansions.all fun e => e.2.all fun n =>
      Nat.blt n 0xd800 && upperRuns.all (fun q => !q.holds n) &&
        upperExpansions.all (·.1 != n)) = true := by
  decide +kernel

/-- No expansion is empty. -/
theorem upperExpansions_nonempty : (upperExpansions.all fun e => !e.2.isEmpty) = true := by
  decide +kernel

/-! ### Upper-casing twice -/

theorem upperChar_eq_self {c : Char} (hexpansions : ∀ e ∈ upperExpansions, e.1 ≠ c.toNat)
    (hruns : ∀ q ∈ upperRuns, q.holds c.toNat = false) : upperChar c = [c] := by
  have hlookup : upperExpansions.lookup c.toNat = none := by
    rw [List.lookup_eq_none_iff]
    intro e he
    exact bne_iff_ne.mpr (Ne.symm (hexpansions e he))
  have hfind : upperRuns.find? (·.holds c.toNat) = none := by
    rw [List.find?_eq_none]
    intro q hq
    exact Bool.eq_false_iff.mp (hruns q hq)
  rw [upperChar, hlookup, hfind]

/-- A form of a character is the character itself, or it is told by an expansion or by a run. -/
theorem mem_upperChar_cases {c d : Char} (h : d ∈ upperChar c) :
    (upperChar c = [c] ∧ d = c) ∨
      (∃ e ∈ upperExpansions, e.1 = c.toNat ∧ d.toNat ∈ e.2) ∨
      ∃ run ∈ upperRuns, run.holds c.toNat ∧ d.toNat = run.low + (c.toNat - run.first) := by
  rw [upperChar] at h
  split at h
  next forms hlookup =>
    obtain ⟨n, hn, rfl⟩ := List.mem_map.mp h
    obtain ⟨_, _, hsplit, -⟩ := List.lookup_eq_some_iff.mp hlookup
    have hmem : (c.toNat, forms) ∈ upperExpansions := by
      rw [hsplit]
      exact List.mem_append_right _ List.mem_cons_self
    -- the numbers in the table are those of characters
    have havoid := List.all_eq_true.mp (List.all_eq_true.mp upperExpansions_avoid _ hmem) n hn
    simp only [Bool.and_eq_true, Nat.blt_eq] at havoid
    refine .inr (.inl ⟨_, hmem, rfl, ?_⟩)
    rwa [Char.toNat_ofNat, if_pos (.inl havoid.1.1)]
  next hlookup =>
    split at h
    next run hfind =>
      obtain rfl := List.mem_singleton.mp h
      have hholds := List.find?_some hfind
      have hmem := List.mem_of_find?_eq_some hfind
      have havoid := List.all_eq_true.mp upperRuns_avoid _ hmem
      simp only [Bool.and_eq_true] at havoid
      exact .inr (.inr ⟨run, hmem, hholds, CaseRun.toNat_form hholds havoid.1.1⟩)
    next hfind =>
      refine .inl ⟨?_, List.mem_singleton.mp h⟩
      rw [upperChar, hlookup, hfind]

/-- Upper-case forms stand for themselves. -/
theorem upperChar_of_mem_upperChar {c d : Char} (h : d ∈ upperChar c) : upperChar d = [d] := by
  rcases mem_upperChar_cases h with ⟨hself, rfl⟩ | ⟨e, he, -, hd⟩ | ⟨run, hrun, hholds, hd⟩
  · exact hself
  · have havoid := List.all_eq_true.mp (List.all_eq_true.mp upperExpansions_avoid _ he) _ hd
    simp only [Bool.and_eq_true, List.all_eq_true, Bool.not_eq_true', bne_iff_ne] at havoid
    exact upperChar_eq_self havoid.2 havoid.1.2
  · have havoid := List.all_eq_true.mp upperRuns_avoid _ hrun
    simp only [Bool.and_eq_true, List.all_eq_true] at havoid
    apply upperChar_eq_self
    · intro e he
      rw [hd]
      exact CaseRun.ne_of_misses hholds (havoid.2 e he)
    · intro q hq
      rw [hd]
      exact CaseRun.holds_form_eq_false hholds (havoid.1.2 q hq)

theorem upperChars_eq_self {text : List Char} (h : ∀ c ∈ text, upperChar c = [c]) :
    upperChars text = text := by
  induction text with
  | nil => rfl
  | cons c text ih =>
    rw [upperChars, List.flatMap_cons, h c List.mem_cons_self, ← upperChars,
      ih fun d hd => h d (List.mem_cons_of_mem _ hd)]
    rfl

theorem upperChars_upperChars (text : List Char) :
    upperChars (upperChars text) = upperChars text := by
  apply upperChars_eq_self
  intro d hd
  obtain ⟨c, -, hc⟩ := List.mem_flatMap.mp hd
  exact upperChar_of_mem_upperChar hc

@[simp] theorem upper_ofList (text : List Char) :
    upper (String.ofList text) = String.ofList (upperChars text) := by
  rw [upper, String.toList_ofList]

@[simp] theorem upper_upper (name : String) : upper (upper name) = upper name := by
  change upper (String.ofList (upperChars name.toList)) = String.ofList (upperChars name.toList)
  rw [upper_ofList, upperChars_upperChars]

/-! ### What upper-casing leaves alone -/

/-- Upper-casing leaves the ranges alone: no code point in them has a form other than itself, and no
form of another one is in them. -/
def upperSpares (ranges : CodePointRanges) : Bool :=
  ranges.all fun (first, last) =>
    (upperRuns.all fun r =>
      (Nat.blt r.last first || Nat.blt last r.first) &&
        (Nat.blt r.high first || Nat.blt last r.low)) &&
    upperExpansions.all fun e => (e.1 :: e.2).all fun n => Nat.blt n first || Nat.blt last n

theorem blanks_spared : upperSpares blanks = true := by
  decide +kernel

theorem colon_spared : upperSpares [(0x3a, 0x3a)] = true := by
  decide +kernel

section
variable {ranges : CodePointRanges} {c d : Char} {text : List Char}

theorem holds_eq_false_iff :
    ranges.holds c = false ↔ ∀ range ∈ ranges, c.toNat < range.1 ∨ range.2 < c.toNat := by
  simp only [CodePointRanges.holds, List.any_eq_false, Bool.and_eq_true, decide_eq_true_eq, not_and,
    Nat.not_le]
  exact forall₂_congr fun range _ => by omega

/-- Where a form is not the character itself, spared ranges have neither of them. -/
theorem spared_cases (h : upperSpares ranges) (hd : d ∈ upperChar c) :
    (upperChar c = [c] ∧ d = c) ∨ (ranges.holds c = false ∧ ranges.holds d = false) := by
  simp only [upperSpares, List.all_eq_true, Bool.and_eq_true, Bool.or_eq_true, Nat.blt_eq] at h
  rcases mem_upperChar_cases hd with hself | ⟨e, he, hc, hform⟩ | ⟨run, hrun, hholds, hform⟩
  · exact .inl hself
  · have hout := fun range hrange => (h range hrange).2 e he
    right
    constructor
    · exact holds_eq_false_iff.mpr fun range hrange => hc ▸ hout range hrange _ List.mem_cons_self
    · exact holds_eq_false_iff.mpr fun range hrange =>
        hout range hrange _ (List.mem_cons_of_mem _ hform)
  · obtain ⟨hfirst, hlast, -⟩ := CaseRun.holds_iff.mp hholds
    have hout := fun range hrange => (h range hrange).1 run hrun
    right
    constructor
    all_goals
      refine holds_eq_false_iff.mpr fun range hrange => ?_
      have := hout range hrange
      simp only [CaseRun.high] at this
      omega

/-- A form lies in spared ranges exactly if its character does. -/
theorem holds_of_mem_upperChar (h : upperSpares ranges) (hd : d ∈ upperChar c) :
    ranges.holds d = ranges.holds c := by
  rcases spared_cases h hd with ⟨-, rfl⟩ | ⟨hc, hd⟩
  · rfl
  · rw [hc, hd]

/-- No character is lost. -/
theorem upperChar_ne_nil (c : Char) : upperChar c ≠ [] := by
  rw [upperChar]
  split
  next forms hlookup =>
    obtain ⟨_, _, hsplit, -⟩ := List.lookup_eq_some_iff.mp hlookup
    have hmem : (c.toNat, forms) ∈ upperExpansions := by
      rw [hsplit]
      exact List.mem_append_right _ List.mem_cons_self
    have hforms := List.all_eq_true.mp upperExpansions_nonempty _ hmem
    simpa using hforms
  next =>
    split
    all_goals exact List.cons_ne_nil _ _

/-- The characters of spared ranges are neither lost nor added. -/
theorem mem_upperChars_iff (h : upperSpares ranges) (hd : ranges.holds d = true) :
    d ∈ upperChars text ↔ d ∈ text := by
  have hself : ∀ {c d : Char}, d ∈ upperChar c → ranges.holds c = true →
      upperChar c = [c] ∧ d = c := by
    intro c d hd hc
    rcases spared_cases h hd with hself | ⟨hc', -⟩
    · exact hself
    · rw [hc] at hc'
      cases hc'
  rw [upperChars, List.mem_flatMap]
  constructor
  · rintro ⟨c, hc, hform⟩
    obtain ⟨-, rfl⟩ := hself hform ((holds_of_mem_upperChar h hform).symm.trans hd)
    exact hc
  · intro hmem
    obtain ⟨d', hd'⟩ := List.exists_mem_of_ne_nil _ (upperChar_ne_nil d)
    refine ⟨d, hmem, ?_⟩
    rw [(hself hd' hd).1]
    exact List.mem_singleton_self d

theorem colon_mem_upperChars_iff : ':' ∈ upperChars text ↔ ':' ∈ text :=
  mem_upperChars_iff colon_spared (by decide)

theorem newline_mem_upperChars_iff : '\n' ∈ upperChars text ↔ '\n' ∈ text :=
  mem_upperChars_iff blanks_spared (by decide)

theorem isBlank_of_mem_upperChar (hd : d ∈ upperChar c) : isBlank d = isBlank c :=
  holds_of_mem_upperChar blanks_spared hd

/-- Trimming and upper-casing can be done in either order. -/
theorem trim_upperChars (text : List Char) : trim (upperChars text) = upperChars (trim text) := by
  have hblank : ∀ {s : List Char}, (∀ c ∈ s, isBlank c = true) →
      ∀ d ∈ upperChars s, isBlank d = true := by
    intro s hs d hd
    obtain ⟨c, hc, hform⟩ := List.mem_flatMap.mp hd
    rw [isBlank_of_mem_upperChar hform, hs c hc]
  -- blanks stay blanks, and nothing else becomes one
  obtain ⟨a, b, htext, ha, hb, hstart, hend⟩ := exists_append_trim text
  conv_lhs => rw [htext, upperChars_append, upperChars_append]
  apply trim_eq_of_append (hblank ha) (hblank hb)
  · -- the first form is one of the first character
    cases htrim : trim text with
    | nil => exact startsOutside_nil
    | cons c rest =>
      rw [htrim, startsOutside_cons_iff] at hstart
      obtain ⟨d, forms, hforms⟩ := List.exists_cons_of_ne_nil (upperChar_ne_nil c)
      have hd : isBlank d = false := by
        rw [isBlank_of_mem_upperChar (hforms ▸ List.mem_cons_self), hstart]
      rw [upperChars, List.flatMap_cons, hforms]
      exact startsOutside_cons_iff.mpr hd
  · -- the last form is one of the last character
    rcases List.eq_nil_or_concat' (trim text) with htrim | ⟨rest, c, htrim⟩
    · rw [htrim]
      exact endsOutside_nil
    · rw [htrim, endsOutside_concat_iff] at hend
      rw [htrim, upperChars_append]
      apply EndsOutside.append_of_forall
      · simpa [upperChars] using upperChar_ne_nil c
      · intro d hd
        rw [isBlank_of_mem_upperChar (by simpa [upperChars] using hd), hend]

end

end GrammarLayers
