import GrammarLayers.Proofs.Merge.History
import GrammarLayers.Render.Json

/-!
# Reading JSON objects of texts

A JSON document that is an object whose members are texts can be read by itself. Blanks may stand
between its parts, a character of a text may stand for itself or be escaped in any of the ways that
JSON knows, and a character beyond the basic plane may be given by two halves. The JSON form of a
grammar is such a document, and what is read from it are the names of the grammar with their texts,
so that two grammars have the same JSON form only if the same names have the same texts in them.

## Main definitions

* `Json.escape?` — the character that an escape stands for
* `Json.text?` — a text between quotes
* `Json.object?` — the members of a document that is an object of texts

## Main results

* `Json.characters?_jsonChar` — every character is read back, whichever way it is written
* `Json.text?_jsonString` — every text is read back
* `Json.object?_jsonObject` — every object of texts is read back
* `Grammar.toJson_reads_back` — the JSON form of a grammar
-/

namespace GrammarLayers

namespace Json

/-! ### A reader of JSON -/

/-- The value of a hexadecimal digit. -/
def hexValue? (c : Char) : Option Nat :=
  if '0' ≤ c ∧ c ≤ '9' then some (c.toNat - '0'.toNat)
  else if 'a' ≤ c ∧ c ≤ 'f' then some (c.toNat - 'a'.toNat + 10)
  else if 'A' ≤ c ∧ c ≤ 'F' then some (c.toNat - 'A'.toNat + 10)
  else none

/-- Reads a code unit, which is given by four hexadecimal digits. -/
def codeUnit? : List Char → Option (Nat × List Char)
  | a :: b :: c :: d :: rest => do
    let a ← hexValue? a
    let b ← hexValue? b
    let c ← hexValue? c
    let d ← hexValue? d
    return (((a * 16 + b) * 16 + c) * 16 + d, rest)
  | _ => none

/-- Reads the second half of a character beyond the basic plane. -/
def lowHalf? : List Char → Option (Nat × List Char)
  | '\\' :: 'u' :: s =>
    match codeUnit? s with
    | some (unit, rest) =>
      if 0xdc00 ≤ unit ∧ unit ≤ 0xdfff then some (unit - 0xdc00, rest) else none
    | none => none
  | _ => none

/-- Reads the character that is given by a code unit, or by two halves. No half stands alone. -/
def codeUnits? (s : List Char) : Option (Char × List Char) :=
  match codeUnit? s with
  | none => none
  | some (unit, rest) =>
    -- code units between these are halves, first ones before second ones
    if unit < 0xd800 ∨ 0xdfff < unit then some (Char.ofNat unit, rest)
    else if unit < 0xdc00 then
      match lowHalf? rest with
      | some (low, rest) => some (Char.ofNat (0x10000 + (unit - 0xd800) * 0x400 + low), rest)
      | none => none
    else none

/-- The character that a short escape stands for. -/
def shortEscape? (c : Char) : Option Char :=
  match c with
  | '\x22' => some '\x22'
  | '\\' => some '\\'
  | '/' => some '/'
  | 'b' => some '\x08'
  | 'f' => some '\x0c'
  | 'n' => some '\n'
  | 'r' => some '\r'
  | 't' => some '\t'
  | _ => none

/-- Reads what follows the backslash of an escape. -/
def escape? : List Char → Option (Char × List Char)
  | [] => none
  | c :: rest => if c = 'u' then codeUnits? rest else (shortEscape? c).map fun d => (d, rest)

theorem codeUnit?_length {s rest : List Char} {unit : Nat} (h : codeUnit? s = some (unit, rest)) :
    rest.length < s.length := by
  unfold codeUnit? at h
  split at h
  · simp only [Option.bind_eq_bind, Option.bind_eq_some_iff, Option.pure_def, Option.some.injEq,
      Prod.mk.injEq] at h
    obtain ⟨-, -, -, -, -, -, -, -, -, rfl⟩ := h
    simp
    omega
  · cases h

theorem lowHalf?_length {s rest : List Char} {low : Nat} (h : lowHalf? s = some (low, rest)) :
    rest.length < s.length := by
  unfold lowHalf? at h
  split at h
  · split at h
    · next hunit =>
      split at h
      · obtain ⟨-, rfl⟩ := Prod.mk.inj (Option.some.inj h)
        have := codeUnit?_length hunit
        simp only [List.length_cons]
        omega
      · cases h
    · cases h
  · cases h

theorem codeUnits?_length {s rest : List Char} {c : Char} (h : codeUnits? s = some (c, rest)) :
    rest.length < s.length := by
  unfold codeUnits? at h
  split at h
  · cases h
  · next hunit =>
    have hlt := codeUnit?_length hunit
    split at h
    · obtain ⟨-, rfl⟩ := Prod.mk.inj (Option.some.inj h)
      exact hlt
    · split at h
      · split at h
        · next hlow =>
          obtain ⟨-, rfl⟩ := Prod.mk.inj (Option.some.inj h)
          exact (lowHalf?_length hlow).trans hlt
        · cases h
      · cases h

theorem escape?_length {s rest : List Char} {c : Char} (h : escape? s = some (c, rest)) :
    rest.length < s.length := by
  cases s with
  | nil => cases h
  | cons d s =>
    rw [escape?] at h
    split at h
    · exact (codeUnits?_length h).trans (Nat.lt_succ_self _)
    · obtain ⟨e, -, heq⟩ := Option.map_eq_some_iff.mp h
      obtain ⟨-, rfl⟩ := Prod.mk.inj heq
      exact Nat.lt_succ_self _

/-- Reads the characters of a text up to the quote that ends it. Controls have to be escaped. -/
def characters? : List Char → Option (List Char × List Char)
  | [] => none
  | c :: s =>
    if c = '\x22' then some ([], s)
    else if c = '\\' then
      match _h : escape? s with
      | none => none
      | some (d, rest) => (characters? rest).map (Prod.map (d :: ·) id)
    else if c.toNat < 0x20 then none
    else (characters? s).map (Prod.map (c :: ·) id)
termination_by s => s.length
decreasing_by
  · exact (escape?_length _h).trans (Nat.lt_succ_self _)
  · exact Nat.lt_succ_self _

/-- Reads a text between quotes. -/
def text? : List Char → Option (List Char × List Char)
  | [] => none
  | c :: s => if c = '\x22' then characters? s else none

/-- A blank that may stand between the parts of a document. -/
def isBlank (c : Char) : Bool := c == ' ' || c == '\t' || c == '\n' || c == '\r'

/-- Reads a character, after any blanks. -/
def expect? (c : Char) (s : List Char) : Option (List Char) :=
  match s.dropWhile isBlank with
  | d :: rest => if d = c then some rest else none
  | [] => none

/-- Reads a member of an object: a name, a colon and a text. -/
def member? (s : List Char) : Option ((String × String) × List Char) := do
  let (key, s) ← text? (s.dropWhile isBlank)
  let s ← expect? ':' s
  let (value, s) ← text? (s.dropWhile isBlank)
  return ((String.ofList key, String.ofList value), s)

theorem characters?_length {s text rest : List Char} (h : characters? s = some (text, rest)) :
    rest.length < s.length := by
  fun_induction characters? s generalizing text with
  | case1 | case3 | case5 => cases h
  | case2 s =>
    obtain ⟨-, rfl⟩ := Prod.mk.inj (Option.some.inj h)
    exact Nat.lt_succ_self _
  | case4 s d rest' hescape _ ih =>
    obtain ⟨⟨tail, _⟩, htail, heq⟩ := Option.map_eq_some_iff.mp h
    obtain ⟨-, rfl⟩ := Prod.mk.inj heq
    exact (ih htail).trans ((escape?_length hescape).trans (Nat.lt_succ_self _))
  | case6 c s _ _ _ ih =>
    obtain ⟨⟨tail, _⟩, htail, heq⟩ := Option.map_eq_some_iff.mp h
    obtain ⟨-, rfl⟩ := Prod.mk.inj heq
    exact (ih htail).trans (Nat.lt_succ_self _)

theorem text?_length {s text rest : List Char} (h : text? s = some (text, rest)) :
    rest.length < s.length := by
  cases s with
  | nil => cases h
  | cons c s =>
    rw [text?] at h
    split at h
    · exact (characters?_length h).trans (Nat.lt_succ_self _)
    · cases h

theorem expect?_length {c : Char} {s rest : List Char} (h : expect? c s = some rest) :
    rest.length < s.length := by
  have hle := (List.dropWhile_suffix (l := s) isBlank).length_le
  unfold expect? at h
  split at h
  · next hdrop =>
    split at h
    · obtain rfl := Option.some.inj h
      rw [hdrop] at hle
      exact hle
    · cases h
  · cases h

theorem member?_length {s rest : List Char} {member : String × String}
    (h : member? s = some (member, rest)) : rest.length < s.length := by
  simp only [member?, Option.bind_eq_bind, Option.bind_eq_some_iff, Option.pure_def,
    Option.some.injEq, Prod.exists, Prod.mk.injEq] at h
  obtain ⟨key, s₁, hkey, s₂, hcolon, value, s₃, hvalue, -, rfl⟩ := h
  have hkey := text?_length hkey
  have hcolon := expect?_length hcolon
  have hvalue := text?_length hvalue
  have hblanks := (List.dropWhile_suffix (l := s) isBlank).length_le
  have hblanks' := (List.dropWhile_suffix (l := s₂) isBlank).length_le
  omega

/-- Reads members with commas between them, and the brace after them. -/
def members? (s : List Char) : Option (List (String × String) × List Char) :=
  match _h : member? s with
  | none => none
  | some (member, rest) =>
    match _h' : expect? ',' rest with
    | some rest' => (members? rest').map (Prod.map (member :: ·) id)
    | none => (expect? '\x7d' rest).map fun rest' => ([member], rest')
termination_by s.length
decreasing_by exact (expect?_length _h').trans (member?_length _h)

/-- Reads a document that is an object whose members are texts. -/
def object? (s : List Char) : Option (List (String × String)) := do
  let s ← expect? '\x7b' s
  let (members, s) ←
    -- no comma stands before the brace, so that it comes at once or after a member
    match expect? '\x7d' s with
    | some s => some ([], s)
    | none => members? s
  if s.all isBlank then some members else none

/-! ### Characters and texts -/

variable {c d : Char} {s rest blanks : List Char}

theorem characters?_escape (h : escape? s = some (c, rest)) :
    characters? ('\\' :: s) = (characters? rest).map (Prod.map (c :: ·) id) := by
  rw [characters?, if_neg (by decide), if_pos rfl]
  split
  · next hnone => simp [h] at hnone
  · next hsome =>
    obtain ⟨rfl, rfl⟩ := Prod.mk.inj (Option.some.inj (h.symm.trans hsome))
    rfl

theorem characters?_plain (hquote : c ≠ '\x22') (hbackslash : c ≠ '\\')
    (hcontrol : ¬ c.toNat < 0x20) :
    characters? (c :: s) = (characters? s).map (Prod.map (c :: ·) id) := by
  rw [characters?, if_neg hquote, if_neg hbackslash, if_neg hcontrol]

theorem codeUnit?_append {unit : Nat} (h : codeUnit? s = some (unit, [])) :
    codeUnit? (s ++ rest) = some (unit, rest) := by
  unfold codeUnit? at h
  split at h
  · simp only [Option.bind_eq_bind, Option.bind_eq_some_iff, Option.pure_def, Option.some.injEq,
      Prod.mk.injEq] at h
    obtain ⟨a, ha, b, hb, c, hc, d, hd, rfl, rfl⟩ := h
    simp [codeUnit?, ha, hb, hc, hd]
  · cases h

/-- The digits that the JSON form gives controls by. -/
theorem codeUnit?_control :
    (∀ n < 0x10, codeUnit? (['0', '0', '0'] ++ hexDigits n) = some (n, [])) ∧
      ∀ n < 0x20, 0x10 ≤ n → codeUnit? (['0', '0'] ++ hexDigits n) = some (n, []) := by
  decide

theorem escape?_of_codeUnit? (h : codeUnit? s = some (c.toNat, [])) :
    escape? ('u' :: (s ++ rest)) = some (c, rest) := by
  have hvalid : c.toNat < 0xd800 ∨ 0xdfff < c.toNat := by
    have hchar : c.toNat < 0xd800 ∨ 0xdfff < c.toNat ∧ c.toNat < 0x110000 := c.valid
    exact hchar.imp_right And.left
  rw [escape?, if_pos rfl, codeUnits?, codeUnit?_append h]
  simp only [if_pos hvalid, Char.ofNat_toNat]

/-- Every character is read back, whichever way it is written. -/
theorem characters?_jsonChar (c : Char) (rest : List Char) :
    characters? (jsonChar c ++ rest) = (characters? rest).map (Prod.map (c :: ·) id) := by
  unfold jsonChar
  split_ifs with hquote hbackslash hbackspace hfeed hnewline hreturn htab hdigit hcontrol
  -- the quote, the backslash and five controls have short escapes
  · subst hquote
    exact characters?_escape rfl
  · subst hbackslash
    exact characters?_escape rfl
  · subst hbackspace
    exact characters?_escape rfl
  · subst hfeed
    exact characters?_escape rfl
  · subst hnewline
    exact characters?_escape rfl
  · subst hreturn
    exact characters?_escape rfl
  · subst htab
    exact characters?_escape rfl
  -- the other controls have four digits
  · exact characters?_escape (escape?_of_codeUnit? (codeUnit?_control.1 c.toNat hdigit))
  · exact characters?_escape
      (escape?_of_codeUnit? (codeUnit?_control.2 c.toNat hcontrol (Nat.not_lt.mp hdigit)))
  · exact characters?_plain hquote hbackslash hcontrol

/-- Every text is read back. -/
theorem text?_jsonString (text rest : List Char) :
    text? (jsonString text ++ rest) = some (text, rest) := by
  have hchars : characters? (text.flatMap jsonChar ++ '\x22' :: rest) = some (text, rest) := by
    induction text with
    | nil => rw [List.flatMap_nil, List.nil_append, characters?, if_pos rfl]
    | cons c text ih =>
      rw [List.flatMap_cons, List.append_assoc, characters?_jsonChar, ih]
      rfl
  rw [jsonString, List.cons_append, text?, if_pos rfl, List.append_assoc]
  exact hchars

/-! ### Objects -/

theorem dropWhile_isBlank (hblanks : ∀ e ∈ blanks, isBlank e) (hc : isBlank c = false) :
    (blanks ++ c :: s).dropWhile isBlank = c :: s := by
  rw [List.dropWhile_append_of_pos hblanks, List.dropWhile_cons_of_neg (by simp [hc])]

theorem expect?_eq_some (blanks : List Char) (hblanks : ∀ e ∈ blanks, isBlank e)
    (hc : isBlank c = false) :
    expect? c (blanks ++ c :: rest) = some rest := by
  rw [expect?, dropWhile_isBlank hblanks hc]
  exact if_pos rfl

theorem expect?_eq_none (hblanks : ∀ e ∈ blanks, isBlank e) (hd : isBlank d = false)
    (hne : d ≠ c) :
    expect? c (blanks ++ d :: rest) = none := by
  rw [expect?, dropWhile_isBlank hblanks hd]
  exact if_neg hne

/-- The line of a member. -/
def memberLine (member : String × String) : List Char :=
  [' ', ' '] ++ jsonString member.1.toList ++ [':', ' '] ++ jsonString member.2.toList

theorem dropWhile_isBlank_jsonString (blanks : List Char) (hblanks : ∀ e ∈ blanks, isBlank e)
    (text : List Char) :
    (blanks ++ (jsonString text ++ rest)).dropWhile isBlank = jsonString text ++ rest :=
  dropWhile_isBlank (c := '\x22') hblanks (by decide)

/-- A member is read back. -/
theorem member?_memberLine (member : String × String) (rest : List Char) :
    member? ('\n' :: (memberLine member ++ rest)) = some (member, rest) := by
  obtain ⟨key, value⟩ := member
  have hline : '\n' :: (memberLine (key, value) ++ rest) = ['\n', ' ', ' '] ++
      (jsonString key.toList ++ ([] ++ ':' :: ([' '] ++ (jsonString value.toList ++ rest)))) := by
    simp [memberLine]
  rw [hline, member?, dropWhile_isBlank_jsonString ['\n', ' ', ' '] (by simp [isBlank]),
    text?_jsonString]
  simp only [Option.bind_eq_bind, Option.bind_some]
  rw [expect?_eq_some [] (by simp) (by decide)]
  simp only [Option.bind_some]
  rw [dropWhile_isBlank_jsonString [' '] (by simp [isBlank]), text?_jsonString]
  simp

theorem members?_of_comma {member : String × String} (h : member? s = some (member, rest))
    (hcomma : expect? ',' rest = some blanks) :
    members? s = (members? blanks).map (Prod.map (member :: ·) id) := by
  rw [members?]
  split
  · next hnone => simp [h] at hnone
  · next hsome =>
    obtain ⟨rfl, rfl⟩ := Prod.mk.inj (Option.some.inj (h.symm.trans hsome))
    split
    · next hsome' =>
      obtain rfl := Option.some.inj (hcomma.symm.trans hsome')
      rfl
    · next hnone => simp [hcomma] at hnone

theorem members?_of_brace {member : String × String} (h : member? s = some (member, rest))
    (hcomma : expect? ',' rest = none) :
    members? s = (expect? '\x7d' rest).map fun rest' => ([member], rest') := by
  rw [members?]
  split
  · next hnone => simp [h] at hnone
  · next hsome =>
    obtain ⟨rfl, rfl⟩ := Prod.mk.inj (Option.some.inj (h.symm.trans hsome))
    split
    · next hsome' => simp [hcomma] at hsome'
    · rfl

/-- Members are read back, up to the brace. -/
theorem members?_memberLine (member : String × String) (members : List (String × String)) :
    members? ('\n' ::
      (List.intercalate [',', '\n'] ((member :: members).map memberLine) ++ ['\n', '\x7d'])) =
        some (member :: members, []) := by
  induction members generalizing member with
  | nil =>
    rw [List.map_cons, List.map_nil, List.intercalate_singleton,
      members?_of_brace (member?_memberLine _ _) (by decide)]
    rfl
  | cons next members ih =>
    have hcomma : ∀ s, expect? ',' ([',', '\n'] ++ s) = some ('\n' :: s) := fun s =>
      expect?_eq_some [] (by simp) (by decide)
    rw [List.map_cons, List.map_cons, List.intercalate_cons_cons, List.append_assoc,
      List.append_assoc, members?_of_comma (member?_memberLine _ _) (hcomma _), ← List.map_cons,
      ih next]
    rfl

/-- Every object of texts is read back. -/
theorem object?_jsonObject (members : List (String × String)) :
    object? (jsonObject members) = some members := by
  cases members with
  | nil => decide
  | cons member members =>
    have hlines : jsonObject (member :: members) = [] ++ '\x7b' :: ('\n' ::
        (List.intercalate [',', '\n'] ((member :: members).map memberLine) ++
          ['\n', '\x7d'])) := by
      rw [jsonObject, List.append_assoc]
      · rfl
      · simp
    -- a line starts with the quote of a name
    obtain ⟨tail, htail⟩ : ∃ tail, '\n' :: (List.intercalate [',', '\n']
        ((member :: members).map memberLine) ++ ['\n', '\x7d']) =
          ['\n', ' ', ' '] ++ '\x22' :: tail := by
      cases members with
      | nil => exact ⟨_, rfl⟩
      | cons next members =>
        rw [List.map_cons, List.map_cons, List.intercalate_cons_cons]
        exact ⟨_, rfl⟩
    have hbrace : expect? '\x7d' ('\n' :: (List.intercalate [',', '\n']
        ((member :: members).map memberLine) ++ ['\n', '\x7d'])) = none := by
      rw [htail]
      exact expect?_eq_none (by simp [isBlank]) (by decide) (by decide)
    rw [hlines, object?, expect?_eq_some [] (by simp) (by decide)]
    simp only [Option.bind_eq_bind, Option.bind_some, hbrace]
    rw [members?_memberLine]
    rfl

/-- Documents that are written in other ways are read as well. -/
example : object? "\x7b\t\x22a\\/\\u00e9\x22:\x22\\uD83D\\ude00\x22 \x7d ".toList =
    some [("a/\u00e9", .singleton (.ofNat 0x1f600))] := by
  decide +kernel

/-- Half of a character is no text. -/
example : object? "\x7b\x22a\x22: \x22\\ud83d\x22\x7d".toList = none := by
  decide +kernel

end Json

/-! ### Grammars -/

namespace Grammar

variable {g g' : Grammar}

/-- Two grammars with the same texts under the same names have them in the same order. -/
theorem WellIndexed.texts_eq_iff (h : g.WellIndexed) (h' : g'.WellIndexed) :
    g.texts = g'.texts ↔ ∀ name, g.text? name = g'.text? name := by
  constructor
  · intro htexts name
    apply Option.ext
    intro text
    rw [← h.mem_texts_iff, ← h'.mem_texts_iff, htexts]
  · intro htext
    refine h.texts_pairwise.eq_of_mem_iff h'.texts_pairwise ?_
    rintro ⟨name, text⟩
    rw [h.mem_texts_iff, h'.mem_texts_iff, htext]

/-- The JSON form of a grammar is an object of texts, whose members are the names with their
texts, each name once and in the order of their bytes. It does not matter to it how the grammar was
put together, but only which text each name has. -/
theorem toJson_reads_back (calls calls' : List Call) :
    let g := (Call.runAll empty calls).2
    let g' := (Call.runAll empty calls').2
    Json.object? g.toJson = some g.texts ∧
    (∀ name text, (name, text) ∈ g.texts ↔ g.text? name = some text) ∧
    (g.texts.Pairwise fun a b => nameBytes a.1 < nameBytes b.1) ∧
    (g.toJson = g'.toJson ↔ ∀ name, g.text? name = g'.text? name) := by
  intro g g'
  have hindexed : ∀ calls, (Call.runAll empty calls).2.WellIndexed := fun calls => by
    rw [Call.runAll_eq_insertAll]
    exact (wellIndexed_empty.insertAll _).1
  have hread : ∀ g : Grammar, Json.object? g.toJson = some g.texts := fun g =>
    Json.object?_jsonObject g.texts
  refine ⟨hread g, (hindexed calls).mem_texts_iff, (hindexed calls).texts_pairwise, ?_⟩
  rw [← (hindexed calls).texts_eq_iff (hindexed calls')]
  constructor
  · intro hjson
    exact Option.some.inj ((hread g).symm.trans (hjson ▸ hread g'))
  · exact congrArg jsonObject

end Grammar

end GrammarLayers
