import GrammarLayers.Proofs.Fragment.Capture

/-!
# The text before and behind a cursor

What is done with a cursor is to look at the next token, to take it, to take it if it satisfies
some condition, and to move up to a place. A cursor stands between two parts of a text: the first
one has been taken, and the tokens of the second one are still before it, whether one of them has
been looked at, is what is left of a split one, or none has been read yet. Every operation keeps
this, as long as the cursor moves to no other places than ones where a signature starts or ends,
because there no comment marker is split.

## Main definitions

* `Cursor.Operation`, `Cursor.Operation.runAll` — what is done with a cursor
* `Cursor.splitToken?` — the token that is split on the way to a place
* `Cursor.HasTaken` — the part of a text that a cursor has taken, and the tokens before it
* `Cursor.IsBoundary` — a place where a signature starts or ends
* `Cursor.Reaches` — moving up to a place, and what is split there

## Main results

* `StandsAt.splitToken?_eq_some` — a token that is split is one of the text behind the cursor
* `HasTaken.takeTo` — moving up to where a signature starts or ends
* `HasTaken.run` — what one operation keeps
-/

namespace GrammarLayers

namespace Cursor

/-! ### Operations -/

/-- Something that is done with a cursor. -/
inductive Operation where
  | peek
  | next
  | nextIf (p : Token → Bool)
  | takeTo (target : Nat)

namespace Operation

/-- The text that an operation takes, and the cursor after it. A token that does not satisfy the
condition has been looked at. -/
def run (c : Cursor) : Operation → List Char × Cursor
  | peek => ([], c.peek.2)
  | next =>
    match c.next? with
    | some (token, c') => (token.text, c')
    | none => ([], c)
  | nextIf p =>
    match c.nextIf? p with
    | some (token, c') => (token.text, c')
    | none => ([], c.peek.2)
  | takeTo target => c.takeTo target

/-- The text that operations take, one after another, and the cursor after them. -/
def runAll (c : Cursor) : List Operation → List Char × Cursor
  | [] => ([], c)
  | op :: ops => ((op.run c).1 ++ (runAll (op.run c).2 ops).1, (runAll (op.run c).2 ops).2)

/-- The place that an operation moves to. -/
def target? : Operation → Option Nat
  | takeTo target => some target
  | _ => none

end Operation

/-- The token that is split on the way to `target`, if there is one. -/
def splitToken? (target : Nat) (c : Cursor) : Option Token :=
  if c.offset < target then
    match _h : c.next? with
    | none => none
    | some (token, c') => if target < token.stop then some token else splitToken? target c'
  else none
termination_by c.unread.length
decreasing_by exact length_unread_next? _h

end Cursor

/-! ### Places where no marker is split -/

/-- A token that reaches over a place where no marker does is ordinary text, and the place lies
between two of its characters. -/
theorem Lexeme.exists_of_inside {kind : Token.Kind} {w x y a b : List Char} (h : Lexeme kind w y)
    (happend : x ++ (w ++ y) = a ++ b) (hlt : byteSize x < byteSize a)
    (hstop : byteSize a < byteSize (x ++ w))
    (hcut : ∀ e ∈ a.getLast?, ∀ d ∈ b.head?, Token.Kind.ofPair? e d = none) :
    kind = .text ∧ ∃ u v, w = u ++ v ∧ u ≠ [] ∧ v ≠ [] ∧ a = x ++ u := by
  -- `a` ends inside of `w`, after its part `u`
  obtain ⟨u, rfl, hrest⟩ := exists_append_of_byteSize_le happend (Nat.le_of_lt hlt)
  rw [← List.append_assoc x w y] at happend
  obtain ⟨v, hw, rfl⟩ := exists_append_of_byteSize_le happend.symm (Nat.le_of_lt hstop)
  rw [List.append_assoc, List.append_cancel_left_eq] at hw
  subst hw
  have hu : u ≠ [] := by
    rintro rfl
    rw [List.append_nil] at hlt
    exact Nat.lt_irrefl _ hlt
  have hv : v ≠ [] := by
    rintro rfl
    rw [List.append_nil] at hstop
    exact Nat.lt_irrefl _ hstop
  -- only ordinary text can be cut where the characters on both sides make no marker
  refine ⟨(h.of_cut hu hv fun e he d hd => ?_).1, u, v, rfl, hu, hv, rfl⟩
  refine hcut e (List.mem_getLast?_append_of_mem_getLast? he) d ?_
  rw [List.head?_append, Option.mem_def.mp hd]
  rfl

namespace Cursor

/-- The cursor has taken this part of a text, which ends at its offset. The tokens that it has not
taken yet are those of the rest of the text, as far on as the offset says. -/
def HasTaken (source taken : List Char) (c : Cursor) : Prop :=
  ∃ rest, source = taken ++ rest ∧ c.offset = byteSize taken ∧ c.offset ≤ byteSize source ∧
    c.pending.toList ++ c.upcoming = (tokensOf rest).map (Token.shift c.offset)

/-- A place where a signature of the text starts or ends. -/
def IsBoundary (source : List Char) (target : Nat) : Prop :=
  ∃ sig ∈ Signature.findAll source, target = sig.span.start ∨ target = sig.span.stop

/-- From one cursor to the other, `target` is reached. If a token is split there, then it is
ordinary text, and `target` lies between two of its characters; its second part is pending. -/
structure Reaches (target : Nat) (c c' : Cursor) : Prop where
  offset_eq : c'.offset = target
  split : ∀ t, c.splitToken? target = some t → ∃ u v, t.kind = .text ∧ t.text = u ++ v ∧
    u ≠ [] ∧ v ≠ [] ∧ t.offset ≤ target ∧ splitAtByte (target - t.offset) t.text = (u, v) ∧
    c'.pending = some ⟨.text, v, target⟩

variable {source taken before rest : List Char} {c c' : Cursor} {target : Nat} {t : Token}

theorem hasTaken_iff :
    c.HasTaken source taken ↔ ∃ rest, source = taken ++ rest ∧ c.StandsAt taken rest := by
  have hshift : ∀ rest, Token.scan (byteSize taken) rest =
      (tokensOf rest).map (Token.shift (byteSize taken)) :=
    fun rest => Token.scan_add (byteSize taken) 0 rest
  constructor
  · rintro ⟨rest, hsource, hoffset, -, hunread⟩
    refine ⟨rest, hsource, hoffset, ?_⟩
    rw [unread, hunread, hshift, hoffset]
  · rintro ⟨rest, rfl, hoffset, hunread⟩
    refine ⟨rest, rfl, hoffset, ?_, ?_⟩
    · rw [hoffset, byteSize_append]
      exact Nat.le_add_right _ _
    · rw [hoffset, ← hshift, ← hunread]
      rfl

/-- No marker reaches over a place where a signature starts or ends. -/
theorem IsBoundary.exists_append (h : IsBoundary source target) :
    ∃ a b, source = a ++ b ∧ byteSize a = target ∧
      ∀ x ∈ a.getLast?, ∀ y ∈ b.head?, Token.Kind.ofPair? x y = none := by
  obtain ⟨sig, hsig, htarget⟩ := h
  obtain ⟨start, m, hsource, hform, -, rfl⟩ := Signature.mem_findAll_iff.mp hsig
  rcases htarget with rfl | rfl
  · exact ⟨start, m.text ++ m.rest, hsource, rfl, fun x _ y hy => hform.ofPair?_start hy x⟩
  · refine ⟨start ++ m.text, m.rest, by rw [hsource, List.append_assoc], rfl, ?_⟩
    intro x hx y _
    rw [List.getLast?_append_of_ne_nil _ hform.text_ne_nil] at hx
    exact hform.ofPair?_stop hx y

/-- A token that is split is one of the text that has not been taken, and the place lies inside of
it. -/
theorem StandsAt.splitToken?_eq_some (h : c.StandsAt before rest)
    (hsplit : c.splitToken? target = some t) :
    ∃ x y, rest = x ++ (t.text ++ y) ∧ Lexeme t.kind t.text y ∧ t.offset = byteSize (before ++ x) ∧
      t.offset < target ∧ target < t.stop := by
  -- the induction goes over the tokens that are left, as `splitToken?` does
  induction rest using induction_on_lexemes generalizing c before with
  | nil =>
    have hnone := next?_of_unread_eq_nil (c := c) h.unread_eq
    rw [splitToken?] at hsplit
    split at hsplit
    next =>
      split at hsplit
      next => cases hsplit
      next hsome => simp [hnone] at hsome
    next => cases hsplit
  | lexeme kind w rest hlex ih =>
    have hnext := h.next?_eq hlex
    rw [splitToken?] at hsplit
    split at hsplit
    next hlt =>
      split at hsplit
      next hnone => simp [hnext] at hnone
      next t' c' hsome =>
        obtain ⟨rfl, rfl⟩ := Prod.mk.inj (Option.some.inj (hnext.symm.trans hsome))
        split at hsplit
        next hstop =>
          obtain rfl := Option.some.inj hsplit
          rw [h.offset_eq] at hlt
          exact ⟨[], rest, rfl, hlex, by rw [List.append_nil], hlt, hstop⟩
        next =>
          obtain ⟨x, y, rfl, hlex', hoffset, hinside⟩ :=
            ih (standsAt_between (before ++ w) rest) hsplit
          exact ⟨w ++ x, y, by rw [List.append_assoc], hlex',
            by rw [hoffset, List.append_assoc], hinside⟩
    next => cases hsplit

theorem pending_takeTo (hsplit : c.splitToken? target = some t) :
    (c.takeTo target).2.pending =
      some ⟨t.kind, (splitAtByte (target - t.offset) t.text).2, target⟩ := by
  fun_induction splitToken? target c with
  | case1 => cases hsplit
  | case2 c hlt t' c' hnext hstop =>
    obtain rfl := Option.some.inj hsplit
    rw [takeTo_of_next? hlt hnext, if_pos hstop]
  | case3 c hlt t' c' hnext hstop ih =>
    rw [takeTo_of_next? hlt hnext, if_neg hstop]
    exact ih hsplit
  | case4 => cases hsplit

/-- Moving up to where a signature starts or ends. -/
theorem HasTaken.takeTo (h : c.HasTaken source taken) (hle : c.offset ≤ target)
    (hboundary : IsBoundary source target) :
    (c.takeTo target).2.HasTaken source (taken ++ (c.takeTo target).1) ∧
      c.Reaches target (c.takeTo target).2 := by
  obtain ⟨rest, rfl, hstands⟩ := hasTaken_iff.mp h
  obtain ⟨a, b, hsource, rfl, hcut⟩ := hboundary.exists_append
  rw [hstands.offset_eq] at hle
  obtain ⟨e, rfl, rfl⟩ := exists_append_of_byteSize_le hsource hle
  have hcut' : ∀ x ∈ e.getLast?, ∀ y ∈ b.head?, Token.Kind.ofPair? x y = none := fun x hx =>
    hcut x (List.mem_getLast?_append_of_mem_getLast? hx)
  obtain ⟨c', htake, hstands'⟩ := hstands.takeTo_eq hcut'
  rw [htake]
  refine ⟨hasTaken_iff.mpr ⟨b, by rw [List.append_assoc], hstands'⟩, hstands'.offset_eq, ?_⟩
  -- a token that is split reaches over the place, and so it is none of the markers
  intro t hsplit
  have hpending := pending_takeTo hsplit
  obtain ⟨x, y, hrest, hlex, hoffset, hlt, hstop⟩ := hstands.splitToken?_eq_some hsplit
  rw [hoffset] at hlt
  rw [Token.stop, hoffset, ← byteSize_append] at hstop
  have happend : (taken ++ x) ++ (t.text ++ y) = (taken ++ e) ++ b := by
    rw [List.append_assoc, ← hrest, List.append_assoc]
  obtain ⟨hkind, u, v, htext, hu, hv, hbefore⟩ := hlex.exists_of_inside happend hlt hstop hcut
  have hsize : byteSize (taken ++ e) - t.offset = byteSize u := by
    rw [hbefore, byteSize_append (taken ++ x), hoffset, Nat.add_sub_cancel_left]
  have hsplitAt : splitAtByte (byteSize (taken ++ e) - t.offset) t.text = (u, v) := by
    rw [hsize, htext, splitAtByte_append]
  rw [htake, hkind, hsplitAt] at hpending
  exact ⟨u, v, hkind, htext, hu, hv, hoffset ▸ Nat.le_of_lt hlt, hsplitAt, hpending⟩

/-- An operation that moves to no place takes nothing or the next token. -/
theorem StandsAt.run (h : c.StandsAt before rest) {op : Operation} (hop : op.target? = none) :
    ∃ rest', rest = (op.run c).1 ++ rest' ∧
      (op.run c).2.StandsAt (before ++ (op.run c).1) rest' := by
  -- a token that is only looked at is still left
  have hpeek : ∃ rest', rest = [] ++ rest' ∧ c.peek.2.StandsAt (before ++ []) rest' :=
    ⟨rest, rfl, by rw [List.append_nil]; exact h.peek⟩
  cases op with
  | peek => exact hpeek
  | next =>
    by_cases hrest : rest = []
    · subst hrest
      rw [Operation.run, next?_of_unread_eq_nil h.unread_eq]
      exact ⟨[], rfl, by rwa [List.append_nil]⟩
    · obtain ⟨kind, w, rest', rfl, hlex⟩ := Lexeme.exists_of_ne_nil hrest
      rw [Operation.run, h.next?_eq hlex]
      exact ⟨rest', rfl, standsAt_between _ _⟩
  | nextIf p =>
    by_cases hrest : rest = []
    · subst hrest
      rw [Operation.run, nextIf?_of_unread_eq_nil h.unread_eq]
      exact hpeek
    · obtain ⟨kind, w, rest', rfl, hlex⟩ := Lexeme.exists_of_ne_nil hrest
      rw [Operation.run, h.nextIf?_eq hlex]
      split_ifs
      · exact ⟨rest', rfl, standsAt_between _ _⟩
      · exact hpeek
  | takeTo target => cases hop

/-- What one operation keeps, if it moves at most to a place ahead where a signature starts or
ends. -/
theorem HasTaken.run (h : c.HasTaken source taken) (op : Operation)
    (hop : ∀ target, op.target? = some target → c.offset ≤ target ∧ IsBoundary source target) :
    (op.run c).2.HasTaken source (taken ++ (op.run c).1) ∧
      c.offset ≤ (op.run c).2.offset ∧
      ∀ target, op.target? = some target → c.Reaches target (op.run c).2 := by
  cases htarget : op.target? with
  | none =>
    obtain ⟨rest, rfl, hstands⟩ := hasTaken_iff.mp h
    obtain ⟨rest', hrest, hstands'⟩ := hstands.run htarget
    refine ⟨hasTaken_iff.mpr ⟨rest', by rw [List.append_assoc, ← hrest], hstands'⟩, ?_, ?_⟩
    · rw [hstands.offset_eq, hstands'.offset_eq, byteSize_append]
      exact Nat.le_add_right _ _
    · rintro _ ⟨⟩
  | some target =>
    obtain ⟨hle, hboundary⟩ := hop target htarget
    -- this is the only operation with a target
    obtain rfl : op = .takeTo target := by
      cases op <;> cases htarget
      rfl
    obtain ⟨htaken, hreaches⟩ := h.takeTo hle hboundary
    refine ⟨htaken, hle.trans_eq hreaches.offset_eq.symm, ?_⟩
    rintro _ ⟨⟩
    exact hreaches

@[simp] theorem Operation.runAll_append (c : Cursor) (ops ops' : List Operation) :
    runAll c (ops ++ ops') =
      ((runAll c ops).1 ++ (runAll (runAll c ops).2 ops').1, (runAll (runAll c ops).2 ops').2) := by
  induction ops generalizing c with
  | nil => rfl
  | cons op ops ih => simp [runAll, ih, List.append_assoc]

end Cursor

end GrammarLayers
