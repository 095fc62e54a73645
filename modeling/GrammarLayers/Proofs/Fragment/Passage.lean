import GrammarLayers.Proofs.Fragment.Taking

/-!
# The way of a cursor through a text

While the productions of a text are read, one cursor moves through it. A passage keeps a record
of what is done with the cursor. The places that it is moved to are those where the signatures
start and end, in order, and so at every moment the cursor stands between the part of the text
that has been taken and the tokens of the rest.

## Main definitions

* `Passage`, `Passage.readAll` — reading the productions of a text, on record
* `Passage.Advances` — the cursor was moved to no other places than ones ahead of it where a
  signature starts or ends

## Main results

* `Passage.readAll_fst` — keeping a record changes nothing about what is read
* `Passage.Advances.hasTaken` — what the operations have taken, and what is left
* `Passage.Advances.readFrom` — reading productions keeps to such places
* `Passage.readAll_keeps` — where the cursor stands at any moment
-/

namespace GrammarLayers

/-! ### Reading on record -/

/-- A cursor on its way through a text, and what has been done with it so far. -/
structure Passage where
  cursor : Cursor
  operations : List Cursor.Operation

namespace Passage

/-- A passage that begins. -/
def ofText (text : List Char) : Passage := ⟨Cursor.ofText text, []⟩

/-- The passage after one more operation. -/
def perform (k : Passage) (op : Cursor.Operation) : Passage :=
  ⟨(op.run k.cursor).2, k.operations ++ [op]⟩

/-- Looks at the next token. -/
def peek (k : Passage) : Option Token × Passage := (k.cursor.peek.1, k.perform .peek)

/-- Takes the next token. -/
def next? (k : Passage) : Option Token × Passage :=
  (k.cursor.next?.map Prod.fst, k.perform .next)

/-- Takes the next token if it satisfies `p`. -/
def nextIf? (p : Token → Bool) (k : Passage) : Option Token × Passage :=
  ((k.cursor.nextIf? p).map Prod.fst, k.perform (.nextIf p))

/-- Takes everything before a place, and returns its text. -/
def takeTo (target : Nat) (k : Passage) : List Char × Passage :=
  ((k.cursor.takeTo target).1, k.perform (.takeTo target))

theorem nextIf?_eq_some {p : Token → Bool} {k k' : Passage} {token : Token}
    (h : k.nextIf? p = (some token, k')) : k.cursor.nextIf? p = some (token, k'.cursor) := by
  obtain ⟨hsome, rfl⟩ := Prod.mk.inj h
  obtain ⟨⟨token, c⟩, hnext, rfl⟩ := Option.map_eq_some_iff.mp hsome
  simp only [perform, Cursor.Operation.run, hnext]

theorem next?_eq_some {k k' : Passage} {token : Token} (h : k.next? = (some token, k')) :
    k.cursor.next? = some (token, k'.cursor) := by
  obtain ⟨hsome, rfl⟩ := Prod.mk.inj h
  obtain ⟨⟨token, c⟩, hnext, rfl⟩ := Option.map_eq_some_iff.mp hsome
  simp only [perform, Cursor.Operation.run, hnext]

/-- Takes blank tokens, and returns their text. -/
def skipBlanks (k : Passage) : List Char × Passage :=
  match _h : k.nextIf? Token.isBlank with
  | (some token, k') => (token.text ++ (skipBlanks k').1, (skipBlanks k').2)
  | (none, k') => ([], k')
termination_by k.cursor.unread.length
decreasing_by all_goals exact Cursor.length_unread_nextIf? (nextIf?_eq_some _h)

/-- Takes tokens up to the one that closes the tracked block, and returns their text; none if the
block does not close. -/
def takeBlock? (tracker : BlockTracker) (k : Passage) : Option (List Char) × Passage :=
  match _h : k.next? with
  | (none, k') => (none, k')
  | (some token, k') =>
    if (tracker.feed token).isClosed then (some token.text, k')
    else
      ((takeBlock? (tracker.feed token) k').1.map (token.text ++ ·),
        (takeBlock? (tracker.feed token) k').2)
termination_by k.cursor.unread.length
decreasing_by all_goals exact Cursor.length_unread_next? (next?_eq_some _h)

/-- Captures blanks and the block after them. -/
def readBlock (source : List Char) (name : String) (k : Passage) :
    Except TextFault (List Char) × Passage :=
  let (blanks, k) := k.skipBlanks
  match k.peek with
  | (none, k) =>
    (.error (.missingBlock name .endOfFile (Position.find source (byteSize source))), k)
  | (some token, k) =>
    if token.kind = .openBrace then
      match k.takeBlock? {} with
      | (some block, k) => (.ok (blanks ++ block), k)
      | (none, k) => (.error (.unclosedBlock name (Position.find source token.offset)), k)
    else
      (.error (.missingBlock name (.token token.text) (Position.find source token.offset)), k)

/-- Captures the production that a signature starts. -/
def read (source : List Char) (signature : Signature) (k : Passage) :
    Except TextFault Production × Passage :=
  let (_, k) := k.takeTo signature.span.start
  let (head, k) := k.takeTo signature.span.stop
  match readBlock source signature.name k with
  | (.error fault, k) => (.error fault, k)
  | (.ok initializer, k) =>
    match readBlock source signature.name k with
    | (.error fault, k) => (.error fault, k)
    | (.ok body, k) =>
      (.ok
        { name := signature.name
          kind := signature.kind
          text := String.ofList (head ++ initializer ++ body)
          span := ⟨signature.span.start, k.cursor.offset⟩ },
        k)

/-- Captures the productions that the signatures start, in order, passing over signatures that the
cursor is already beyond. -/
def readFrom (source : List Char) : List Signature → Passage →
    Except TextFault (List Production) × Passage
  | [], k => (.ok [], k)
  | signature :: rest, k =>
    if signature.span.start < k.cursor.offset then readFrom source rest k
    else
      match read source signature k with
      | (.error fault, k) => (.error fault, k)
      | (.ok production, k) =>
        ((readFrom source rest k).1.map (production :: ·), (readFrom source rest k).2)

/-- The productions of a fragment, in order, and what is done with the cursor to read them. -/
def readAll (source : List Char) : Except TextFault (List Production) × Passage :=
  readFrom source (Signature.findAll source) (ofText source)

end Passage

/-! ### Nothing changes on record -/

/-- Two cursors that differ at most in whether the next token has been looked at. -/
structure Cursor.IsAlike (c c' : Cursor) : Prop where
  unread_eq : c.unread = c'.unread
  offset_eq : c.offset = c'.offset

/-- What is read on record is what is read without one, and the cursors are alike then. -/
def Passage.Records {ε α : Type} (x : Except ε α × Passage) : Except ε (α × Cursor) → Prop
  | .error e => x.1 = .error e
  | .ok (a, c) => x.1 = .ok a ∧ c.IsAlike x.2.cursor

namespace Cursor

variable {c c' : Cursor} {k : Passage}

theorem IsAlike.refl (c : Cursor) : c.IsAlike c := ⟨rfl, rfl⟩

theorem isAlike_peek (h : c.IsAlike c') : c.IsAlike c'.peek.2 :=
  ⟨by rw [unread_peek, h.unread_eq], by rw [peek_snd_offset, h.offset_eq]⟩

theorem IsAlike.next?_eq (h : c.IsAlike c') : c.next? = c'.next? := by
  cases hunread : c.unread with
  | nil =>
    rw [next?_of_unread_eq_nil hunread, next?_of_unread_eq_nil (h.unread_eq ▸ hunread)]
  | cons t tokens =>
    rw [next?_of_unread_eq_cons hunread, next?_of_unread_eq_cons (h.unread_eq ▸ hunread)]

theorem IsAlike.nextIf?_eq (h : c.IsAlike c') (p : Token → Bool) : c.nextIf? p = c'.nextIf? p := by
  cases hunread : c.unread with
  | nil =>
    rw [nextIf?_of_unread_eq_nil hunread, nextIf?_of_unread_eq_nil (h.unread_eq ▸ hunread)]
  | cons t tokens =>
    rw [nextIf?_of_unread_eq_cons hunread, nextIf?_of_unread_eq_cons (h.unread_eq ▸ hunread)]

theorem takeTo_of_next?_eq_none (h : c.next? = none) (target : Nat) :
    c.takeTo target = ([], c) := by
  rw [Cursor.takeTo]
  split
  · split
    · rfl
    · next hsome => simp [h] at hsome
  · rfl

theorem takeBlock?_of_next?_eq_none {tracker : BlockTracker} (h : c.next? = none) :
    c.takeBlock? tracker = none := by
  rw [takeBlock?]
  split
  · rfl
  · next hsome => simp [h] at hsome

theorem takeBlock?_of_next? {tracker : BlockTracker} {t : Token} (h : c.next? = some (t, c')) :
    c.takeBlock? tracker =
      if (tracker.feed t).isClosed then some (t.text, c')
      else (c'.takeBlock? (tracker.feed t)).map fun next => (t.text ++ next.1, next.2) := by
  rw [takeBlock?]
  split
  · next hnone => simp [h] at hnone
  · next t' c'' hsome =>
    obtain ⟨rfl, rfl⟩ : t = t' ∧ c' = c'' := by simpa [h] using hsome
    split_ifs
    · rfl
    · cases c'.takeBlock? (tracker.feed t) <;> rfl

theorem IsAlike.takeTo (h : c.IsAlike c') (target : Nat) :
    (c.takeTo target).1 = (c'.takeTo target).1 ∧
      (c.takeTo target).2.IsAlike (c'.takeTo target).2 := by
  cases hnext : c.next? with
  | none =>
    rw [takeTo_of_next?_eq_none hnext, takeTo_of_next?_eq_none (h.next?_eq.symm.trans hnext)]
    exact ⟨rfl, h⟩
  | some next =>
    by_cases hlt : c.offset < target
    · rw [takeTo_of_next? hlt hnext,
        takeTo_of_next? (h.offset_eq ▸ hlt) (h.next?_eq.symm.trans hnext)]
      exact ⟨rfl, .refl _⟩
    · rw [Nat.not_lt] at hlt
      rw [takeTo_of_le hlt, takeTo_of_le (h.offset_eq ▸ hlt)]
      exact ⟨rfl, h⟩

end Cursor

namespace Passage

variable {source : List Char} {c : Cursor} {k : Passage}

theorem skipBlanks_records (h : c.IsAlike k.cursor) :
    c.skipBlanks.1 = k.skipBlanks.1 ∧ c.skipBlanks.2.IsAlike k.skipBlanks.2.cursor := by
  fun_induction skipBlanks k generalizing c with
  | case1 k token k' hnext ih =>
    have hnext' := (h.nextIf?_eq Token.isBlank).trans (nextIf?_eq_some hnext)
    obtain ⟨htext, halike⟩ := ih (Cursor.IsAlike.refl k'.cursor)
    rw [Cursor.skipBlanks_of_nextIf? hnext', htext]
    exact ⟨rfl, halike⟩
  | case2 k k' hnext =>
    obtain ⟨hnone, rfl⟩ := Prod.mk.inj hnext
    have hnext' := (h.nextIf?_eq Token.isBlank).trans (Option.map_eq_none_iff.mp hnone)
    rw [Cursor.skipBlanks_of_nextIf?_eq_none hnext']
    -- on record, the token that is no blank has been looked at
    refine ⟨rfl, ?_⟩
    simp only [perform, Cursor.Operation.run, Option.map_eq_none_iff.mp hnone]
    exact Cursor.isAlike_peek h

theorem takeBlock?_records (tracker : BlockTracker) (h : c.IsAlike k.cursor) :
    (k.takeBlock? tracker).1 = (c.takeBlock? tracker).map Prod.fst ∧
      ∀ block c', c.takeBlock? tracker = some (block, c') →
        c'.IsAlike (k.takeBlock? tracker).2.cursor := by
  fun_induction takeBlock? tracker k generalizing c with
  | case1 tracker k k' hnext =>
    obtain ⟨hnone, rfl⟩ := Prod.mk.inj hnext
    have hnext' := h.next?_eq.trans (Option.map_eq_none_iff.mp hnone)
    rw [Cursor.takeBlock?_of_next?_eq_none hnext']
    exact ⟨rfl, by rintro _ _ ⟨⟩⟩
  | case2 tracker k token k' hnext hclosed =>
    have hnext' := h.next?_eq.trans (next?_eq_some hnext)
    rw [Cursor.takeBlock?_of_next? hnext', if_pos hclosed]
    refine ⟨rfl, ?_⟩
    rintro _ _ ⟨⟩
    exact .refl _
  | case3 tracker k token k' hnext hclosed ih =>
    have hnext' := h.next?_eq.trans (next?_eq_some hnext)
    -- from here on the two cursors are the same
    obtain ⟨hblock, halike⟩ := ih (Cursor.IsAlike.refl k'.cursor)
    rw [Cursor.takeBlock?_of_next? hnext', if_neg hclosed, hblock]
    refine ⟨by rw [Option.map_map, Option.map_map]; rfl, ?_⟩
    intro block c' hsome
    obtain ⟨⟨tail, c''⟩, htail, hpair⟩ := Option.map_eq_some_iff.mp hsome
    obtain ⟨rfl, rfl⟩ := Prod.mk.inj hpair
    exact halike tail c'' htail

theorem peek_records (h : c.IsAlike k.cursor) :
    c.peek.1 = k.peek.1 ∧ c.peek.2.IsAlike k.peek.2.cursor := by
  refine ⟨?_, ⟨?_, ?_⟩⟩
  · rw [peek, Cursor.peek_fst, Cursor.peek_fst, h.unread_eq]
  · exact (Cursor.unread_peek c).trans (Cursor.isAlike_peek h).unread_eq
  · exact c.peek_snd_offset.trans (Cursor.isAlike_peek h).offset_eq

theorem readBlock_records (source : List Char) (name : String) (h : c.IsAlike k.cursor) :
    Records (k.readBlock source name) (Production.readBlock source name c) := by
  obtain ⟨hblanks, hskip⟩ := skipBlanks_records h
  obtain ⟨htoken, hpeek⟩ := peek_records hskip
  rw [Production.readBlock, readBlock]
  -- both readers are followed side by side
  rcases hk : k.skipBlanks with ⟨blanks, k₁⟩
  rcases hc : c.skipBlanks with ⟨blanks', c₁⟩
  rw [hk, hc] at hblanks htoken hpeek
  obtain rfl : blanks' = blanks := hblanks
  rcases hk' : k₁.peek with ⟨token?, k₂⟩
  rcases hc' : c₁.peek with ⟨token?', c₂⟩
  rw [hk', hc'] at htoken hpeek
  obtain rfl : token?' = token? := htoken
  simp only [hk', hc']
  cases token?' with
  | none => rfl
  | some token =>
    by_cases hopen : token.kind = .openBrace
    · obtain ⟨hblock, halike⟩ := takeBlock?_records {} hpeek
      simp only [if_pos hopen]
      rcases hk'' : k₂.takeBlock? {} with ⟨block?, k₃⟩
      rw [hk''] at hblock halike
      cases hc'' : c₂.takeBlock? {} with
      | none =>
        rw [hc''] at hblock
        obtain rfl : block? = none := hblock
        rfl
      | some next =>
        rw [hc''] at hblock
        obtain rfl : block? = some next.1 := hblock
        exact ⟨rfl, halike next.1 next.2 hc''⟩
    · simp only [if_neg hopen]
      rfl

/-- Reading on record and without one fail alike, or succeed alike. -/
theorem Records.cases {ε α : Type} {x : Except ε α × Passage} {y : Except ε (α × Cursor)}
    (h : Records x y) :
    (∃ e k, x = (.error e, k) ∧ y = .error e) ∨
      ∃ a k c, x = (.ok a, k) ∧ y = .ok (a, c) ∧ c.IsAlike k.cursor := by
  obtain ⟨result, k⟩ := x
  cases y with
  | error e => exact .inl ⟨e, k, Prod.ext h rfl, rfl⟩
  | ok next => exact .inr ⟨next.1, k, next.2, Prod.ext h.1 rfl, rfl, h.2⟩

theorem read_records (source : List Char) (signature : Signature) (h : c.IsAlike k.cursor) :
    Records (k.read source signature) (Production.read source signature c) := by
  obtain ⟨-, hstart⟩ := h.takeTo signature.span.start
  obtain ⟨hhead, hstop⟩ := hstart.takeTo signature.span.stop
  rw [Production.read, read]
  simp only [takeTo, perform, Cursor.Operation.run]
  have hinitializer := readBlock_records source signature.name
    (k := ⟨_, k.operations ++ [.takeTo signature.span.start] ++ [.takeTo signature.span.stop]⟩)
    hstop
  -- the initializer
  rcases hinitializer.cases with ⟨fault, k₁, hk, hc⟩ | ⟨initializer, k₁, c₁, hk, hc, halike⟩
  · rw [hk, hc]
    rfl
  rw [hk, hc]
  change Records _ (Production.readBlock source signature.name c₁ >>= _)
  -- the body
  dsimp only
  rcases (readBlock_records source signature.name halike).cases with
    ⟨fault, k₂, hk', hc'⟩ | ⟨body, k₂, c₂, hk', hc', halike'⟩
  · rw [hk', hc']
    rfl
  · rw [hk', hc']
    refine ⟨?_, halike'⟩
    simp only [hhead, halike'.offset_eq]

theorem readFrom_fst (sigs : List Signature) (h : c.IsAlike k.cursor) :
    (readFrom source sigs k).1 = Production.readFrom source sigs c := by
  induction sigs generalizing c k with
  | nil => rfl
  | cons signature rest ih =>
    rw [readFrom, Production.readFrom, h.offset_eq]
    split
    · exact ih h
    · rcases (read_records source signature h).cases with
        ⟨fault, k₁, hk, hc⟩ | ⟨production, k₁, c₁, hk, hc, halike⟩
      · rw [hk, hc]
        rfl
      · rw [hk, hc]
        change Except.map _ (readFrom source rest k₁).1 = (Production.readFrom source rest c₁ >>= _)
        rw [ih halike]
        cases Production.readFrom source rest c₁ <;> rfl

/-- Keeping a record changes nothing about what is read. -/
theorem readAll_fst (source : List Char) :
    (readAll source).1 = Production.readAll source :=
  readFrom_fst _ (.refl _)

/-! ### Moving to places ahead -/

/-- A passage through a text that has moved to no other places than ones ahead of it where a
signature of the text starts or ends. -/
inductive Advances (source : List Char) : Passage → Prop
  | ofText : Advances source (ofText source)
  | perform {k : Passage} (op : Cursor.Operation) : Advances source k →
    (∀ target, op.target? = some target →
      k.cursor.offset ≤ target ∧ Cursor.IsBoundary source target) →
    Advances source (k.perform op)

namespace Advances

variable {sig : Signature} {sigs : List Signature} {done todo : List Cursor.Operation}

theorem cursor_eq (h : Advances source k) :
    k.cursor = (Cursor.Operation.runAll (Cursor.ofText source) k.operations).2 := by
  induction h with
  | ofText => rfl
  | @perform k op _ _ ih =>
    simp only [Passage.perform, Cursor.Operation.runAll_append, ← ih]
    rfl

/-- The part of the text that has been taken is what the operations have taken. -/
theorem hasTaken (h : Advances source k) : k.cursor.HasTaken source
    (Cursor.Operation.runAll (Cursor.ofText source) k.operations).1 := by
  induction h with
  | ofText => exact Cursor.hasTaken_iff.mpr ⟨source, rfl, Cursor.standsAt_ofText source⟩
  | @perform k op hk hop ih =>
    have hrun := (ih.run op hop).1
    simp only [Passage.perform, Cursor.Operation.runAll_append, ← hk.cursor_eq,
      Cursor.Operation.runAll, List.append_nil]
    exact hrun

/-- What was done first is a passage by itself. -/
theorem of_append (h : Advances source k) (hops : k.operations = done ++ todo) :
    Advances source ⟨(Cursor.Operation.runAll (Cursor.ofText source) done).2, done⟩ := by
  induction h generalizing todo with
  | ofText =>
    obtain ⟨rfl, rfl⟩ := List.append_eq_nil_iff.mp hops.symm
    exact .ofText
  | @perform k op hk hop ih =>
    induction todo using List.reverseRecOn with
    | nil =>
      rw [List.append_nil] at hops
      rw [← hops, ← (Advances.perform op hk hop).cursor_eq]
      exact .perform op hk hop
    | append_singleton todo last _ =>
      rw [← List.append_assoc] at hops
      exact ih (List.append_inj_left' hops rfl)

/-- Where the last operation moves to. -/
theorem of_concat {op : Cursor.Operation} (h : Advances source k)
    (hops : k.operations = done ++ [op]) (target : Nat) (htarget : op.target? = some target) :
    (Cursor.Operation.runAll (Cursor.ofText source) done).2.offset ≤ target ∧
      Cursor.IsBoundary source target := by
  cases h with
  | ofText => simp [Passage.ofText] at hops
  | @perform k op' hk hop =>
    obtain ⟨rfl, hlast⟩ := List.append_inj' hops rfl
    obtain rfl := List.singleton_inj.mp hlast
    rw [← hk.cursor_eq]
    exact hop target htarget

theorem skipBlanks (h : Advances source k) : Advances source k.skipBlanks.2 := by
  fun_induction Passage.skipBlanks k with
  | case1 k token k' hnext ih =>
    obtain ⟨-, rfl⟩ := Prod.mk.inj hnext
    exact ih (h.perform _ (by rintro _ ⟨⟩))
  | case2 k k' hnext =>
    obtain ⟨-, rfl⟩ := Prod.mk.inj hnext
    exact h.perform _ (by rintro _ ⟨⟩)

theorem takeBlock? (tracker : BlockTracker) (h : Advances source k) :
    Advances source (k.takeBlock? tracker).2 := by
  fun_induction Passage.takeBlock? tracker k with
  | case1 tracker k k' hnext | case2 tracker k token k' hnext =>
    obtain ⟨-, rfl⟩ := Prod.mk.inj hnext
    exact h.perform _ (by rintro _ ⟨⟩)
  | case3 tracker k token k' hnext hclosed ih =>
    obtain ⟨-, rfl⟩ := Prod.mk.inj hnext
    exact ih (h.perform _ (by rintro _ ⟨⟩))

theorem readBlock (name : String) (h : Advances source k) :
    Advances source (k.readBlock source name).2 := by
  have hpeek : Advances source k.skipBlanks.2.peek.2 := h.skipBlanks.perform .peek (by rintro _ ⟨⟩)
  rw [Passage.readBlock]
  rcases hskip : k.skipBlanks with ⟨blanks, k₁⟩
  rcases hk : k₁.peek with ⟨_ | token, k₂⟩ <;> rw [hskip, hk] at hpeek
  · simpa only [hk] using hpeek
  · have hblock := hpeek.takeBlock? {}
    simp only [hk]
    split
    · rcases hk' : k₂.takeBlock? {} with ⟨_ | block, k₃⟩ <;> rw [hk'] at hblock <;> exact hblock
    · exact hpeek

/-- A signature ahead of the cursor: first to its start, and then to its end. -/
theorem read (h : Advances source k) (hsig : sig ∈ Signature.findAll source)
    (hle : k.cursor.offset ≤ sig.span.start) : Advances source (k.read source sig).2 := by
  have hboundary : Cursor.IsBoundary source sig.span.start := ⟨sig, hsig, .inl rfl⟩
  have hstart : Advances source (k.takeTo sig.span.start).2 := by
    refine h.perform _ ?_
    rintro _ ⟨⟩
    exact ⟨hle, hboundary⟩
  have hstop : Advances source ((k.takeTo sig.span.start).2.takeTo sig.span.stop).2 := by
    refine hstart.perform _ ?_
    rintro _ ⟨⟩
    refine ⟨?_, sig, hsig, .inr rfl⟩
    exact (h.hasTaken.takeTo hle hboundary).2.offset_eq.trans_le
      (Nat.le_of_lt (Signature.mem_findAll_iff.mp hsig).start_lt_stop)
  -- reading a block goes to no target
  have hinitializer := hstop.readBlock sig.name
  rw [Passage.read]
  simp only
  rcases hk : ((k.takeTo sig.span.start).2.takeTo sig.span.stop).2.readBlock source sig.name with
    ⟨_ | initializer, k₁⟩ <;> rw [hk] at hinitializer
  · exact hinitializer
  · have hbody := hinitializer.readBlock sig.name
    rcases hk' : k₁.readBlock source sig.name with ⟨_ | body, k₂⟩ <;> rw [hk'] at hbody <;>
      simpa only [hk'] using hbody

theorem readFrom (h : Advances source k) (hsigs : sigs ⊆ Signature.findAll source) :
    Advances source (Passage.readFrom source sigs k).2 := by
  induction sigs generalizing k with
  | nil => exact h
  | cons sig sigs ih =>
    obtain ⟨hsig, hsigs⟩ := List.cons_subset.mp hsigs
    rw [Passage.readFrom]
    split
    · exact ih h hsigs
    · next hahead =>
      have hread := h.read hsig (Nat.not_lt.mp hahead)
      rcases hk : k.read source sig with ⟨_ | production, k₁⟩ <;> rw [hk] at hread
      · exact hread
      · exact ih hread hsigs

end Advances

/-- Whatever has been done with the cursor while the productions of a text are read, what it has
taken is the text up to its offset, and what is left to it are the tokens of the rest of the
text. It never goes back, and where it is moved to a place ahead, which is always the start or the
end of a signature, it reaches that place, splitting nothing but ordinary text there. -/
theorem readAll_keeps (source : List Char) :
    (readAll source).1 = Production.readAll source ∧
    (readAll source).2.cursor = (Cursor.Operation.runAll (Cursor.ofText source)
      (readAll source).2.operations).2 ∧
    (∀ done todo, (readAll source).2.operations = done ++ todo →
      (Cursor.Operation.runAll (Cursor.ofText source) done).2.HasTaken source
        (Cursor.Operation.runAll (Cursor.ofText source) done).1) ∧
    ∀ done op todo, (readAll source).2.operations = done ++ op :: todo →
      let c := (Cursor.Operation.runAll (Cursor.ofText source) done).2
      let c' := (Cursor.Operation.run c op).2
      c.offset ≤ c'.offset ∧ ∀ target, op.target? = some target →
        c.offset ≤ target ∧ Cursor.IsBoundary source target ∧ c.Reaches target c' := by
  have hadvances : Advances source (readAll source).2 :=
    Advances.readFrom .ofText (List.Subset.refl _)
  refine ⟨readAll_fst source, hadvances.cursor_eq, ?_, ?_⟩
  · intro done todo hops
    exact (hadvances.of_append hops).hasTaken
  · intro done op todo hops c c'
    have hops' : (readAll source).2.operations = (done ++ [op]) ++ todo := by
      rw [hops, List.append_assoc]
      rfl
    -- what was recorded up to here is a passage as well, and ends in this operation
    have htarget := (hadvances.of_append hops').of_concat rfl
    obtain ⟨-, hle, hreaches⟩ := (hadvances.of_append hops).hasTaken.run op htarget
    refine ⟨hle, fun target hop => ?_⟩
    exact ⟨(htarget target hop).1, (htarget target hop).2, hreaches target hop⟩

/-- A production that starts in the middle of a token. -/
def splitSource : String := "\u00e9/T A():\x7b\x7d\x7b\x7d"

/-- The cursor is first moved to the start of the signature, which is in the middle of a token. -/
theorem readAll_keeps_split :
    let source := splitSource.toList
    let c := Cursor.ofText source
    (∃ todo, (readAll source).2.operations = .takeTo 3 :: todo) ∧
      c.splitToken? 3 = some ⟨.text, ['\u00e9', '/', 'T'], 0⟩ ∧
      (c.takeTo 3).2.pending = some ⟨.text, ['T'], 3⟩ ∧
      (c.takeTo 3).2.HasTaken source ['\u00e9', '/'] := by
  intro source c
  obtain ⟨-, -, hstands, hmoves⟩ := readAll_keeps source
  have hsplit : c.splitToken? 3 = some ⟨.text, ['\u00e9', '/', 'T'], 0⟩ := by decide +kernel
  have hfirst : (readAll source).2.operations.head?.bind (·.target?) = some 3 := by decide +kernel
  obtain ⟨todo, hops⟩ : ∃ todo, (readAll source).2.operations = .takeTo 3 :: todo := by
    obtain ⟨op, hhead, htarget⟩ := Option.bind_eq_some_iff.mp hfirst
    obtain ⟨todo, hops⟩ := List.head?_eq_some_iff.mp hhead
    obtain rfl : op = .takeTo 3 := by
      cases op <;> cases htarget
      rfl
    exact ⟨todo, hops⟩
  obtain ⟨-, hreaches⟩ := hmoves [] (.takeTo 3) todo hops
  obtain ⟨u, v, -, -, -, -, -, hcut, hpending⟩ := (hreaches 3 rfl).2.2.split _ hsplit
  obtain ⟨rfl, rfl⟩ : ['\u00e9', '/'] = u ∧ ['T'] = v := Prod.mk.inj hcut
  have htaken : (Cursor.Operation.runAll c [.takeTo 3]).1 = ['\u00e9', '/'] := by decide +kernel
  exact ⟨⟨todo, hops⟩, hsplit, hpending, htaken ▸ hstands [.takeTo 3] todo hops⟩

end Passage

end GrammarLayers
