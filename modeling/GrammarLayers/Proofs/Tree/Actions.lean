import GrammarLayers.Tree.FileTree

/-!
# What actions make of a tree

An action is put together from smaller ones, and what one makes of a tree is where the next one
starts. So if all parts of an action take any tree to one that is related to it, then the whole
action does, as long as the relation can be followed from one tree to the next.

## Main definitions

* `TreeAction.Relates` — how a tree is related to what an action makes of it

## Main results

* `TreeAction.Relates.bind`, `TreeAction.Relates.tryCatch` — one action after another
* `FileTree.create_cases`, `FileTree.write_cases` — what is put into a tree, and where
* `FileTree.relates_createDirectories` — all that making directories does is to make one at a time
-/

namespace GrammarLayers

namespace TreeAction

variable {α β : Type} {R : FileTree → FileTree → Prop} {x : TreeAction α} {f : α → TreeAction β}

/-- Whether or not an action succeeds, every tree is related to what the action makes of it. -/
def Relates (R : FileTree → FileTree → Prop) (x : TreeAction α) : Prop :=
  ∀ t, R t (x.run.run t).2

theorem run_get_bind (f : FileTree → TreeAction β) (t : FileTree) :
    (get >>= f : TreeAction β).run.run t = (f t).run.run t := rfl

theorem run_ok_bind (a : α) (f : α → TreeAction β) (t : FileTree) :
    ((liftM (Except.ok a : Except SystemError α) : TreeAction α) >>= f).run.run t =
      (f a).run.run t := rfl

theorem run_adapt {ε : Type} (f : SystemError → ε) (x : TreeAction α) (t : FileTree) :
    (x.adapt f).run.run t = ((x.run.run t).1.mapError f, (x.run.run t).2) := rfl

theorem Relates.bind (htrans : ∀ a b c, R a b → R b c → R a c) (hx : Relates R x)
    (hf : ∀ a, Relates R (f a)) : Relates R (x >>= f) := by
  intro t
  have hfirst := hx t
  rw [ExceptT.run_bind, StateT.run_bind]
  rcases hrun : x.run.run t with ⟨cause | a, t'⟩
  · rw [hrun] at hfirst
    exact hfirst
  · rw [hrun] at hfirst
    exact htrans _ _ _ hfirst (hf a t')

/-- What was done before a failure stays done, and what makes up for the failure goes on from
there. -/
theorem Relates.tryCatch {handle : SystemError → TreeAction α}
    (htrans : ∀ a b c, R a b → R b c → R a c) (hx : Relates R x)
    (hhandle : ∀ cause, Relates R (handle cause)) : Relates R (tryCatch x handle) := by
  intro t
  have hfirst := hx t
  rw [ExceptT.run_tryCatch, StateT.run_bind]
  rcases hrun : x.run.run t with ⟨cause | a, t'⟩
  · rw [hrun] at hfirst
    exact htrans _ _ _ hfirst (hhandle cause t')
  · rw [hrun] at hfirst
    exact hfirst

end TreeAction

namespace FileTree

/-! ### What is put into a tree -/

/-- The place of a new entry is where a walk ends. -/
theorem walk_of_parent {t : FileTree} {p : Path} {steps : List Step} {place : Place}
    {entries : Directory} (h : t.parent p steps = .ok (place, entries)) :
    (t.start p).walk .look linkLimit (steps.dropLast ++ [.stay]) =
      .ok ⟨place, some (.directory entries)⟩ := by
  unfold parent at h
  rcases hwalk : (t.start p).walk .look linkLimit (steps.dropLast ++ [.stay]) with cause | target
  · rw [hwalk] at h
    cases h
  · rw [hwalk] at h
    rcases target with ⟨place', _ | bytes | inner | path⟩
    · cases h
    · cases h
    · obtain ⟨rfl, rfl⟩ := Prod.mk.inj (Except.ok.inj h)
      exact hwalk
    · cases h

/-- A new entry is put into a directory that has none of this name, or nothing is done. -/
theorem create_cases (p : Path) (entry : Entry) (t : FileTree) :
    (∃ cause, (create p entry).run.run t = (.error cause, t)) ∨
      ∃ place entries name, t.parent p p.steps = .ok (place, entries) ∧
        p.steps.getLast? = some (.down name) ∧ entries.lookup name = none ∧
        (create p entry).run.run t = (.ok (), t.put (place ++ [name]) entry) := by
  rw [create, TreeAction.run_get_bind]
  rcases p.check with cause | _
  · exact .inl ⟨cause, rfl⟩
  rw [TreeAction.run_ok_bind]
  dsimp only
  rcases t.parent p p.steps with cause | ⟨place, entries⟩
  · exact .inl ⟨cause, rfl⟩
  rw [TreeAction.run_ok_bind]
  dsimp only
  split
  next name hlast =>
    -- names that are too long or taken already are refused
    split
    next => exact .inl ⟨_, rfl⟩
    next =>
      split
      next => exact .inl ⟨_, rfl⟩
      next hlookup => exact .inr ⟨place, entries, name, rfl, hlast, hlookup, rfl⟩
  next => exact .inl ⟨_, rfl⟩

/-- A file is put where a path leads to, unless there is a directory, or nothing is done. -/
theorem write_cases (p : Path) (bytes : ByteArray) (t : FileTree) :
    (∃ cause, (write p bytes).run.run t = (.error cause, t)) ∨
      ∃ target, p.check = .ok () ∧ t.resolve .write p = .ok target ∧
        (∀ entries, target.entry? ≠ some (.directory entries)) ∧
        (write p bytes).run.run t = (.ok (), t.put target.place (.file bytes)) := by
  rw [write, TreeAction.run_get_bind]
  rcases p.check with cause | _
  · exact .inl ⟨cause, rfl⟩
  rw [TreeAction.run_ok_bind]
  split
  next =>
    rcases t.resolve .write p with cause | ⟨place, entry?⟩
    · exact .inl ⟨cause, rfl⟩
    rw [TreeAction.run_ok_bind]
    split
    next => exact .inl ⟨_, rfl⟩
    next hdirectory hsame =>
      obtain ⟨rfl, rfl⟩ := Target.mk.inj hsame
      exact .inr ⟨_, rfl, rfl, hdirectory, rfl⟩
  next =>
    -- a path that ends in no name is refused, whatever is wrong with it
    rcases t.parent p p.steps with cause | found
    · exact .inl ⟨cause, rfl⟩
    · exact .inl ⟨_, rfl⟩

/-! ### Making directories -/

section Relates

variable {R : FileTree → FileTree → Prop}

theorem relates_ensureDirectory (hrefl : ∀ t, R t t) (htrans : ∀ a b c, R a b → R b c → R a c)
    (hcreate : ∀ p, TreeAction.Relates R (create p (.directory []))) (p : Path) :
    TreeAction.Relates R (ensureDirectory p) := by
  refine TreeAction.Relates.tryCatch htrans (hcreate p) fun cause => ?_
  split
  next => exact fun t => hrefl t
  next =>
    intro t
    rw [TreeAction.run_get_bind]
    split
    next => exact hrefl t
    next => exact hrefl t

theorem relates_createDirectoriesFrom (hrefl : ∀ t, R t t)
    (htrans : ∀ a b c, R a b → R b c → R a c)
    (hcreate : ∀ p, TreeAction.Relates R (create p (.directory []))) (depth : Nat) (p : Path) :
    TreeAction.Relates R (createDirectoriesFrom depth p) := by
  have hensure := relates_ensureDirectory hrefl htrans hcreate
  induction depth generalizing p with
  | zero =>
    unfold createDirectoriesFrom
    refine TreeAction.Relates.tryCatch htrans (hensure p) fun cause => ?_
    split
    next => exact fun t => hrefl t
    next => exact fun t => hrefl t
  | succ depth ih =>
    unfold createDirectoriesFrom
    refine TreeAction.Relates.tryCatch htrans (hensure p) fun cause => ?_
    split
    next =>
      dsimp only
      split
      next parent hdepth _ =>
        obtain rfl := Nat.succ.inj hdepth
        -- the parent is made first, unless it is the directory that the path starts from
        split
        next => exact hensure p
        next => exact (ih parent).bind htrans fun _ => hensure p
      next => exact fun t => hrefl t
    next => exact fun t => hrefl t

/-- Making directories does nothing but to make one at a time, whether or not it succeeds. -/
theorem relates_createDirectories (hrefl : ∀ t, R t t) (htrans : ∀ a b c, R a b → R b c → R a c)
    (hcreate : ∀ p, TreeAction.Relates R (create p (.directory []))) (p : Path) :
    TreeAction.Relates R (createDirectories p) :=
  relates_createDirectoriesFrom hrefl htrans hcreate _ p

end Relates

end FileTree

end GrammarLayers
