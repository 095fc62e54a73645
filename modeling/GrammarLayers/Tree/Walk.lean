import GrammarLayers.Tree.Directory
import GrammarLayers.Tree.SystemError

/-!
# Walks

A path is followed step by step from a directory: to the directory itself, to the one it
lies in, or to something that it names. Links on the way are followed.

## Main definitions

* `Step`, `Path.steps` — the moves that a path stands for
* `Spot` — a directory together with those it lies in
* `Aim` — what a walk is for
* `Target` — where a path leads
* `Spot.walk` — follow steps from a directory

## Implementation notes

A walk ends because each step shortens the path, except for following a link, of which a
walk may do no more than `linkLimit`. A spot keeps the directories on the way back to the
top, so that a step up or down is done on the spot.
-/

namespace GrammarLayers

/-- A move from one directory to another. -/
inductive Step where
  | stay
  | up
  | down (name : String)
  deriving DecidableEq, Repr

/-- The step that a piece between slashes stands for: none if it is empty. -/
def Step.ofPiece? (piece : List Char) : Option Step :=
  if piece = [] then none
  else if piece = ['.'] then some stay
  else if piece = ['.', '.'] then some up
  else some (down (String.ofList piece))

namespace Path

/-- The steps between the slashes of a path, those that end at the place itself included. -/
def steps (p : Path) : List Step := (splitSlashes p.text.toList).filterMap Step.ofPiece?

/-- Whether a path ends in a slash and so can only mean a directory. -/
def endsInSlash (p : Path) : Bool := p.text.toList.getLast? == some '/'

/-- The steps of a path. A slash at its end is a step of its own, which only a directory
allows. -/
def allSteps (p : Path) : List Step := p.steps ++ if p.endsInSlash then [.stay] else []

/-- Whether a path ends in a name with a slash after it. -/
def endsInNameAndSlash (p : Path) : Bool :=
  p.endsInSlash && (p.steps.getLast?.any fun step => step != .stay && step != .up)

/-- The most bytes that a path may take in a system call. -/
def sizeLimit : Nat := 4095

/-- Refuses the paths that lead nowhere whatever the tree. -/
def checkText (p : Path) : Except SystemError Unit :=
  if p.text.toList.contains '\x00' then .error .nulInPath
  else if p.text.isEmpty then .error .notFound
  else .ok ()

/-- Refuses the paths that no system call takes. -/
def check (p : Path) : Except SystemError Unit := do
  p.checkText
  if sizeLimit < p.text.utf8ByteSize then throw .nameTooLong

end Path

/-- Whether a name that these steps come after has to be one of a directory. A further name
does not tell: it is only looked up. -/
def asksDirectory : List Step → Bool
  | [] => false
  | .stay :: rest => rest.isEmpty || asksDirectory rest
  | .up :: _ => true
  | .down _ :: _ => false

/-- A directory, and those it lies in up to the top, each with the name that leads on. -/
structure Spot where
  here : Directory
  above : List (String × Directory) := []

namespace Spot

/-- The place of the directory. -/
def place (s : Spot) : Place := (s.above.map (·.1)).reverse

/-- The directory that this one lies in. The top lies in itself. -/
def up (s : Spot) : Spot :=
  match s.above with
  | [] => s
  | (_, outer) :: rest => ⟨outer, rest⟩

/-- The directory under a name. -/
def down (s : Spot) (name : String) : Spot := ⟨s.here.below name, (name, s.here) :: s.above⟩

/-- The top directory. -/
def top (s : Spot) : Spot := ⟨(s.above.getLast?.map (·.2)).getD s.here, []⟩

/-- The directory at the end of names that lead down. -/
def descend (s : Spot) (place : Place) : Spot := place.foldl down s

end Spot

/-- What a walk is for. -/
inductive Aim where
  /-- To look at what a path leads to. -/
  | look
  /-- To write a file. The link that a path ends in must not lead to a name with a slash
  after it. -/
  | write
  /-- To tell the place that a path leads to. Each name on the way is looked up by its path
  from the top, so that this must not be too long for a system call; a slash is added where
  the name has to be one of a directory. -/
  | locate
  deriving DecidableEq, Repr

/-- Whether a name in a directory can be looked up, with so many bytes after it. -/
def Aim.reaches (aim : Aim) (s : Spot) (name : String) (more : Nat) : Bool :=
  aim != .locate || Place.size s.place + 1 + name.utf8ByteSize + more ≤ Path.sizeLimit

/-- Where a path leads: a place, and what is there. Only the last name of a path may be
absent. -/
structure Target where
  place : Place
  entry? : Option Entry

/-- The most links that a walk follows. -/
def linkLimit : Nat := 40

/-- The most bytes that the name of an entry may take. -/
def nameLimit : Nat := 255

/-- Walks from a directory. Links are followed, at most `links` of them. -/
def Spot.walk (aim : Aim) (links : Nat) (s : Spot) : List Step → Except SystemError Target
  | [] => .ok ⟨s.place, some (.directory s.here)⟩
  | .stay :: rest => walk aim links s rest
  | .up :: rest => walk aim links s.up rest
  | .down name :: rest =>
    if nameLimit < name.utf8ByteSize || !aim.reaches s name 0 then .error .nameTooLong
    else
      match s.here.lookup name with
      | none => if rest.isEmpty then .ok ⟨s.place ++ [name], none⟩ else .error .notFound
      | some (.file bytes) =>
        if rest.isEmpty then .ok ⟨s.place ++ [name], some (.file bytes)⟩
        else .error .notDirectory
      | some (.directory _) =>
        if asksDirectory rest && !aim.reaches s name 1 then .error .nameTooLong
        else walk aim links (s.down name) rest
      | some (.link target) =>
        match links with
        | 0 => .error .tooManyLinks
        | links + 1 =>
          let start := if target.isAbsolute then s.top else s
          if aim = .write && rest.isEmpty && target.endsInNameAndSlash then do
            let _ ← walk aim links start (target.steps.dropLast ++ [.stay])
            throw .isDirectory
          else walk aim links start (target.allSteps ++ rest)
termination_by steps => (links, steps.length)

end GrammarLayers
