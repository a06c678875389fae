/-!
# Paths

A path is read part by part between its slashes. Each part is a step: into a name, up to the parent,
or none at all. The steps start at the root if the path starts with a slash and at the working
directory otherwise. The normal form of a path has no parts that are no steps, and keeps the others
as they are written: a step up cannot be cancelled against a name that may not be there.
-/

namespace UnitCalculator.Storage

/-- The parts of a text between slashes. -/
def splitSlashes : List Char → List (List Char)
  | [] => [[]]
  | c :: rest =>
    if c = '/' then [] :: splitSlashes rest
    else match splitSlashes rest with
      | [] => [[c]]
      | part :: parts => (c :: part) :: parts

/-- What a part of a path leads to. -/
inductive Step where
  | stay
  | up
  | into (name : String)
  deriving DecidableEq

/-- The step that a part means. -/
def Step.ofPart (part : List Char) : Step :=
  if part = [] ∨ part = ['.'] then .stay
  else if part = ['.', '.'] then .up
  else .into (String.ofList part)

/-- The slashes that an absolute path starts with: two stay two, and any other number is one. -/
def rootOf : List Char → List Char
  | '/' :: '/' :: '/' :: _ => ['/']
  | '/' :: '/' :: _ => ['/', '/']
  | '/' :: _ => ['/']
  | _ => []

/-- The parts of a path that are steps. -/
def namesOf (path : List Char) : List (List Char) :=
  (splitSlashes path).filter fun part => Step.ofPart part ≠ .stay

/-- The normal form of a path; the path without steps is a single point. -/
def normalPath (path : String) : String :=
  let text := path.toList
  let names := namesOf text
  let joined := String.ofList (rootOf text) ++ "/".intercalate (names.map String.ofList)
  if joined.isEmpty then "." else joined

/-- A path inside a directory, unless it is absolute. -/
def joinPath (directory path : String) : String :=
  if rootOf path.toList ≠ [] then normalPath path
  else if directory.isEmpty ∨ directory.toList.getLast? = some '/' then
    normalPath (directory ++ path)
  else normalPath (directory ++ "/" ++ path)

/-- Where the steps of a path start. -/
inductive Anchor where
  | root
  /-- The directory that many levels above the working directory. -/
  | working (above : Nat)
  deriving DecidableEq

/-- A place in the tree of directories. -/
structure Place where
  anchor : Anchor
  /-- Names from the anchor to the place, the innermost first. -/
  names : List String
  deriving DecidableEq

namespace Place

/-- Where the steps of a path start. -/
def startOf (path : List Char) : Place := ⟨if rootOf path = [] then .working 0 else .root, []⟩

/-- The place inside another one. -/
def into (place : Place) (name : String) : Place := { place with names := name :: place.names }

/-- The place around another one; the root is around itself. -/
def parent (place : Place) : Place :=
  match place.anchor, place.names with
  | anchor, _ :: names => ⟨anchor, names⟩
  | .working above, [] => ⟨.working (above + 1), []⟩
  | .root, [] => place

/-- A step from a place. -/
def move (place : Place) : Step → Place
  | .stay => place
  | .up => place.parent
  | .into name => place.into name

/-- The place that a path leads to if all directories on its way exist. -/
def ofPath (path : String) : Place :=
  ((splitSlashes path.toList).map Step.ofPart).foldl move (startOf path.toList)

/-- The place is inside another one. -/
def isInside (place other : Place) : Bool :=
  place.anchor = other.anchor && other.names.isSuffixOf place.names && place ≠ other

end Place

end UnitCalculator.Storage
