import UnitCalculator.Storage.Path

/-!
# Files

Programs read and write files through an access, which can be that of the machine or that of a store
in memory. Files hold bytes; as text they are read in UTF-8.

A path leads to a file only through directories that exist: each step before the last one has to end
in a directory, whatever the next step is.
-/

namespace UnitCalculator.Storage

/-- Why a file cannot be read or written. -/
inductive FileFault where
  | missing
  | directory
  /-- A part of the path is a file and no directory. -/
  | underFile
  /-- The path or a name in it is too long. -/
  | tooLong
  /-- The path holds a NUL character, which ends paths. -/
  | nulCharacter
  /-- The bytes are no UTF-8. -/
  | notText
  deriving DecidableEq

/-- Access to files. -/
structure FileAccess (m : Type → Type) where
  read : String → m (Except FileFault ByteArray)
  write : String → ByteArray → m (Except FileFault Unit)

/-- The text of bytes. -/
def textOf (bytes : ByteArray) : Except FileFault String :=
  match String.fromUTF8? bytes with
  | some text => .ok text
  | none => .error .notText

/-- Reads a file as text. -/
def FileAccess.readText {m : Type → Type} [Monad m] (access : FileAccess m) (path : String) :
    m (Except FileFault String) := do
  return (← access.read path) >>= textOf

/-- Bytes that a path may have. -/
def pathBytes : Nat := 4095

/-- Bytes that a name may have. -/
def nameBytes : Nat := 255

/-- What is at a place. -/
inductive Content where
  | file (bytes : ByteArray)
  | directory

/-- Files in memory, one at a place. Directories are the working directory, the root, and whatever
is around a directory or a file. -/
structure FileStore where
  files : List (Place × ByteArray) := []

namespace FileStore

/-- Puts a file at a place. -/
def put (store : FileStore) (place : Place) (bytes : ByteArray) : FileStore :=
  ⟨store.files.filter (fun file => file.1 ≠ place) ++ [(place, bytes)]⟩

/-- The store of some files by their paths. -/
def ofList (files : List (String × ByteArray)) : FileStore :=
  files.foldl (fun store file => store.put (Place.ofPath file.1) file.2) {}

/-- What is at a place. -/
def content? (store : FileStore) (place : Place) : Option Content :=
  match store.files.lookup place with
  | some bytes => some (.file bytes)
  | none =>
    if place.names = [] ∨ store.files.any fun file => file.1.isInside place then some .directory
    else none

/-- What a name in a directory stands for. -/
def find? (store : FileStore) (place : Place) (name : String) : Except FileFault (Option Content) :=
  if nameBytes < name.utf8ByteSize then .error .tooLong else .ok (store.content? (place.into name))

/-- A step from a directory to a directory. -/
def walk (store : FileStore) (place : Place) (step : Step) : Except FileFault Place :=
  match step with
  | .into name => do
    match ← store.find? place name with
    | some .directory => return place.move step
    | some (.file _) => throw .underFile
    | none => throw .missing
  | _ => .ok (place.move step)

/-- The directory that the parts of a path lead to, the last part left out. -/
def directoryOf (store : FileStore) (path : List Char) (parts : List (List Char)) :
    Except FileFault Place :=
  (parts.dropLast.map Step.ofPart).foldlM store.walk (Place.startOf path)

/-- A path that names something. -/
def checkPath (path : String) : Except FileFault Unit := do
  if path.toList.contains '\x00' then throw .nulCharacter
  if path.isEmpty then throw .missing
  if pathBytes < path.utf8ByteSize then throw .tooLong

/-- Reads a file. -/
def read (store : FileStore) (path : String) : Except FileFault ByteArray := do
  checkPath path
  let parts := splitSlashes path.toList
  let place ← store.directoryOf path.toList parts
  match Step.ofPart (parts.getLastD []) with
  | .into name =>
    match ← store.find? place name with
    | some (.file bytes) => return bytes
    | some .directory => throw .directory
    | none => throw .missing
  | _ => throw .directory

/-- Writes a file into a directory that exists. A path that ends in a slash names a directory,
whether it exists or not. -/
def write (store : FileStore) (path : String) (bytes : ByteArray) :
    Except FileFault FileStore := do
  checkPath path
  let parts := splitSlashes path.toList
  let named := (parts.reverse.dropWhile List.isEmpty).reverse
  let place ← store.directoryOf path.toList named
  match Step.ofPart (named.getLastD []) with
  | .into name =>
    if named.length < parts.length then throw .directory
    match ← store.find? place name with
    | some .directory => throw .directory
    | _ => return store.put (place.into name) bytes
  | _ => throw .directory

/-- Access to the files of a store. -/
def access : FileAccess (StateM FileStore) where
  read path := do return (← get).read path
  write path bytes := do
    match (← get).write path bytes with
    | .ok store => set store; return .ok ()
    | .error fault => return .error fault

end FileStore

end UnitCalculator.Storage
