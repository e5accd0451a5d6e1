import TreeLint.Table
import TreeLint.Text.Quoted

/-!
# Paths and files

A path is normalised when it is read from text: empty and single-dot parts vanish, double dots
stay. A file system tells what stands at a path, or why that cannot be told; what stands there can
still refuse to be opened. A path with a null character is never followed, and one that is too long
as a whole leads nowhere. A store is a file system that is given as data,
by the contents at relative paths; looking a path up in it goes from part to part, and fails where
a part is too long, is missing or goes through a file.
-/

namespace TreeLint

/-- A path: the slashes that it starts with, and its parts. -/
structure Path where
  root : String
  parts : List String
deriving DecidableEq

namespace Path

/-- The slashes that a path keeps at its start: two stay two, any other number counts as one. -/
def rootOf : List Char → String
  | '/' :: '/' :: '/' :: _ => "/"
  | '/' :: '/' :: _ => "//"
  | '/' :: _ => "/"
  | _ => ""

/-- The texts between the slashes of a path. -/
def splitParts : List Char → List (List Char)
  | [] => [[]]
  | c :: rest =>
    if c = '/' then [] :: splitParts rest
    else
      match splitParts rest with
      | [] => [[c]]
      | part :: parts => (c :: part) :: parts

/-- Read a path. -/
def ofText (text : String) : Path where
  root := rootOf text.toList
  parts := ((splitParts text.toList).map String.ofList).filter fun part =>
    part ≠ "" && part ≠ "."

/-- A path as text; the empty path is a dot. -/
def display (path : Path) : String :=
  if path.root.isEmpty && path.parts.isEmpty then "."
  else path.root ++ "/".intercalate path.parts

end Path

/-- What stands at a path: a file with its bytes, a directory, or something that cannot be opened,
for which the system has an error with a number and a reason. -/
inductive FileEntry where
  | file (bytes : List UInt8)
  | directory
  | closed (code : Nat) (reason : String)
deriving DecidableEq

/-- Why a file cannot be read. Errors of the system that have no name here are given by their number
and reason. -/
inductive FileFault where
  | notFound
  | isDirectory
  | notDirectory
  | nameTooLong
  | nullCharacter
  | system (code : Nat) (reason : String)
deriving DecidableEq

/-- The numbers of system errors that mean that nothing stands at a path, without a name here: a bad
descriptor, and too many links in a row. -/
def absenceCodes : List Nat :=
  [9, 40]

/-- Whether a fault leaves open if anything stands at a path. -/
def FileFault.isUndecided : FileFault → Bool
  | .nameTooLong => true
  | .system code _ => code ∉ absenceCodes
  | .notFound | .isDirectory | .notDirectory | .nullCharacter => false

/-- A file that cannot be read. -/
structure FileError where
  fault : FileFault
  path : Path
deriving DecidableEq

/-- The wording of a file that cannot be read. -/
def FileError.message (e : FileError) : String :=
  let shown := Text.quoted e.path.display
  match e.fault with
  | .notFound => s!"[Errno 2] No such file or directory: {shown}"
  | .notDirectory => s!"[Errno 20] Not a directory: {shown}"
  | .isDirectory => s!"[Errno 21] Is a directory: {shown}"
  | .nameTooLong => s!"[Errno 36] File name too long: {shown}"
  | .nullCharacter => "embedded null byte"
  | .system code reason => s!"[Errno {code}] {reason}: {shown}"

/-- What stands at each path, or why nothing can be found there. -/
structure FileSystem where
  find : Path → Except FileFault FileEntry

/-- The most bytes that a path may have. -/
def maxPathBytes : Nat := 4095

/-- The most bytes that one part of a path may have. -/
def maxPartBytes : Nat := 255

namespace FileSystem

/-- What stands at a path that can be followed. -/
def follow (files : FileSystem) (path : Path) : Except FileFault FileEntry :=
  let text := path.display
  if '\x00' ∈ text.toList then .error .nullCharacter
  else if maxPathBytes < text.utf8ByteSize then .error .nameTooLong
  else files.find path

/-- Whether a path leads to anything, if this can be told. -/
def pathExists (files : FileSystem) (path : Path) : Except FileError Bool :=
  match files.follow path with
  | .ok _ => .ok true
  | .error fault => if fault.isUndecided then .error ⟨fault, path⟩ else .ok false

/-- The bytes of the file at a path. -/
def readBytes (files : FileSystem) (path : Path) : Except FileError (List UInt8) :=
  match files.follow path with
  | .ok (.file bytes) => .ok bytes
  | .ok .directory => .error ⟨.isDirectory, path⟩
  | .ok (.closed code reason) => .error ⟨.system code reason, path⟩
  | .error fault => .error ⟨fault, path⟩

end FileSystem

/-- Stored entries by the parts of their paths. The directories above an entry exist with it. -/
structure Store where
  entries : Table (List String) FileEntry

/-- Where a path has led so far: to a place in the store, or to a directory outside it of which
nothing is known. -/
inductive Place where
  | inside (parts : List String)
  | outside
deriving DecidableEq

namespace Store

/-- The entry at a place of the store. -/
def entry? (store : Store) (parts : List String) : Option FileEntry :=
  match store.entries.get? parts with
  | some entry => some entry
  | none =>
    if parts.isEmpty || store.entries.any fun row => parts.isPrefixOf row.1 then some .directory
    else none

/-- Follow one part of a path. -/
def step (store : Store) (place : Place) (part : String) : Except FileFault Place :=
  match place with
  | .outside =>
    if part = ".." then .ok .outside
    else if maxPartBytes < part.utf8ByteSize then .error .nameTooLong
    else .error .notFound
  | .inside parts =>
    match store.entry? parts with
    | some (.file _) | some (.closed _ _) => .error .notDirectory
    | none => .error .notFound
    | some .directory =>
      if part = ".." then
        if parts.isEmpty then .ok .outside else .ok (.inside parts.dropLast)
      else if maxPartBytes < part.utf8ByteSize then .error .nameTooLong
      else
        let below := parts ++ [part]
        if (store.entry? below).isSome then .ok (.inside below) else .error .notFound

/-- Follow a path to its entry. -/
def find (store : Store) (path : Path) : Except FileFault FileEntry := do
  let start : Place := if path.root.isEmpty then .inside [] else .outside
  match ← path.parts.foldlM store.step start with
  | .outside => return .directory
  | .inside parts =>
    match store.entry? parts with
    | some entry => return entry
    | none => .error .notFound

/-- The file system of a store. -/
def fileSystem (store : Store) : FileSystem :=
  ⟨store.find⟩

end Store

end TreeLint
