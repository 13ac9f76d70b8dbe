import Stencil.Source.Memory
import Stencil.Text.Segments

/-!
# Templates in files

A template's name is resolved to a path under a root, and the path is read in a tree of files. A
name that contains a `..` component, or that is still absolute without its first slash, is refused
before any file is looked at.
-/

namespace Stencil

/-- A component of a path. -/
inductive PathComponent where
  /-- The slash that an absolute path starts with. -/
  | root
  /-- The `.` that a relative path may start with. -/
  | current
  /-- A `..`. -/
  | parent
  | named (name : String)
  deriving DecidableEq, Repr

namespace PathComponent

/-- Nothing is made of an empty segment, nor of a `.`. -/
def ofSegment? (segment : String) : Option PathComponent :=
  if segment = "" || segment = "." then none
  else if segment = ".." then some .parent
  else some (.named segment)

/-- The components of a path: where it starts from, if it says so, and those of its segments. -/
def ofPath (path : String) : List PathComponent :=
  let segments := Segments.of '/' path
  let start :=
    if path.toList.head? == some '/' then [.root]
    else if segments.head? == some "." then [.current]
    else []
  start ++ segments.filterMap ofSegment?

/-- Whether a component may lead out of the directory that a path is meant to stay in. -/
def leaves : PathComponent → Bool
  | .root | .parent => true
  | .current | .named _ => false

end PathComponent

/-- Where the files of templates are, and how their names end. -/
structure FileLayout where
  root : String
  suffix : String
  deriving DecidableEq, Repr

namespace FileLayout

/-- Files that end in `.leaf`, below the current directory. -/
def standard : FileLayout := ⟨".", "leaf"⟩

/-- Whether a relative name may leave the root by one of its components. -/
def leavesRoot (relative : String) : Bool :=
  (PathComponent.ofPath relative).any (·.leaves)

/-- The name of the file: the suffix is added behind a point, unless there is no suffix or the name
has it already. -/
def fileName (layout : FileLayout) (relative : String) : String :=
  let ending := '.' :: layout.suffix.toList
  if layout.suffix.isEmpty || ending.isSuffixOf relative.toList then relative
  else relative ++ String.ofList ending

/-- A path below a root; an absolute path takes the place of the root. -/
def join (root file : String) : String :=
  if file.toList.head? == some '/' || root.isEmpty then file
  else if root.toList.getLast? == some '/' then root ++ file
  else root ++ "/" ++ file

/-- The path of a template's file. -/
def resolve (layout : FileLayout) (name : String) : Except LoadError String :=
  let relative := withoutSlash name
  if leavesRoot relative then .error (.traversal name)
  else .ok (join layout.root (layout.fileName relative))

end FileLayout

/-- Files by their paths, relative to the directory that relative paths start from. A directory
exists if a file is below it. -/
structure FileTree where
  files : List (List String × Bytes)

/-- Why a path gives no bytes. -/
inductive ReadFault where
  | missing
  /-- Something is there that is not a file, or the path is no path. -/
  | unreadable
  deriving DecidableEq

namespace FileTree

/-- The segments of a path that lead anywhere. -/
def steps (path : String) : List String :=
  (Segments.of '/' path).filter fun segment => segment != "" && segment != "."

/-- The tree of files given by their relative paths. -/
def ofFiles (files : List (String × Bytes)) : FileTree :=
  ⟨files.map fun file => (steps file.1, file.2)⟩

/-- The bytes of the file at a place. -/
def fileAt? (tree : FileTree) (place : List String) : Option Bytes :=
  tree.files.lookup place

/-- Whether a directory is at a place. -/
def isDirectory (tree : FileTree) (place : List String) : Bool :=
  place.isEmpty || tree.files.any fun file => place.isPrefixOf file.1 && place != file.1

/-- The longest name, in bytes, that a file or directory can have. -/
def nameLimit : Nat := 255

/-- The longest path, in bytes. -/
def pathLimit : Nat := 4095

/-- Why a path that leaves the tree gives no bytes: nothing is known to be outside, except for the
directories above the start. -/
def outside (steps : List String) : ReadFault :=
  if steps.all (· == "..") then .unreadable else .missing

/-- Where a list of steps leads from a directory. -/
def follow (tree : FileTree) (place : List String) : List String → Except ReadFault (List String)
  | [] => .ok place
  | step :: rest =>
    if (tree.fileAt? place).isSome then .error .unreadable
    else if !tree.isDirectory place then .error .missing
    else if step.utf8ByteSize > nameLimit then .error .unreadable
    else if step = ".." then
      if place.isEmpty then .error (outside rest) else follow tree place.dropLast rest
    else follow tree (place ++ [step]) rest

/-- The bytes of the file at a path. A path that ends in a slash or in `.` can only be a
directory's. -/
def read (tree : FileTree) (path : String) : Except ReadFault Bytes := do
  if path.toList.contains '\x00' || path.utf8ByteSize > pathLimit then throw .unreadable
  if path.isEmpty then throw .missing
  if path.toList.head? == some '/' then throw (outside (steps path))
  let place ← tree.follow [] (steps path)
  match tree.fileAt? place with
  | some bytes =>
    match (Segments.of '/' path).getLast? with
    | some "" | some "." => throw .unreadable
    | _ => return bytes
  | none => throw (if tree.isDirectory place then .unreadable else .missing)

end FileTree

namespace FileLayout

/-- The text of a template's file. -/
def load (layout : FileLayout) (tree : FileTree) (name : String) : Except LoadError Bytes := do
  let path ← layout.resolve name
  match tree.read path with
  | .ok bytes => return bytes
  | .error .missing => throw (.notFound name)
  | .error .unreadable => throw (.unreadable path)

end FileLayout

end Stencil
