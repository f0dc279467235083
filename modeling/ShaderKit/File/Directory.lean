import ShaderKit.File.Basic
import ShaderKit.File.Path
import Std.Data.ExtTreeMap
import Std.Data.ExtTreeSet

namespace ShaderKit

/-!
# Files in a directory tree

A `DirectoryTree` resolves a logical name below its root. Empty parts of the name are skipped, so
`a//b` and `/a/b/` both mean the file `b` in the directory `a`. The parts `.` and `..` mean the
directory itself and the one above it, and the walk has to pass through directories that exist:
several spellings may lead to one file. A path that is too long leads nowhere, however short the way
that it describes.

* `resolve` — the path below the root, as it is spelled
* `admits`  — whether the path of a name is short enough
* `locate`  — where the walk along a name ends
* `read`    — opens a file; it carries the name by which it was opened
-/

open Std (ExtTreeMap ExtTreeSet)

/-- A place below the root: the parts of its path, the last one first. -/
abbrev Place := List String

/-- The files and directories below a root directory. -/
structure DirectoryTree where
  /-- The path of the root directory, without a slash at its end. -/
  root : String := ""
  files : ExtTreeMap Place ByteArray := ∅
  directories : ExtTreeSet Place := ∅

namespace DirectoryTree

/-- The path of a logical name, without that of the root, as it is spelled. -/
def resolve (name : String) : String :=
  String.join ((Path.componentsOf name).map ("/" ++ ·))

/-- The length of the longest path that leads anywhere, in bytes. -/
def pathLimit : Nat := 4095

/-- Whether the path of a logical name, that of the root included, is short enough. -/
def admits (tree : DirectoryTree) (name : String) : Bool :=
  tree.root.utf8ByteSize + (resolve name).utf8ByteSize ≤ pathLimit

/-- Whether there is a directory at a place. The root is one. -/
def isDirectory (tree : DirectoryTree) (place : Place) : Bool :=
  place.isEmpty || tree.directories.contains place

/-- The place that one part of a path leads to, if the walk stands in a directory. Nothing above the
    root is reached. -/
def step (tree : DirectoryTree) (place : Place) (part : String) : Option Place :=
  if !tree.isDirectory place then none
  else if part = "." then some place
  else if part = ".." then place.tail?
  else some (part :: place)

/-- Where the walk along a logical name ends. -/
def locate (tree : DirectoryTree) (name : String) : Option Place :=
  if tree.admits name then (Path.componentsOf name).foldlM tree.step [] else none

/-- The bytes of the file that a logical name leads to. -/
def bytesOf (tree : DirectoryTree) (name : String) : Option ByteArray :=
  (tree.locate name).bind (tree.files[·]?)

/-- Whether a logical name leads to a file. -/
def contains (tree : DirectoryTree) (name : String) : Bool := (tree.bytesOf name).isSome

/-- Opens the file that a logical name leads to. -/
def read (tree : DirectoryTree) : Provider := fun name =>
  match tree.bytesOf name with
  | some bytes => .ok { name, bytes }
  | none => .error (.fileNotFound name)

/-! ### Changing the tree -/

/-- Whether a part of a path can name a new file or directory. -/
def isCreatable (part : String) : Bool :=
  part != "." && part != ".." && !part.toList.contains '\x00' && part.utf8ByteSize ≤ 255

/-- Walks along the parts of a path and makes the directories that are missing: the tree with those
    that could be made, and where the walk ends unless it was stopped. -/
def makeDirectories (tree : DirectoryTree) (place : Place) :
    List String → DirectoryTree × Option Place
  | [] => (tree, some place)
  | part :: parts =>
    match tree.step place part with
    | none => (tree, none)
    | some next =>
      if tree.isDirectory next then tree.makeDirectories next parts
      else if tree.files.contains next || !isCreatable part then (tree, none)
      else
        let grown := { tree with directories := tree.directories.insert next }
        grown.makeDirectories next parts

/-- Writes a file, making the directories above it. A name that cannot be a file's writes nothing, and
    one that is too long makes no directories either. -/
def insert (tree : DirectoryTree) (name : String) (bytes : ByteArray) : DirectoryTree :=
  let parts := Path.componentsOf name
  match parts.getLast? with
  | none => tree
  | some last =>
    if !tree.admits name then tree
    else match tree.makeDirectories [] parts.dropLast with
    | (made, none) => made
    | (made, some place) =>
      if isCreatable last && !made.isDirectory (last :: place) then
        { made with files := made.files.insert (last :: place) bytes }
      else made

/-- Removes the file that a logical name leads to. Its directory stays. -/
def erase (tree : DirectoryTree) (name : String) : DirectoryTree :=
  match tree.locate name with
  | some place => { tree with files := tree.files.erase place }
  | none => tree

/-- An opened file carries the name it was opened by. -/
theorem name_of_read_eq_ok {tree : DirectoryTree} {name : String} {file : SourceFile}
    (h : tree.read name = .ok file) : file.name = name := by
  unfold read at h
  split at h
  · cases h; rfl
  · cases h

end DirectoryTree

end ShaderKit
