import ShaderKit.File.Basic
import Std.Data.ExtTreeMap

namespace ShaderKit

/-!
# Files held in memory

A `MemoryStore` keeps the bytes of each logical name. Names are compared as they are: two spellings
of one path are two names.
-/

open Std (ExtTreeMap)

/-- Files held in memory, by logical name. -/
structure MemoryStore where
  files : ExtTreeMap String ByteArray := ∅

namespace MemoryStore

/-- Writes a file, replacing what its name held before. -/
def insert (store : MemoryStore) (name : String) (bytes : ByteArray) : MemoryStore where
  files := store.files.insert name bytes

/-- Removes a file. -/
def erase (store : MemoryStore) (name : String) : MemoryStore where
  files := store.files.erase name

/-- Whether a file has this name. -/
def contains (store : MemoryStore) (name : String) : Bool := store.files.contains name

/-- The number of files. -/
def size (store : MemoryStore) : Nat := store.files.size

/-- Opens the file of a logical name. -/
def read (store : MemoryStore) : Provider := fun name =>
  match store.files[name]? with
  | some bytes => .ok { name, bytes }
  | none => .error (.fileNotFound name)

variable {store : MemoryStore} {name other : String} {bytes : ByteArray}

@[simp] theorem read_insert_self : (store.insert name bytes).read name = .ok { name, bytes } := by
  simp [read, insert]

theorem read_insert_of_ne (h : name ≠ other) :
    (store.insert name bytes).read other = store.read other := by
  simp [read, insert, Std.ExtTreeMap.getElem?_insert, h]

@[simp] theorem read_erase_self : (store.erase name).read name = .error (.fileNotFound name) := by
  simp [read, erase]

/-- An opened file carries the name it was opened by. -/
theorem name_of_read_eq_ok {file : SourceFile} (h : store.read name = .ok file) :
    file.name = name := by
  unfold read at h
  split at h
  · cases h; rfl
  · cases h

end MemoryStore

end ShaderKit
