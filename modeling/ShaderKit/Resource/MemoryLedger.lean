import ShaderKit.Resource.Id

namespace ShaderKit

/-!
# Memory use

A `MemoryLedger` holds the memory use that each resource reported last, in bytes.
-/

open Std (ExtTreeMap)

/-- The memory use that each resource reported last. -/
structure MemoryLedger where
  sizes : ExtTreeMap ResourceId Nat := ∅

namespace MemoryLedger

/-- Replaces the figure of a resource. -/
def report (ledger : MemoryLedger) (id : ResourceId) (bytes : Nat) : MemoryLedger where
  sizes := ledger.sizes.insert id bytes

/-- Forgets a resource. -/
def remove (ledger : MemoryLedger) (id : ResourceId) : MemoryLedger where
  sizes := ledger.sizes.erase id

/-- The figure of a resource; zero for one that never reported. -/
def get (ledger : MemoryLedger) (id : ResourceId) : Nat := ledger.sizes.getD id 0

/-- The sum of all figures. -/
def total (ledger : MemoryLedger) : Nat := ledger.sizes.foldl (fun sum _ bytes => sum + bytes) 0

variable {ledger : MemoryLedger} {id other : ResourceId} {bytes : Nat}

/-- A report replaces the figure of one resource. -/
theorem get_report :
    (ledger.report id bytes).get other = if other = id then bytes else ledger.get other := by
  by_cases h : id = other
  · subst h
    simp [get, report]
  · simp [get, report, ExtTreeMap.getD_insert, h, Ne.symm h]

/-- Removing takes away the figure of one resource. -/
theorem get_remove :
    (ledger.remove id).get other = if other = id then 0 else ledger.get other := by
  by_cases h : id = other
  · subst h
    simp [get, remove]
  · simp [get, remove, ExtTreeMap.getD_erase, h, Ne.symm h]

end MemoryLedger

end ShaderKit
