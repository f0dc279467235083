import ShaderKit.Resource.Id
import Std.Data.ExtTreeSet

namespace ShaderKit

/-!
# Dependencies

A `DependencyMap` records which resource was loaded from which included files. It is indexed by
file, because a change of a file asks for the resources that included it.

* `register` — a resource depends on a file
* `clear`    — a resource depends on nothing any more; files that nobody needs are forgotten
* `dependents`, `dependenciesOf` — the two directions of the relation, each in order
* `Depends`  — the relation itself, with one lemma for each operation
-/

open Std (ExtTreeMap ExtTreeSet)

/-- For each included file the resources that included it. -/
structure DependencyMap where
  owners : ExtTreeMap String (ExtTreeSet ResourceId) := ∅

namespace DependencyMap

/-- The resources that included a file. -/
def ownersOf (deps : DependencyMap) (file : String) : ExtTreeSet ResourceId :=
  deps.owners.getD file ∅

/-- Records that `owner` depends on `file`. -/
def register (deps : DependencyMap) (owner : ResourceId) (file : String) : DependencyMap where
  owners := deps.owners.insert file ((deps.ownersOf file).insert owner)

/-- Forgets every dependency of `owner`. -/
def clear (deps : DependencyMap) (owner : ResourceId) : DependencyMap where
  owners := deps.owners.filterMap fun _ owners =>
    let others := owners.erase owner
    if others.isEmpty then none else some others

/-- Records that `owner` depends on each of `files`. -/
def registerAll (deps : DependencyMap) (owner : ResourceId) (files : List String) : DependencyMap :=
  files.foldl (fun deps file => deps.register owner file) deps

/-- The resources that included a file, in the order of their ids. -/
def dependents (deps : DependencyMap) (file : String) : List ResourceId :=
  (deps.ownersOf file).toList

/-- The files that a resource included, sorted. -/
def dependenciesOf (deps : DependencyMap) (owner : ResourceId) : List String :=
  (deps.owners.filter fun _ owners => owners.contains owner).keys

/-- The number of files that some resource included. -/
def fileCount (deps : DependencyMap) : Nat := deps.owners.size

/-! ### The relation -/

/-- `owner` depends on `file`. -/
def Depends (deps : DependencyMap) (owner : ResourceId) (file : String) : Prop :=
  owner ∈ deps.ownersOf file

variable {deps : DependencyMap} {owner other : ResourceId} {file name : String}

/-- Registering concerns one file. -/
theorem ownersOf_register :
    (deps.register owner file).ownersOf name =
      if name = file then (deps.ownersOf file).insert owner else deps.ownersOf name := by
  by_cases h : file = name
  · subst h
    simp [ownersOf, register]
  · simp [ownersOf, register, Std.ExtTreeMap.getD_insert, h, Ne.symm h]

/-- Registering adds one pair. -/
theorem depends_register :
    (deps.register owner file).Depends other name ↔
      other = owner ∧ name = file ∨ deps.Depends other name := by
  rw [Depends, ownersOf_register]
  by_cases h : name = file
  · subst h
    simp [Depends, ExtTreeSet.mem_insert, @eq_comm _ other]
  · simp [Depends, h]

/-- Clearing takes away the pairs of one resource. -/
theorem depends_clear :
    (deps.clear owner).Depends other name ↔ other ≠ owner ∧ deps.Depends other name := by
  unfold Depends ownersOf clear
  rw [ExtTreeMap.getD_eq_getD_getElem?, ExtTreeMap.getElem?_filterMap',
    ExtTreeMap.getD_eq_getD_getElem?]
  cases deps.owners[name]? with
  | none => simp
  | some owners =>
    have hm : other ∈ owners.erase owner ↔ other ≠ owner ∧ other ∈ owners := by
      simp [ExtTreeSet.mem_erase, @eq_comm _ other]
    rw [Option.bind_some, Option.getD_some, ← hm]
    by_cases he : (owners.erase owner).isEmpty = true
    · rw [if_pos he, ExtTreeSet.isEmpty_iff.mp he, Option.getD_none]
    · rw [if_neg he, Option.getD_some]

@[simp] theorem mem_dependents : owner ∈ deps.dependents file ↔ deps.Depends owner file := by
  simp [dependents, Depends]

@[simp] theorem mem_dependenciesOf :
    file ∈ deps.dependenciesOf owner ↔ deps.Depends owner file := by
  rw [dependenciesOf, ExtTreeMap.mem_keys, ← ExtTreeMap.isSome_getElem?_iff_mem,
    ExtTreeMap.getElem?_filter', Depends, ownersOf, ExtTreeMap.getD_eq_getD_getElem?]
  cases deps.owners[file]? with
  | none => simp
  | some owners => simp [Option.filter]

end DependencyMap

end ShaderKit
