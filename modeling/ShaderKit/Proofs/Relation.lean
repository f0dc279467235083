import Mathlib.Data.Finset.Card
import Mathlib.Data.Finset.Image
import ShaderKit.Proofs.ByteOrder
import ShaderKit.Proofs.Dependencies

namespace ShaderKit.DependencyMap

open Std (ExtTreeMap ExtTreeSet)

/-!
# A dependency map is a set of pairs

A dependency map is indexed by file, and what it says about an owner is gathered from all its files.  Yet it is
nothing but a set of pairs of an owner and a file, to which a pair is added at a time, and from which all pairs of
an owner are taken:

* `Change`        — what is done to a dependency map
* `Refines`       — the map says what a set of pairs says, and keeps no file without an owner
* `Refines.apply` — one change of both
* `refines_after` — a run of changes
* `nodup_dependents`, `sorted_dependenciesOf`, `Refines.fileCount_eq` — both directions of the relation, and the
  count of its files
* `dependencies_are_pairs` — after any changes
-/

/-! ### Changes -/

/-- What is done to a dependency map. -/
inductive Change where
  | register (owner : ResourceId) (file : String)
  | clear (owner : ResourceId)
  deriving DecidableEq, Repr

/-- Carries out a change of a map. -/
def Change.apply : Change → DependencyMap → DependencyMap
  | register owner file, deps => deps.register owner file
  | clear owner, deps => deps.clear owner

/-- The pairs after a change. -/
def Change.pairs : Change → Finset (ResourceId × String) → Finset (ResourceId × String)
  | register owner file, pairs => insert (owner, file) pairs
  | clear owner, pairs => pairs.filter (·.1 ≠ owner)

/-- The map that changes lead to. -/
def after (changes : List Change) : DependencyMap :=
  changes.foldl (fun deps change => change.apply deps) {}

/-- The pairs that changes lead to. -/
def pairsAfter (changes : List Change) : Finset (ResourceId × String) :=
  changes.foldl (fun pairs change => change.pairs pairs) ∅

/-- The map says what the pairs say, and keeps no file without an owner. -/
structure Refines (deps : DependencyMap) (pairs : Finset (ResourceId × String)) : Prop where
  depends : ∀ owner file, deps.Depends owner file ↔ (owner, file) ∈ pairs
  pruned : deps.Pruned

variable {deps : DependencyMap} {pairs : Finset (ResourceId × String)} {owner : ResourceId} {file : String}

theorem refines_empty : Refines {} ∅ where
  depends := by simp [Depends, ownersOf]
  pruned := pruned_empty

/-- **The step.** -/
theorem Refines.apply (h : deps.Refines pairs) (change : Change) :
    (change.apply deps).Refines (change.pairs pairs) := by
  cases change with
  | register owner file =>
    refine ⟨fun id name => ?_, h.pruned.register owner file⟩
    rw [Change.apply, Change.pairs, depends_register, h.depends, Finset.mem_insert, Prod.mk.injEq]
  | clear owner =>
    refine ⟨fun id name => ?_, pruned_clear deps owner⟩
    rw [Change.apply, Change.pairs, depends_clear, h.depends, Finset.mem_filter, and_comm]

/-- **The run.** -/
theorem Refines.foldl (h : deps.Refines pairs) (changes : List Change) :
    (changes.foldl (fun deps change => change.apply deps) deps).Refines
      (changes.foldl (fun pairs change => change.pairs pairs) pairs) := by
  induction changes generalizing deps pairs with
  | nil => exact h
  | cons change changes ih => exact ih (h.apply change)

theorem refines_after (changes : List Change) : (after changes).Refines (pairsAfter changes) :=
  refines_empty.foldl changes

/-! ### Both directions -/

theorem nodup_dependents (deps : DependencyMap) (file : String) : (deps.dependents file).Nodup :=
  ExtTreeSet.distinct_toList.imp fun hne heq => hne (Std.compare_eq_iff_eq.mpr heq)

/-- The files of an owner are listed in the order of their bytes. -/
theorem sorted_dependenciesOf (deps : DependencyMap) (owner : ResourceId) :
    (deps.dependenciesOf owner).Pairwise fun a b => Text.bytes a < Text.bytes b := by
  have hordered : (deps.dependenciesOf owner).Pairwise fun a b => compare a b = .lt :=
    ExtTreeMap.ordered_keys
  exact hordered.imp fun hlt => Text.bytes_lt_bytes.mpr (compareOfLessAndEq_eq_lt.mp hlt)

/-- The files that are kept are those with an owner, so they may be counted in the pairs. -/
theorem Refines.fileCount_eq (h : deps.Refines pairs) : deps.fileCount = (pairs.image Prod.snd).card := by
  have hkept : deps.owners.keys.toFinset = pairs.image Prod.snd := by
    ext file
    have hnone : file ∉ deps.owners ↔ ∀ owner, ¬ deps.Depends owner file := by
      rw [← h.pruned.getElem?_eq_none_iff, ← ExtTreeMap.isSome_getElem?_iff_mem,
        Option.not_isSome_iff_eq_none]
    rw [List.mem_toFinset, ExtTreeMap.mem_keys, ← not_iff_not, hnone]
    simp [h.depends]
  rw [fileCount, ← ExtTreeMap.length_keys, ← hkept, List.toFinset_card_of_nodup ExtTreeMap.nodup_keys]

/-- What an owner depended on gives back the map after the owner was cleared. -/
theorem Pruned.registerAll_clear (h : deps.Pruned) (owner : ResourceId) :
    (deps.clear owner).registerAll owner (deps.dependenciesOf owner) = deps := by
  have hrestored := restore h owner []
  rwa [registerAll_nil, clear_clear] at hrestored

theorem foldl_register (deps : DependencyMap) (owner : ResourceId) (files : List String) :
    (files.map (Change.register owner)).foldl (fun deps change => change.apply deps) deps =
      deps.registerAll owner files :=
  List.foldl_map

/-- **A dependency map is a set of pairs.**  After any changes from an empty map on, the dependents of a file are
    the owners paired with it, each of them once; the dependencies of an owner are the files paired with it, in
    strictly ascending order of their bytes; the count of files is that of the files in any pair, as no file is kept
    without an owner; and clearing an owner and registering again what it depended on gives back the map. -/
theorem dependencies_are_pairs (changes : List Change) :
    let deps := after changes
    let pairs := pairsAfter changes
    (∀ file, (deps.dependents file).Nodup ∧ ∀ owner, owner ∈ deps.dependents file ↔ (owner, file) ∈ pairs) ∧
      (∀ owner, ((deps.dependenciesOf owner).Pairwise fun a b => Text.bytes a < Text.bytes b) ∧
        ∀ file, file ∈ deps.dependenciesOf owner ↔ (owner, file) ∈ pairs) ∧
      deps.Pruned ∧ deps.fileCount = (pairs.image Prod.snd).card ∧
      ∀ owner,
        let restoring := .clear owner :: (deps.dependenciesOf owner).map (.register owner)
        after (changes ++ restoring) = deps ∧ pairsAfter (changes ++ restoring) = pairs := by
  intro deps pairs
  have h : deps.Refines pairs := refines_after changes
  refine ⟨fun file => ⟨nodup_dependents deps file, fun owner => ?_⟩,
    fun owner => ⟨sorted_dependenciesOf deps owner, fun file => ?_⟩, h.pruned, h.fileCount_eq,
    fun owner => ?_⟩
  · rw [mem_dependents, h.depends]
  · rw [mem_dependenciesOf, h.depends]
  · intro restoring
    have hrestored : after (changes ++ restoring) = deps := by
      rw [after, List.foldl_append, List.foldl_cons, foldl_register]
      exact h.pruned.registerAll_clear owner
    -- The pairs are those of the map, before and after.
    have hpairs : deps.Refines (pairsAfter (changes ++ restoring)) := hrestored ▸ refines_after _
    refine ⟨hrestored, Finset.ext fun ⟨id, file⟩ => ?_⟩
    rw [← hpairs.depends, h.depends]

end ShaderKit.DependencyMap
