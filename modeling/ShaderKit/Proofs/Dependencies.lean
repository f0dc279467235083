import Mathlib.Tactic.Tauto
import ShaderKit.Resource.DependencyMap

namespace ShaderKit.DependencyMap

open Std (ExtTreeMap ExtTreeSet)

/-!
# Dependencies as a relation

A dependency map keeps, for each file, the resources that depend on it.  As long as no file is kept
without a resource (`Pruned`), the map is nothing but the relation `Depends`:

* `Pruned`                — no file is kept that nothing depends on; every operation preserves it
* `eq_of_depends_iff`     — pruned maps with the same relation are equal
* `dependenciesOf_congr`  — the files of an owner are told by the relation alone
* `depends_registerAll`   — registering a list of files adds one pair for each
* `restore`               — clearing an owner, whatever was registered for it since, and registering
                            again what it depended on gives back the map itself
-/

variable {deps other : DependencyMap} {owner id : ResourceId} {file name : String}
  {files : List String}

/-- No file is kept that nothing depends on. -/
def Pruned (deps : DependencyMap) : Prop :=
  ∀ file : String, deps.owners[file]? ≠ some (∅ : ExtTreeSet ResourceId)

theorem pruned_empty : Pruned {} := by
  intro file
  simp

theorem Pruned.register (h : deps.Pruned) (owner : ResourceId) (file : String) :
    (deps.register owner file).Pruned := by
  intro name
  rw [DependencyMap.register, ExtTreeMap.getElem?_insert]
  split
  · intro he
    have hm : owner ∈ (deps.ownersOf file).insert owner := ExtTreeSet.mem_insert_self
    rw [Option.some.inj he] at hm
    exact ExtTreeSet.not_mem_empty hm
  · exact h name

theorem Pruned.registerAll (h : deps.Pruned) (owner : ResourceId) (files : List String) :
    (deps.registerAll owner files).Pruned := by
  induction files generalizing deps with
  | nil => exact h
  | cons file files ih => exact ih (h.register owner file)

/-- Clearing prunes, whatever the map was before. -/
theorem pruned_clear (deps : DependencyMap) (owner : ResourceId) : (deps.clear owner).Pruned := by
  intro name he
  rw [DependencyMap.clear, ExtTreeMap.getElem?_filterMap'] at he
  obtain ⟨owners, -, hs⟩ := Option.bind_eq_some_iff.mp he
  dsimp only at hs
  split at hs
  · cases hs
  · rename_i hne
    exact hne (by rw [Option.some.inj hs]; exact ExtTreeSet.isEmpty_empty)

/-- A file is kept in a pruned map exactly when something depends on it. -/
theorem Pruned.getElem?_eq_none_iff (h : deps.Pruned) :
    deps.owners[file]? = none ↔ ∀ id, ¬ deps.Depends id file := by
  unfold Depends ownersOf
  rw [ExtTreeMap.getD_eq_getD_getElem?]
  constructor
  · intro hn id
    rw [hn]
    exact ExtTreeSet.not_mem_empty
  · intro hd
    cases ho : deps.owners[file]? with
    | none => rfl
    | some owners =>
      rw [ho] at hd
      have he : owners = ∅ := ExtTreeSet.ext_mem fun id => by simpa using hd id
      exact absurd (he ▸ ho) (h file)

/-- **A pruned map is its relation.** -/
theorem eq_of_depends_iff (h : deps.Pruned) (ho : other.Pruned)
    (hd : ∀ id file, deps.Depends id file ↔ other.Depends id file) : deps = other := by
  have hall : deps.owners = other.owners := by
    refine ExtTreeMap.ext_getElem? fun file => ?_
    cases hf : deps.owners[file]? with
    | none =>
      -- Nothing depends on the file, so neither map keeps it.
      have hn := h.getElem?_eq_none_iff.mp hf
      exact (ho.getElem?_eq_none_iff.mpr fun id hid => hn id ((hd id file).mpr hid)).symm
    | some owners =>
      cases hf' : other.owners[file]? with
      | none =>
        have hn := ho.getElem?_eq_none_iff.mp hf'
        have := h.getElem?_eq_none_iff.mpr fun id hid => hn id ((hd id file).mp hid)
        rw [hf] at this
        cases this
      | some owners' =>
        refine congrArg some (ExtTreeSet.ext_mem fun id => ?_)
        have hid := hd id file
        simpa [Depends, ownersOf, ExtTreeMap.getD_eq_getD_getElem?, hf, hf'] using hid
  cases deps
  cases other
  exact congrArg _ hall

/-- The files of an owner are listed in order, so the relation decides the list. -/
theorem dependenciesOf_congr
    (h : ∀ name, deps.Depends owner name ↔ other.Depends owner name) :
    deps.dependenciesOf owner = other.dependenciesOf owner := by
  have hperm : (deps.dependenciesOf owner).Perm (other.dependenciesOf owner) := by
    refine (List.perm_ext_iff_of_nodup ExtTreeMap.nodup_keys ExtTreeMap.nodup_keys).mpr fun name => ?_
    exact mem_dependenciesOf.trans ((h name).trans mem_dependenciesOf.symm)
  refine hperm.eq_of_pairwise ?_ ExtTreeMap.ordered_keys ExtTreeMap.ordered_keys
  intro a b _ _ hab hba
  exact (Std.OrientedCmp.not_lt_of_lt hab hba).elim

/-! ### Registering many files -/

@[simp] theorem registerAll_nil : deps.registerAll owner [] = deps := rfl

@[simp] theorem registerAll_cons :
    deps.registerAll owner (file :: files) = (deps.register owner file).registerAll owner files := rfl

/-- Registering a list of files adds one pair for each. -/
theorem depends_registerAll :
    (deps.registerAll owner files).Depends id name ↔
      id = owner ∧ name ∈ files ∨ deps.Depends id name := by
  induction files generalizing deps with
  | nil => simp
  | cons file files ih =>
    rw [registerAll_cons, ih, depends_register, List.mem_cons]
    tauto

/-- Registering concerns the owner alone. -/
theorem depends_registerAll_of_ne (h : id ≠ owner) :
    (deps.registerAll owner files).Depends id name ↔ deps.Depends id name := by
  simp [depends_registerAll, h]

/-- After clearing, an owner depends on what is registered for it, and on nothing else. -/
theorem depends_registerAll_clear_self :
    ((deps.clear owner).registerAll owner files).Depends owner name ↔ name ∈ files := by
  simp [depends_registerAll, depends_clear]

/-- Clearing an owner and registering files for it concerns the owner alone. -/
theorem depends_registerAll_clear_of_ne (h : id ≠ owner) :
    ((deps.clear owner).registerAll owner files).Depends id name ↔ deps.Depends id name := by
  simp [depends_registerAll, depends_clear, h]

/-- Clearing an owner again changes nothing. -/
theorem clear_clear : (deps.clear owner).clear owner = deps.clear owner := by
  refine eq_of_depends_iff (pruned_clear _ _) (pruned_clear _ _) fun id name => ?_
  rw [depends_clear, depends_clear]
  exact and_iff_right_of_imp And.left

/-- Clearing takes back what was registered for an owner who had nothing. -/
theorem clear_registerAll (h : deps.Pruned) (hnone : ∀ name, ¬ deps.Depends owner name)
    (files : List String) : (deps.registerAll owner files).clear owner = deps := by
  refine eq_of_depends_iff (pruned_clear _ _) h fun id name => ?_
  rw [depends_clear]
  constructor
  · rintro ⟨hne, hd⟩
    exact (depends_registerAll_of_ne hne).mp hd
  · intro hd
    have hne : id ≠ owner := by
      rintro rfl
      exact hnone name hd
    exact ⟨hne, (depends_registerAll_of_ne hne).mpr hd⟩

/-- **Restoring.**  Whatever was registered for an owner since it was cleared, clearing it again and
    registering what it depended on before gives back the map. -/
theorem restore (h : deps.Pruned) (owner : ResourceId) (files : List String) :
    (((deps.clear owner).registerAll owner files).clear owner).registerAll owner
      (deps.dependenciesOf owner) = deps := by
  refine eq_of_depends_iff ((pruned_clear _ _).registerAll _ _) h fun id name => ?_
  -- All that happened in between concerns the owner, who has its old files again.
  by_cases hid : id = owner
  · subst hid
    rw [depends_registerAll_clear_self, mem_dependenciesOf]
  · rw [depends_registerAll_clear_of_ne hid, depends_registerAll_clear_of_ne hid]

end ShaderKit.DependencyMap
