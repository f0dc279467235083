import ShaderKit.Proofs.AtomicReload
import ShaderKit.Proofs.Faithful

namespace ShaderKit

open Std (ExtTreeMap)

/-!
# Shaders do not interfere

All shaders of a cache share one dependency map and one ledger.  The slot of a released shader is used
again, and the released shader ends at some later moment, when its last holder lets go of it.  None of
this shows in the shaders that a call does not concern:

* `Turned.lookup_iff`  — what a call leaves alone in the look-up
* `WellMade.next_undisturbed` — what it leaves alone altogether
* `bystander_unchanged` — the same for a run of calls
-/

namespace Cache

variable {cache t : Cache} {id : ResourceId} {entry : CacheEntry} {key key' : ResourceKey}
  {events : List Event}

/-! ### The look-up -/

/-- A request leaves the look-up of what is in the table alone. -/
theorem Asked.lookup_iff {ending : Ending ResourceId} (ha : Asked cache key ending t)
    (hsound : cache.table.poisoned = false) (he : cache.table.value[id]? = some entry)
    (hnext : id ≠ cache.ids.next) : t.lookup[key']? = some id ↔ cache.lookup[key']? = some id := by
  cases ha with
  | found _ => rfl
  | created unknown creating =>
    cases creating with
    | refused _ => rfl
    | broken _ => rfl
    | half same => rw [same.lookup]; rfl
    | discarded same _ forgotten =>
      rw [forgotten.lookup, lookup_without, and_iff_left hnext, same.lookup]
      rfl
    | loaded same _ =>
      rw [lookup_enlist, same.lookup, or_iff_right fun h => hnext h.2.symm]
      show _ ∧ cache.lookup[key']? = some id ↔ _
      -- The key was free, since what is in the table and in the look-up is found.
      refine and_iff_right_of_imp fun hid => ?_
      rintro rfl
      rw [find?_eq_some.mpr ⟨hid, entry, entry?_eq_some.mpr ⟨hsound, he⟩⟩] at unknown
      cases unknown

/-- **The look-up.**  A call leaves the look-up of what is in the table alone, a release of it apart. -/
theorem Turned.lookup_iff {calm : Prop} (ht : Turned cache calm events t)
    (hsound : cache.table.poisoned = false) (he : cache.table.value[id]? = some entry)
    (hnext : id ≠ cache.ids.next) (hevents : .released id ∉ events) :
    t.lookup[key]? = some id ↔ cache.lookup[key]? = some id := by
  cases ht with
  | got asked held =>
    rw [held.lookup]
    exact asked.lookup_iff hsound he hnext
  | refused asked _ _ => exact asked.lookup_iff hsound he hnext
  | released released =>
    have hne : id ≠ _ := fun h => hevents (List.mem_singleton.mpr (congrArg Event.released h))
    cases released with
    | unknown _ => rfl
    | released _ _ forgotten => rw [forgotten.lookup, lookup_without, and_iff_left hne]
  | kept same => rw [same.lookup]

/-- What a call takes out of a cache it concerns. -/
theorem concerns_of_released {call : Call} (h : .released id ∈ call.events cache) :
    call.op.Concerns cache id := by
  rcases call with ⟨op, services, j⟩
  cases op with
  | release other => exact (Event.released.inj (List.mem_singleton.mp h)).symm
  | request key =>
    unfold Call.events at h
    dsimp only at h
    split at h <;> simp at h
  | _ => exact (List.not_mem_nil h).elim

/-! ### Runs -/

/-- **The step.**  A call leaves alone what it does not concern. -/
theorem WellMade.next_undisturbed (h : cache.WellMade) {call : Call}
    (he : cache.table.value[id]? = some entry) (hop : ¬ call.op.Concerns cache id) :
    Undisturbed id cache (call.next cache) ∧
      ∀ key : ResourceKey, (call.next cache).lookup[key]? = some id ↔ cache.lookup[key]? = some id := by
  have hnext : id ≠ cache.ids.next := by
    rintro rfl
    exact h.ids.next_not_live (mem_table_of_entry he)
  refine ⟨h.faithful.next_undisturbed (h.call_faithful call) hnext he hop, fun key => ?_⟩
  have hturned := turned_next h.faithful.discreet (discreet_of_faithful (h.call_faithful call))
  exact hturned.lookup_iff h.sound he hnext fun hr => hop (concerns_of_released hr)

/-- **Shaders do not interfere.**  Take a cache of shaders in any state that calls lead to, and a
    shader of its table.  Over any run of calls that are not aimed at it, with any collaborators and
    whatever the calls end in, its entry stays the same: its texts, its variations with their states,
    its guard.  So do the keys under which it is looked up and found, the files it depends on and its
    memory figure.  The other shaders may be made, reloaded and released, change or end meanwhile,
    those included whose slot it has taken over. -/
theorem bystander_unchanged {config : Config} {graphics : Bool} {fingerprint : String → Fingerprint}
    (h : Reached (fun _ _ => True) (ofShaders config graphics fingerprint) cache)
    (he : cache.table.value[id]? = some entry)
    (later : Reached (fun cache call => ¬ call.op.Concerns cache id) cache t) :
    t.table.value[id]? = some entry ∧
    (∀ key : ResourceKey, t.lookup[key]? = some id ↔ cache.lookup[key]? = some id) ∧
    (∀ key, t.find? key = some id ↔ cache.find? key = some id) ∧
    t.books.dependencies.dependenciesOf id = cache.books.dependencies.dependenciesOf id ∧
    t.books.memory.get id = cache.books.memory.get id := by
  have hcache := h.wellMade (wellMade_ofShaders config graphics fingerprint)
  have hrun : Undisturbed id cache t ∧
      ∀ key : ResourceKey, t.lookup[key]? = some id ↔ cache.lookup[key]? = some id := by
    induction later with
    | start => exact ⟨.refl, fun _ => Iff.rfl⟩
    | call before call ok ih =>
      obtain ⟨hstill, hlookup⟩ := ih
      have hstep := (before.wellMade hcache).next_undisturbed (hstill.table.trans he) ok
      exact ⟨hstill.trans hstep.1, fun key => (hstep.2 key).trans (hlookup key)⟩
  obtain ⟨hstill, hlookup⟩ := hrun
  have he' : t.table.value[id]? = some entry := hstill.table.trans he
  have hfind {s : Cache} (hs : s.WellMade) (hes : s.table.value[id]? = some entry)
      (key : ResourceKey) : s.find? key = some id ↔ s.lookup[key]? = some id := by
    rw [find?_eq_some, hs.entry?_eq, hes]
    simp
  refine ⟨he', hlookup, fun key => ?_, DependencyMap.dependenciesOf_congr hstill.depends, ?_⟩
  · rw [hfind (later.wellMade hcache) he', hfind hcache he, hlookup key]
  · rw [MemoryLedger.get, MemoryLedger.get, ExtTreeMap.getD_eq_getD_getElem?,
      ExtTreeMap.getD_eq_getD_getElem?, hstill.size]

/-- A shader in the slot of another one, which was released but is still held.  It has dependencies and
    a compiled variation. -/
def takenOver : Cache :=
  let services : Services := { files := nestedFiles.read }
  let requesting : Call := { op := .request ⟨Shader.typeName, "a"⟩, services }
  let first := requesting.next (ofShaders {} true fun _ => {})
  let second := requesting.next ((Call.mk (.release (.slot 1 1)) services {}).next first)
  (Call.mk (.onShader (.slot 1 3) (.prepare .vertex "")) services {}).next second

/-- A load by which the holder of the released shader registers files for it again. -/
def lateLoad : Call where
  op := .onShader (.slot 1 1) (.load (.ofText "a" "#include \"b\"\n"))
  services := { files := nestedFiles.read }

/-- The released shader is loaded once more and then let go, which clears its dependencies and no
    others. -/
theorem bystander_unchanged_taken_over :
    let loaded := lateLoad.next takenOver
    let t := (Call.mk (.letGo (.slot 1 1)) {} {}).next loaded
    loaded.books.dependencies.dependents "b" = [.slot 1 1, .slot 1 3] ∧
      t.books.dependencies.dependents "b" = [.slot 1 3] ∧
      t.table.value[ResourceId.slot 1 3]? = takenOver.table.value[ResourceId.slot 1 3]? ∧
      t.find? ⟨Shader.typeName, "a"⟩ = some (.slot 1 3) ∧
      t.books.dependencies.dependenciesOf (.slot 1 3) = ["b", "c"] := by
  intro loaded t
  have hreached : Reached (fun _ _ => True) (ofShaders {} true fun _ => {}) takenOver :=
    .call (.call (.call (.call .start _ trivial) _ trivial) _ trivial) _ trivial
  obtain ⟨entry, he⟩ : ∃ entry, takenOver.table.value[ResourceId.slot 1 3]? = some entry :=
    Option.isSome_iff_exists.mp (by decide +kernel)
  have hlater : Reached (fun cache call => ¬ call.op.Concerns cache (.slot 1 3)) takenOver t :=
    .call (.call .start lateLoad (by simp [lateLoad, CacheOp.Concerns])) _ (by simp [CacheOp.Concerns])
  obtain ⟨hentry, -, hfind, hdeps, -⟩ := bystander_unchanged hreached he hlater
  have hfound : takenOver.find? ⟨Shader.typeName, "a"⟩ = some (.slot 1 3) := by decide +kernel
  have hbefore : takenOver.books.dependencies.dependenciesOf (.slot 1 3) = ["b", "c"] := by
    decide +kernel
  exact ⟨by decide +kernel, by decide +kernel, hentry.trans he.symm, (hfind _).mpr hfound,
    hdeps.trans hbefore⟩

end Cache

end ShaderKit
