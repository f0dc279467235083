import ShaderKit.Resource.Id

namespace ShaderKit.IdSource

/-!
# Which ids are in use

A slot is handed out again after it became free, so that the next id is a new one is a fact about
the slots in use:

* `Serves`        — every id in use has a slot of its own, and no such slot is vacant
* `next_not_live` — the next id is not in use
* `Serves.take`, `Serves.release` — handing out and taking back an id
* `Renews`        — a slot is used again under a higher version each time: what a cache relies on
* `Knows`         — besides, every id that was taken back is one of a slot that has since gone on to
                    higher versions, so it never comes again

The standalone id is never handed out.
-/

variable {ids : IdSource} {live live' : ResourceId → Prop} {id : ResourceId}

/-- The slots that became free and wait for their next use. -/
def vacantSlots (ids : IdSource) : List Nat := ids.vacant.map Prod.fst

/-- The ids in use are those that the source has handed out and not got back. -/
structure Serves (ids : IdSource) (live : ResourceId → Prop) : Prop where
  /-- An id in use is a slot that was handed out. -/
  taken : ∀ id, live id → ∃ index version, id = .slot index version ∧ index < ids.fresh ∧
    index ∉ ids.vacantSlots
  /-- A slot is in use under one version. -/
  unique : ∀ index v w, live (.slot index v) → live (.slot index w) → v = w
  /-- A vacant slot was handed out before. -/
  vacant_lt : ∀ index ∈ ids.vacantSlots, index < ids.fresh
  /-- No slot is vacant twice. -/
  nodup : ids.vacantSlots.Nodup

/-- At the start no id is in use. -/
theorem serves_start (renew : Nat → Nat) : Serves { renew } fun _ => False where
  taken := fun _ h => h.elim
  unique := fun _ _ _ h => h.elim
  vacant_lt := fun _ h => by cases h
  nodup := List.nodup_nil

/-- Which ids are in use is all that matters about them. -/
theorem Serves.congr (h : ids.Serves live) (hl : ∀ id, live' id ↔ live id) : ids.Serves live' := by
  rwa [funext fun id => propext (hl id)]

/-- **The next id is not in use.** -/
theorem Serves.next_not_live (h : ids.Serves live) : ¬ live ids.next := by
  intro hn
  obtain ⟨index, version, he, hlt, hvacant⟩ := h.taken _ hn
  unfold next at he
  split at he
  · -- The slot is vacant, and no id in use has a vacant slot.
    rename_i hv
    cases he
    exact hvacant (by simp [vacantSlots, hv])
  · -- The slot is fresh, and all slots in use lie below.
    cases he
    exact Nat.lt_irrefl _ hlt

/-- Putting to use a slot that no id in use has. -/
theorem Serves.use {other : IdSource} {index version : Nat} (h : ids.Serves live)
    (hunused : ∀ v, ¬ live (.slot index v)) (hfresh : ids.fresh ≤ other.fresh)
    (hlt : index < other.fresh)
    (hvacant : ∀ i ∈ other.vacantSlots, i ≠ index ∧ i ∈ ids.vacantSlots)
    (hnodup : other.vacantSlots.Nodup) :
    other.Serves fun id => id = .slot index version ∨ live id where
  taken := by
    rintro id (rfl | hl)
    · exact ⟨_, _, rfl, hlt, fun hm => (hvacant _ hm).1 rfl⟩
    · obtain ⟨i, v, rfl, hi, hv⟩ := h.taken id hl
      exact ⟨i, v, rfl, Nat.lt_of_lt_of_le hi hfresh, fun hm => hv (hvacant _ hm).2⟩
  unique := by
    rintro i v w (hv | hv) (hw | hw)
    · cases hv; cases hw; rfl
    · cases hv; exact (hunused w hw).elim
    · cases hw; exact (hunused v hv).elim
    · exact h.unique i v w hv hw
  vacant_lt := fun i hm => Nat.lt_of_lt_of_le (h.vacant_lt i (hvacant i hm).2) hfresh
  nodup := hnodup

/-- Handing out the next id puts it to use. -/
theorem Serves.take (h : ids.Serves live) : ids.take.Serves fun id => id = ids.next ∨ live id := by
  cases hv : ids.vacant with
  | nil =>
    have hn : ids.next = .slot ids.fresh 1 := by simp [next, hv]
    have ht : ids.take = { ids with fresh := ids.fresh + 1 } := by simp [IdSource.take, hv]
    rw [ht, hn]
    -- The new slot lies above all others.
    refine h.use ?_ (Nat.le_succ _) (Nat.lt_succ_self _) ?_ h.nodup
    · intro version hl
      obtain ⟨index, v, he, hlt, -⟩ := h.taken _ hl
      cases he
      exact Nat.lt_irrefl _ hlt
    · exact fun i hm => ⟨Nat.ne_of_lt (h.vacant_lt i hm), hm⟩
  | cons slot vacant =>
    have hn : ids.next = .slot slot.1 slot.2 := by simp [next, hv]
    have ht : ids.take = { ids with vacant } := by simp [IdSource.take, hv]
    have hslots : ids.vacantSlots = slot.1 :: vacant.map Prod.fst := by simp [vacantSlots, hv]
    have hnodup := h.nodup
    rw [hslots, List.nodup_cons] at hnodup
    rw [ht, hn]
    -- The slot that is handed out was vacant, so no version of it was in use.
    refine h.use ?_ (Nat.le_refl _) (h.vacant_lt _ (by simp [hslots])) ?_ hnodup.2
    · intro version hl
      obtain ⟨index, v, he, -, hvacant⟩ := h.taken _ hl
      cases he
      exact hvacant (by simp [hslots])
    · intro i hm
      refine ⟨?_, by rw [hslots]; exact List.mem_cons_of_mem _ hm⟩
      rintro rfl
      exact hnodup.1 hm

/-- Taking back an id in use makes its slot vacant. -/
theorem Serves.release (h : ids.Serves live) (hid : live id) :
    (ids.release id).Serves fun other => other ≠ id ∧ live other := by
  obtain ⟨index, version, rfl, hlt, hvacant⟩ := h.taken id hid
  have hslots : (ids.release (.slot index version)).vacantSlots = index :: ids.vacantSlots := rfl
  have hfresh : (ids.release (.slot index version)).fresh = ids.fresh := rfl
  constructor
  · rintro other ⟨hne, hl⟩
    obtain ⟨i, v, rfl, hi, hv⟩ := h.taken other hl
    refine ⟨i, v, rfl, hi, ?_⟩
    rw [hslots, List.mem_cons, not_or]
    refine ⟨?_, hv⟩
    -- Two ids in use with one slot are the same.
    rintro rfl
    exact hne (by rw [h.unique i v version hl hid])
  · exact fun i v w hv hw => h.unique i v w hv.2 hw.2
  · rw [hslots, hfresh]
    intro i hi
    rcases List.mem_cons.mp hi with rfl | hi
    · exact hlt
    · exact h.vacant_lt i hi
  · rw [hslots]
    exact List.nodup_cons.mpr ⟨hvacant, h.nodup⟩

/-! ### Ids that were taken back -/

variable {gone : ResourceId → Prop} {index version : Nat}

/-- A slot is used again under a higher version than before.  Versions that come round again, as numbers of
    a fixed width do in the end, are not of this kind. -/
def Renews (renew : Nat → Nat) : Prop := ∀ version, version < renew version

/-- Versions two apart. -/
theorem renews_add_two : Renews (· + 2) := fun _ => Nat.lt_add_of_pos_right (by decide)

/-- Some ids are in use and others were taken back, and none of these comes again: its slot waits for
    a higher version, or is in use under one. -/
structure Knows (ids : IdSource) (live gone : ResourceId → Prop) : Prop where
  serves : ids.Serves live
  renews : Renews ids.renew
  outdated : ∀ id, gone id → ∃ index version, id = .slot index version ∧ index < ids.fresh ∧
    (∀ w, (index, w) ∈ ids.vacant → version < w) ∧ ∀ w, live (.slot index w) → version < w

/-- At the start no id is in use and none was taken back. -/
theorem knows_start {renew : Nat → Nat} (h : Renews renew) :
    Knows { renew } (fun _ => False) fun _ => False where
  serves := serves_start renew
  renews := h
  outdated := fun _ h => h.elim

/-- Which ids are in use and which were taken back is all that matters about them. -/
theorem Knows.congr {gone' : ResourceId → Prop} (h : ids.Knows live gone)
    (hl : ∀ id, live' id ↔ live id) (hg : ∀ id, gone' id ↔ gone id) : ids.Knows live' gone' := by
  rwa [funext fun id => propext (hl id), funext fun id => propext (hg id)]

/-- **The next id never was in use.** -/
theorem Knows.next_not_gone (h : ids.Knows live gone) : ¬ gone ids.next := by
  intro hg
  obtain ⟨index, version, hnext, hlt, hvacant, -⟩ := h.outdated _ hg
  unfold next at hnext
  split at hnext
  · rename_i hv
    cases hnext
    have hself := hvacant version (by rw [hv]; exact List.mem_cons_self)
    omega
  · cases hnext
    omega

/-- Handing out does not change how versions go on. -/
@[simp] theorem renew_take : ids.take.renew = ids.renew := by
  unfold IdSource.take
  split <;> rfl

/-- Nor does taking back. -/
@[simp] theorem renew_release : (ids.release id).renew = ids.renew := by
  cases id <;> rfl

/-- Handing out the next id puts it to use, and brings none back. -/
theorem Knows.take (h : ids.Knows live gone) :
    ids.take.Knows (fun id => id = ids.next ∨ live id) gone where
  serves := h.serves.take
  renews := by
    rw [renew_take]
    exact h.renews
  outdated := by
    intro id hg
    obtain ⟨index, version, hid, hlt, hvacant, hlive⟩ := h.outdated id hg
    refine ⟨index, version, hid, ?_⟩
    cases hv : ids.vacant with
    | nil =>
      have hnext : ids.next = .slot ids.fresh 1 := by simp [next, hv]
      have htake : ids.take = { ids with fresh := ids.fresh + 1 } := by simp [IdSource.take, hv]
      rw [htake, hnext]
      refine ⟨Nat.lt_succ_of_lt hlt, hvacant, ?_⟩
      rintro w (hw | hw)
      · -- The slot is a fresh one, and older ids have lower slots.
        cases hw
        omega
      · exact hlive w hw
    | cons slot vacant =>
      have hnext : ids.next = .slot slot.1 slot.2 := by simp [next, hv]
      have htake : ids.take = { ids with vacant } := by simp [IdSource.take, hv]
      rw [htake, hnext]
      rw [hv] at hvacant
      refine ⟨hlt, fun w hw => hvacant w (List.mem_cons_of_mem _ hw), ?_⟩
      rintro w (hw | hw)
      · -- The slot was vacant, and waited for this higher version.
        cases hw
        exact hvacant slot.2 List.mem_cons_self
      · exact hlive w hw

/-- An id that is taken back is outdated from then on, with all that were taken back before. -/
theorem Knows.release (h : ids.Knows live gone) (hid : live id) :
    (ids.release id).Knows (fun other => other ≠ id ∧ live other)
      fun other => other = id ∨ gone other where
  serves := h.serves.release hid
  renews := by
    rw [renew_release]
    exact h.renews
  outdated := by
    obtain ⟨index, version, rfl, hlt, hslot⟩ := h.serves.taken id hid
    have hvacant : (ids.release (.slot index version)).vacant =
        (index, ids.renew version) :: ids.vacant := rfl
    have hfresh : (ids.release (.slot index version)).fresh = ids.fresh := rfl
    rw [hvacant, hfresh]
    rintro other (rfl | hg)
    · refine ⟨index, version, rfl, hlt, ?_, ?_⟩
      · intro w hw
        rcases List.mem_cons.mp hw with hw | hw
        · cases hw
          exact h.renews version
        · exact (hslot (List.mem_map.mpr ⟨_, hw, rfl⟩)).elim
      · rintro w ⟨hne, hw⟩
        -- The slot was in use under one version only.
        exact (hne (by rw [h.serves.unique index w version hw hid])).elim
    · obtain ⟨i, v, rfl, hi, hwait, hlive⟩ := h.outdated other hg
      refine ⟨i, v, rfl, hi, ?_, fun w hw => hlive w hw.2⟩
      intro w hw
      rcases List.mem_cons.mp hw with hw | hw
      · cases hw
        exact Nat.lt_trans (hlive version hid) (h.renews version)
      · exact hwait w hw

end ShaderKit.IdSource
