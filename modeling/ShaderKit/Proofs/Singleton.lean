import Mathlib.Data.List.Induction
import ShaderKit.Engine
import ShaderKit.Proofs.Alike

namespace ShaderKit

open ShaderKit.Action

/-!
# One cache at a time

Any part of a program may call the engine, under loggers that break down over any entry.  Some calls speak while
they hold the cell of the cache, so a call may be cut short after it has changed the cell, and then no later call
gets hold of it.  What the cell holds is told by the calls alone:

* `Engine.Call`, `Engine.Turn` — what the engine is asked for, and by which logger it is heard
* `Engine.Deed`, `Engine.deeds` — a call with the engine before and after it, and those of a run
* `Engine.Answered`        — the outcomes of a call
* `Deed.Stores`, `Deed.Clears`, `Deed.CutShort` — the calls that matter to the cell
* `LastStored`             — a cache was stored, and since then nothing was stored or cleared
* `Told.next`              — each call keeps the engine in step with the calls so far
* `one_cache_at_a_time`    — what a run of calls can bring about
-/

/-- The value at the end, if there is one. -/
def Ending.value? {α : Type} : Ending α → Option α
  | done a => some a
  | failed _ | unwound _ => none

/-- Where there is no value, there is none to map. -/
theorem Ending.value?_map {α β : Type} {f : α → β} {ending : Ending α} (h : ending.value? = none) :
    (ending.map f).value? = none := by
  cases ending with
  | done a => cases h
  | failed error => rfl
  | unwound reason => rfl

/-- A reported error leaves no value, whether or not the logger breaks down over it. -/
theorem Action.ensures_report_nothing {σ α : Type} {services : Services} {s : σ} {j : Journal}
    {source : String} {error : Error} {post : Ending α → σ → Journal → Prop}
    (h : ∀ ending j', ending.value? = none → post ending s j') :
    (report source error : Action σ α).Ensures services post s j :=
  ensures_report (fun j' _ => h (.failed error) j' rfl) fun reason j' _ => h (.unwound reason) j' rfl

namespace Engine

variable {κ α : Type}

/-! ### Calls -/

/-- What a program asks of the engine. -/
inductive Call (κ : Type) where
  | start
  | create (cache : κ)
  | look
  | destroy
  | shutdown
  | setLogger (logger : Logger)
  | resetLogger (time : String)

/-- Carries out what the engine is asked for: the cache that it answers with, if it does. -/
def Call.act : Call κ → Action (Engine κ) (Option κ)
  | start => (fun _ => none) <$> modify Engine.start
  | create cache => some <$> createCache cache
  | look => some <$> Engine.cache
  | destroy => (fun _ => none) <$> destroyCache
  | shutdown => (fun _ => none) <$> modify Engine.shutdown
  | setLogger logger => (fun _ => none) <$> modify (Engine.setLogger · logger)
  | resetLogger time => (fun _ => none) <$> modify (Engine.resetLogger · time)

/-- The call works on the cell of the cache, and reports an error if it cannot. -/
def Call.needsCell : Call κ → Bool
  | create _ | look | destroy => true
  | start | shutdown | setLogger _ | resetLogger _ => false

/-- A call, with what has become of the installed logger since the call before: it may have a state of its own, and
    take later entries in another way. -/
structure Turn (κ : Type) where
  call : Call κ
  mood : Logger → Logger := id

/-- A call that was made, with the engine before and after it. -/
structure Deed (κ : Type) where
  call : Call κ
  before : Engine κ
  ending : Ending (Option κ)
  after : Engine κ

/-- The calls of a run, which are heard by the logger of the engine. -/
def deeds (engine : Engine κ) (journal : Journal) : List (Turn κ) → List (Deed κ)
  | [] => []
  | turn :: turns =>
    let before := engine.setLogger (turn.mood engine.logger)
    let out := turn.call.act.run { logger := before.logger } before journal
    { call := turn.call, before, ending := out.ending, after := out.state } ::
      deeds out.state out.journal turns

/-! ### What a call does -/

variable {engine : Engine κ} {services : Services} {j : Journal} {call : Call κ} {ending : Ending (Option κ)}

/-- The engine is started, and the cell of the cache is sound. -/
structure Open (engine : Engine κ) : Prop where
  started : engine.started = true
  sound : engine.cell.poisoned = false

/-- The engine with another cell. -/
def withCell (engine : Engine κ) (value : Option κ) (poisoned : Bool) : Engine κ :=
  { engine with cell := { value, poisoned } }

/-- The outcomes of a call.  Whoever is cut short with the cell in hand poisons it. -/
inductive Answered (engine : Engine κ) : Call κ → Ending (Option κ) → Engine κ → Prop where
  | start : Answered engine .start (.done none) engine.start
  | shutdown : Answered engine .shutdown (.done none) engine.shutdown
  | setLogger (logger : Logger) :
    Answered engine (.setLogger logger) (.done none) (engine.setLogger logger)
  | resetLogger (time : String) :
    Answered engine (.resetLogger time) (.done none) (engine.resetLogger time)
  /-- There is no cell to work on. -/
  | barred {call : Call κ} {ending : Ending (Option κ)} (needs : call.needsCell = true)
    (closed : ¬ engine.Open) (nothing : ending.value? = none) : Answered engine call ending engine
  | found {cache : κ} (ready : engine.Open) (held : engine.cell.value = some cache) :
    Answered engine .look (.done (some cache)) engine
  | missing {ending : Ending (Option κ)} (ready : engine.Open) (empty : engine.cell.value = none)
    (nothing : ending.value? = none) : Answered engine .look ending engine
  | occupied {cache : κ} {other : κ} {ending : Ending (Option κ)} (ready : engine.Open)
    (held : engine.cell.value = some other) (nothing : ending.value? = none) :
    Answered engine (.create cache) ending (engine.withCell (some other) ending.isUnwound)
  | stored {cache : κ} {ending : Ending (Option κ)} (ready : engine.Open)
    (empty : engine.cell.value = none) (done : ending.isUnwound = false → ending = .done (some cache)) :
    Answered engine (.create cache) ending (engine.withCell (some cache) ending.isUnwound)
  | destroyed {ending : Ending (Option κ)} (ready : engine.Open)
    (done : ending.isUnwound = false → ending = .done none) :
    Answered engine .destroy ending (engine.withCell none ending.isUnwound)

/-- Those who find the engine open go on to the cell.  Others get an error, or the logger breaks down over it;
    nobody holds the cell then. -/
theorem ensures_requireCell {next : Unit → Action (Engine κ) α} {post : Ending α → Engine κ → Journal → Prop}
    (ready : engine.Open → (next ()).Ensures services post engine j)
    (barred : ¬ engine.Open → ∀ ending j', ending.value? = none → post ending engine j') :
    (requireCell >>= next).Ensures services post engine j := by
  have hreport (error : Error) (hclosed : ¬ engine.Open) : (report source error).Ensures services
      (After next services post) engine j :=
    ensures_report (fun j' _ => barred hclosed (.failed error) j' rfl)
      fun reason j' _ => barred hclosed (.unwound reason) j' rfl
  unfold requireCell
  simp only [ensures_bind, ensures_get, after_done]
  by_cases hstarted : engine.started = true
  rotate_left
  · rw [if_neg hstarted, report_bind]
    exact hreport _ fun hopen => hstarted hopen.started
  rw [if_pos hstarted]
  by_cases hpoisoned : engine.cell.poisoned = true
  · rw [if_pos hpoisoned]
    exact hreport _ fun hopen => Bool.eq_false_iff.mp hopen.sound hpoisoned
  · rw [if_neg hpoisoned]
    exact ready ⟨hstarted, by simpa using hpoisoned⟩

/-- Work on a sound cell: a breakdown poisons it. -/
theorem ensures_holdCell (h : engine.cell.poisoned = false) {act : Action (Option κ) α}
    {post : Ending α → Engine κ → Journal → Prop} :
    (holdCell act).Ensures services post engine j ↔ act.Ensures services (fun ending value =>
      post ending (engine.withCell value ending.isUnwound)) engine.cell.value j := by
  rw [holdCell, ensures_focus, Guarded.hold, ensures_onUnwind, ensures_focus]
  unfold Ensures withCell
  cases (act.run services engine.cell.value j).ending <;> simp [Ending.isUnwound, Guarded.put, Guarded.poison, h]

/-- A sound cell may be put back as it is. -/
theorem withCell_self {value : Option κ} (h : engine.cell.poisoned = false) (hvalue : engine.cell.value = value) :
    engine.withCell value false = engine := by
  subst hvalue
  rw [withCell, ← h]

/-- The outcomes of creating a cache. -/
theorem ensures_createCache {cache : κ} : (createCache cache).Ensures services
    (fun ending t _ => Answered engine (.create cache) (ending.map some) t) engine j := by
  refine ensures_requireCell (fun hopen => ?_) fun hclosed ending _ hnothing => ?_
  · rw [ensures_holdCell hopen.sound, ensures_bind, ensures_get, after_done]
    cases hvalue : engine.cell.value with
    | some other =>
      -- The cell is in use, and it stays as it is.
      rw [Option.isSome_some, if_pos rfl, report_bind]
      refine ensures_report_nothing fun ending _ hnothing => ?_
      rw [← Ending.isUnwound_map some]
      exact .occupied hopen hvalue (Ending.value?_map hnothing)
    | none =>
      -- The cache is stored before the logger hears of it.
      simp only [Option.isSome_none, Bool.false_eq_true, if_false, ensures_bind, ensures_set, after_done]
      refine ensures_say (fun _ _ => ?_) fun reason _ _ => ?_
      · exact .stored hopen hvalue fun _ => rfl
      · exact .stored hopen hvalue fun h => by cases h
  · exact .barred rfl hclosed (Ending.value?_map hnothing)

/-- The outcomes of looking for the cache. -/
theorem ensures_cache : Engine.cache.Ensures services
    (fun ending t _ => Answered engine .look (ending.map some) t) engine j := by
  refine ensures_requireCell (fun hopen => ?_) fun hclosed ending _ hnothing => ?_
  · rw [ensures_bind, ensures_get, after_done]
    cases hvalue : engine.cell.value with
    | some cache => exact .found hopen hvalue
    | none => exact ensures_report_nothing fun ending _ hnothing =>
        .missing hopen hvalue (Ending.value?_map hnothing)
  · exact .barred rfl hclosed (Ending.value?_map hnothing)

/-- The outcomes of destroying the cache. -/
theorem ensures_destroyCache : destroyCache.Ensures services
    (fun ending t _ => Answered engine .destroy (ending.map fun _ => none) t) engine j := by
  refine ensures_requireCell (fun hopen => ?_) fun hclosed ending _ hnothing => ?_
  · rw [ensures_holdCell hopen.sound, ensures_bind, ensures_set, after_done]
    refine ensures_say (fun _ _ => ?_) fun reason _ _ => ?_
    · exact .destroyed hopen fun _ => rfl
    · exact .destroyed hopen fun h => by cases h
  · exact .barred rfl hclosed (Ending.value?_map hnothing)

/-- **A call has no other outcomes.** -/
theorem ensures_act (call : Call κ) :
    call.act.Ensures services (fun ending t _ => Answered engine call ending t) engine j := by
  cases call with
  | start => exact .start
  | create cache => exact ensures_map.mpr ensures_createCache
  | look => exact ensures_map.mpr ensures_cache
  | destroy => exact ensures_map.mpr ensures_destroyCache
  | shutdown => exact .shutdown
  | setLogger logger => exact .setLogger logger
  | resetLogger time => exact .resetLogger time

/-! ### The calls that matter to the cell -/

namespace Deed

variable {deed : Deed κ} {cache : κ}

/-- The call returned that it has shared this cache. -/
def Creates (deed : Deed κ) (cache : κ) : Prop :=
  deed.call = .create cache ∧ deed.ending = .done (some cache)

/-- The call put this cache into the empty cell. -/
def Stores (deed : Deed κ) (cache : κ) : Prop :=
  deed.call = .create cache ∧ deed.before.cell.value = none ∧ deed.after.cell.value = some cache

/-- The call was made to drop the cache, and the cell is empty after it. -/
def Clears (deed : Deed κ) : Prop :=
  (deed.call = .destroy ∨ deed.call = .shutdown) ∧ deed.after.cell.value = none

/-- The call was cut short by a breakdown, while it might change the cell. -/
def CutShort (deed : Deed κ) : Prop :=
  ((∃ cache, deed.call = .create cache) ∨ deed.call = .destroy) ∧ deed.before.started = true ∧
    deed.ending.isUnwound = true

end Deed

namespace Answered

variable {after : Engine κ} {cache : κ}

/-- A call that returned that it has shared a cache has stored it. -/
theorem stores (h : engine.Answered call ending after)
    (hcreates : (Deed.mk call engine ending after).Creates cache) :
    (Deed.mk call engine ending after).Stores cache := by
  obtain ⟨rfl, rfl⟩ := hcreates
  cases h with
  | barred needs closed nothing => cases nothing
  | occupied ready held nothing => cases nothing
  | stored ready empty => exact ⟨rfl, empty, rfl⟩

/-- Only a cell that was open can be stored to. -/
theorem open_of_stores (h : engine.Answered call ending after)
    (hstores : (Deed.mk call engine ending after).Stores cache) : engine.Open := by
  obtain ⟨rfl, hempty, hheld⟩ := hstores
  cases h with
  | barred needs closed nothing => exact absurd (hempty.symm.trans hheld) nofun
  | occupied ready => exact ready
  | stored ready => exact ready

/-- Calls that neither store nor clear leave the value of the cell alone. -/
theorem value_eq (h : engine.Answered call ending after)
    (hstores : ∀ cache, ¬ (Deed.mk call engine ending after).Stores cache)
    (hclears : ¬ (Deed.mk call engine ending after).Clears) : after.cell.value = engine.cell.value := by
  cases h with
  | start | setLogger | resetLogger | barred | found | missing => rfl
  | occupied ready held => exact held.symm
  | stored ready empty => exact absurd ⟨rfl, empty, rfl⟩ (hstores _)
  | destroyed ready => exact absurd ⟨.inl rfl, rfl⟩ hclears
  | shutdown =>
    by_cases hopen : (engine.started && !engine.cell.poisoned) = true
    · refine absurd ⟨.inr rfl, ?_⟩ hclears
      simp [Engine.shutdown, hopen, Guarded.put]
    · simp [Engine.shutdown, hopen]

/-- The cell is poisoned when a call is cut short that might change it, and for good. -/
theorem poisoned_iff (h : engine.Answered call ending after) : after.cell.poisoned = true ↔
    engine.cell.poisoned = true ∨ (Deed.mk call engine ending after).CutShort := by
  cases h with
  | start | setLogger | resetLogger | found | missing =>
    simp [Deed.CutShort, Engine.start, Engine.setLogger, Engine.resetLogger]
  | shutdown =>
    by_cases hopen : (engine.started && !engine.cell.poisoned) = true <;>
      simp [Deed.CutShort, Engine.shutdown, hopen, Guarded.put]
  | barred needs closed nothing =>
    -- Whoever is barred from the cell of a started engine has found it poisoned.
    refine ⟨.inl, fun h => h.elim id fun hcut => ?_⟩
    cases hpoisoned : engine.cell.poisoned with
    | true => rfl
    | false => exact absurd ⟨hcut.2.1, hpoisoned⟩ closed
  | occupied ready | stored ready | destroyed ready =>
    simp [Deed.CutShort, withCell, ready.started, ready.sound]

/-- The engine stays started. -/
theorem started (h : engine.Answered call ending after) (hstarted : engine.started = true) :
    after.started = true := by
  cases h with
  | start => rfl
  | setLogger | resetLogger | barred | found | missing | occupied | stored | destroyed => exact hstarted
  | shutdown =>
    unfold Engine.shutdown
    split <;> exact hstarted

/-- What a look finds is what the cell holds. -/
theorem found_iff (h : engine.Answered .look ending after) :
    ending = .done (some cache) ↔ engine.Open ∧ engine.cell.value = some cache := by
  cases h with
  | barred needs closed nothing =>
    refine ⟨fun h => ?_, fun h => absurd h.1 closed⟩
    rw [h] at nothing
    cases nothing
  | found ready held => simp [ready, held]
  | missing ready empty nothing =>
    refine ⟨fun h => ?_, fun h => ?_⟩
    · rw [h] at nothing
      cases nothing
    · rw [empty] at h
      cases h.2

/-- A call that fails to share a cache changes nothing. -/
theorem eq_of_failed {error : Error} (h : engine.Answered (.create cache) (.failed error) after) :
    after = engine := by
  cases h with
  | barred => rfl
  | occupied ready held => exact withCell_self ready.sound held
  | stored ready empty done => cases done rfl

end Answered

/-! ### Runs -/

/-- A call stored this cache, and since then nothing was stored or cleared. -/
def LastStored (past : List (Deed κ)) (cache : κ) : Prop :=
  ∃ before deed since, past = before ++ deed :: since ∧ deed.Stores cache ∧
    ∀ later ∈ since, (∀ other, ¬ later.Stores other) ∧ ¬ later.Clears

variable {past before since : List (Deed κ)} {deed : Deed κ} {cache : κ}

/-- The last call decides what was stored last, unless it neither stores nor clears. -/
theorem lastStored_concat : LastStored (past ++ [deed]) cache ↔
    deed.Stores cache ∨ ((∀ other, ¬ deed.Stores other) ∧ ¬ deed.Clears) ∧ LastStored past cache := by
  constructor
  · rintro ⟨before, stored, since, heq, hstored, hsince⟩
    rcases List.eq_nil_or_concat since with rfl | ⟨since, last, rfl⟩
    · obtain ⟨-, hdeed⟩ := List.append_inj' heq rfl
      rw [List.singleton_inj.mp hdeed]
      exact .inl hstored
    · rw [List.concat_eq_append] at heq hsince
      rw [← List.cons_append, ← List.append_assoc] at heq
      obtain ⟨rfl, hlast⟩ := List.append_inj' heq rfl
      rw [List.singleton_inj.mp hlast]
      exact .inr ⟨hsince last (by simp), before, stored, since, rfl, hstored,
        fun later hlater => hsince later (List.mem_append_left _ hlater)⟩
  · rintro (hstored | ⟨hdeed, before, stored, since, rfl, hstored, hsince⟩)
    · exact ⟨past, deed, [], rfl, hstored, by simp⟩
    · refine ⟨before, stored, since ++ [deed], by simp, hstored, fun later hlater => ?_⟩
      rcases List.mem_append.mp hlater with hlater | hlater
      · exact hsince later hlater
      · rwa [List.mem_singleton.mp hlater]

/-- The cell of the engine is as the calls so far tell. -/
structure Told (past : List (Deed κ)) (engine : Engine κ) : Prop where
  value : ∀ cache, engine.cell.value = some cache ↔ LastStored past cache
  poisoned : engine.cell.poisoned = true ↔ ∃ deed ∈ past, deed.CutShort
  started : engine.cell.value ≠ none → engine.started = true

/-- A new engine has an empty cell, and nothing was told. -/
theorem told_start (logger : Logger) : Told [] ({ logger } : Engine κ) where
  value cache := by simp [LastStored]
  poisoned := by simp
  started := by simp

/-- **The step.** -/
theorem Told.next (h : Told past deed.before)
    (hdeed : deed.before.Answered deed.call deed.ending deed.after) :
    Told (past ++ [deed]) deed.after where
  value cache := by
    rw [lastStored_concat]
    by_cases hstores : ∃ other, deed.Stores other
    · obtain ⟨other, hother⟩ := hstores
      rw [hother.2.2]
      constructor
      · rintro ⟨rfl⟩
        exact .inl hother
      · rintro (hcache | ⟨⟨hnone, -⟩, -⟩)
        · exact hother.2.2.symm.trans hcache.2.2
        · exact absurd hother (hnone other)
    have hnone : ∀ other, ¬ deed.Stores other := fun other hother => hstores ⟨other, hother⟩
    by_cases hclears : deed.Clears
    · rw [hclears.2]
      simp [hnone, hclears]
    · rw [hdeed.value_eq hnone hclears, h.value]
      simp [hnone, hclears]
  poisoned := by
    rw [hdeed.poisoned_iff, h.poisoned]
    simp [or_and_right, exists_or]
  started := by
    intro hheld
    obtain ⟨cache, hcache⟩ := Option.ne_none_iff_exists'.mp hheld
    refine hdeed.started ?_
    by_cases hstores : ∃ other, deed.Stores other
    · obtain ⟨other, hother⟩ := hstores
      exact (hdeed.open_of_stores hother).started
    have hclears : ¬ deed.Clears := fun hclears => hheld hclears.2
    rw [hdeed.value_eq (fun other hother => hstores ⟨other, hother⟩) hclears] at hheld
    exact h.started hheld

/-- Another logger does not change the cell. -/
theorem Told.setLogger (h : Told past engine) (logger : Logger) : Told past (engine.setLogger logger) :=
  ⟨h.value, h.poisoned, h.started⟩

/-- **The run.**  At each of its calls, the engine is as the calls before tell. -/
theorem Told.deeds {turns : List (Turn κ)} {earlier : List (Deed κ)} (h : Told past engine)
    (hrun : earlier ++ [deed] <+: engine.deeds j turns) :
    Told (past ++ earlier) deed.before ∧
      deed.before.Answered deed.call deed.ending deed.after := by
  induction turns generalizing engine j past earlier with
  | nil => simp [Engine.deeds] at hrun
  | cons turn turns ih =>
    have htold := h.setLogger (turn.mood engine.logger)
    cases earlier with
    | nil =>
      obtain ⟨rfl, -⟩ := List.cons_prefix_cons.mp hrun
      rw [List.append_nil]
      exact ⟨htold, ensures_act turn.call⟩
    | cons first earlier =>
      obtain ⟨rfl, hrest⟩ := List.cons_prefix_cons.mp hrun
      rw [← List.singleton_append, ← List.append_assoc]
      exact ih (Told.next htold (ensures_act turn.call)) hrest

/-- After a call that stored a cache, the cell is in use as long as nothing clears it. -/
theorem exists_lastStored (past : List (Deed κ)) (hstored : deed.Stores cache)
    (hsince : ∀ later ∈ since, ¬ later.Clears) :
    ∃ other, LastStored (past ++ deed :: since) other := by
  induction since using List.reverseRecOn with
  | nil => exact ⟨cache, lastStored_concat.mpr (.inl hstored)⟩
  | append_singleton since last ih =>
    obtain ⟨other, hother⟩ := ih fun later hlater => hsince later (List.mem_append_left _ hlater)
    rw [← List.cons_append, ← List.append_assoc]
    by_cases hstores : ∃ another, last.Stores another
    · obtain ⟨another, hanother⟩ := hstores
      exact ⟨another, lastStored_concat.mpr (.inl hanother)⟩
    · exact ⟨other, lastStored_concat.mpr (.inr ⟨⟨fun another hanother => hstores ⟨another, hanother⟩,
        hsince last (by simp)⟩, hother⟩)⟩

/-- The answer of a look does not depend on the journal. -/
theorem alike_cache (services : Services) (engine : Engine κ) (j j' : Journal) :
    (Engine.cache.run services engine j).Alike (fun t _ t' _ => t = engine ∧ t' = engine)
      (Engine.cache.run services engine j') := by
  have hreport {α : Type} (error : Error) (j j' : Journal) :
      ((report source error : Action (Engine κ) α).run services engine j).Alike
        (fun t _ t' _ => t = engine ∧ t' = engine) ((report source error).run services engine j') :=
    alike_report rfl fun _ => ⟨rfl, rfl⟩
  unfold Engine.cache requireCell
  refine Alike.bind (alike_get ?_) ?_
  · simp only [report_bind]
    split
    · split
      · exact hreport ..
      · exact ⟨rfl, rfl, rfl⟩
    · exact hreport ..
  · rintro - t k t' k' ⟨rfl, rfl⟩
    refine alike_get ?_
    split
    · exact ⟨rfl, rfl, rfl⟩
    · exact hreport ..

/-- **One cache at a time.**  Take any calls of an engine, with any loggers in between, each of which may break
    down over any entry, and go on after breakdowns.  Between two calls that returned that they have shared a cache
    there is one that was made to drop a cache and left the cell empty.  A look returns a cache exactly if this is
    the last one that was stored, nothing has cleared the cell since, and no call that might change the cell was
    ever cut short.  And a call that fails to share a cache leaves the engine as it was, and so what a look returns
    next. -/
theorem one_cache_at_a_time (turns : List (Turn κ)) (logger : Logger) (j : Journal) :
    let history := deeds { logger } j turns
    (∀ past first since second cache other, past ++ first :: since ++ [second] <+: history →
        first.Creates cache → second.Creates other → ∃ between ∈ since, between.Clears) ∧
      (∀ past deed cache, past ++ [deed] <+: history → deed.call = .look →
        (deed.ending = .done (some cache) ↔
          LastStored past cache ∧ ∀ earlier ∈ past, ¬ earlier.CutShort)) ∧
      ∀ deed ∈ history, ∀ cache error, deed.call = .create cache → deed.ending = .failed error →
        deed.after = deed.before ∧ ∀ services k k',
          (Engine.cache.run services deed.after k).ending =
            (Engine.cache.run services deed.before k').ending := by
  intro history
  have htold {past : List (Deed κ)} {deed : Deed κ} (hrun : past ++ [deed] <+: history) :=
    (told_start logger).deeds hrun
  refine ⟨fun past first since second cache other hrun hfirst hsecond => ?_,
    fun past deed cache hrun hlook => ?_, fun deed hdeed cache error hcreate hfailed => ?_⟩
  · have hprefix : past ++ [first] <+: history := List.IsPrefix.trans ⟨since ++ [second], by simp⟩ hrun
    have hstored : first.Stores cache := (htold hprefix).2.stores hfirst
    obtain ⟨hbefore, hanswered⟩ := htold hrun
    -- The second of the calls has found the cell empty.
    have hempty : second.before.cell.value = none := (hanswered.stores hsecond).2.1
    by_contra hnone
    have hsince : ∀ later ∈ since, ¬ later.Clears := fun later hlater hclears => hnone ⟨later, hlater, hclears⟩
    obtain ⟨held, hheld⟩ := exists_lastStored past hstored hsince
    have hvalue : second.before.cell.value = some held := (hbefore.value held).mpr hheld
    rw [hempty] at hvalue
    cases hvalue
  · obtain ⟨hbefore, hanswered⟩ := htold hrun
    rw [List.nil_append] at hbefore
    rw [hlook] at hanswered
    have hsound : deed.before.cell.poisoned = false ↔ ∀ earlier ∈ past, ¬ earlier.CutShort := by
      rw [← Bool.not_eq_true, hbefore.poisoned]
      simp
    rw [hanswered.found_iff, ← hbefore.value, ← hsound]
    constructor
    · rintro ⟨hopen, hheld⟩
      exact ⟨hheld, hopen.sound⟩
    · rintro ⟨hheld, hopen⟩
      exact ⟨⟨hbefore.started (by simp [hheld]), hopen⟩, hheld⟩
  · obtain ⟨past, rest, hhistory⟩ := List.append_of_mem hdeed
    have hprefix : past ++ [deed] <+: history := ⟨rest, by rw [hhistory, List.append_assoc]; rfl⟩
    have hanswered := (htold hprefix).2
    rw [hcreate, hfailed] at hanswered
    have hsame := hanswered.eq_of_failed
    refine ⟨hsame, fun services k k' => ?_⟩
    rw [hsame]
    exact (alike_cache services deed.before k k').ending

/-- A logger that breaks down over entries of one severity. -/
def loggerAgainst (severity : Log.Severity) : Logger :=
  .recorder fun entry => if entry.severity = severity then some "enough" else none

/-- A look is cut short, and the logger is steady from then on.  Of three caches the second one is refused, and the
    third one comes after a shutdown.  When this one is dropped, another logger breaks down over the news. -/
def unrulyTurns : List (Turn Nat) :=
  [{ call := .start }, { call := .setLogger (loggerAgainst .error) }, { call := .look },
   { call := .create 1, mood := fun _ => .keeping }, { call := .create 2 }, { call := .shutdown },
   { call := .create 3 }, { call := .look }, { call := .setLogger (loggerAgainst .info) }, { call := .destroy },
   { call := .resetLogger "noon" }, { call := .create 4 }, { call := .look }]

/-- The shutdown clears the cell between the two caches that were shared, the look behind them returns the last one,
    and the calls that were refused have changed nothing, one with the cell in use and one with the cell poisoned.
    The last look finds nothing. -/
theorem one_cache_at_a_time_unruly :
    let history := deeds ({ logger := .keeping } : Engine Nat) {} unrulyTurns
    (∃ between ∈ (history.drop 4).take 2, between.Clears) ∧ LastStored (history.take 7) 3 ∧
      (∀ i ∈ [4, 11], ∃ deed ∈ history[i]?, deed.after = deed.before) ∧
      (history.map (·.ending.value?)).drop 7 = [some (some 3), some none, none, some none, none, none] := by
  intro history
  obtain ⟨hcreates, hlooks, hrefused⟩ := one_cache_at_a_time unrulyTurns .keeping {}
  refine ⟨?_, ?_, ?_, rfl⟩
  · exact hcreates (history.take 3) history[3] ((history.drop 4).take 2) history[6] 1 3 ⟨history.drop 7, rfl⟩
      ⟨rfl, rfl⟩ ⟨rfl, rfl⟩
  · exact ((hlooks (history.take 7) history[7] 3 ⟨history.drop 8, rfl⟩ rfl).mp rfl).1
  · simp only [List.forall_mem_cons, List.not_mem_nil, false_imp_iff, implies_true, and_true]
    exact ⟨⟨history[4], rfl, (hrefused history[4] (List.getElem_mem _) 2 _ rfl rfl).1⟩,
      ⟨history[11], rfl, (hrefused history[11] (List.getElem_mem _) 4 _ rfl rfl).1⟩⟩

end Engine

end ShaderKit
