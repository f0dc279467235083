import ShaderKit.Proofs.Keys

namespace ShaderKit

open ShaderKit.Action

open Std (ExtTreeMap)

/-!
# One resource for each type and name

A cache keeps its resources in a table by id, and the ids of those that were loaded in a look-up by
type and name.  A request changes the two at different moments, and may end in between.

* `Cache.Known`  — the ids in the table and of the resources gone from it are known as such
* `Cache.Paired` — besides, table and look-up name the same resources: the invariant between calls
* `Cache.Run`    — a run of calls and of new factories, with what was got and what was released
* `Standing`     — something was got in a run and has not been released since
* `Cache.Persists` — what an id denotes, it denotes from then on

The factories may make any resources.  Without breakdowns the look-up is exact after every call.
-/

namespace Cache

variable {cache mid t : Cache} {id other : ResourceId} {key key' : ResourceKey} {entry : CacheEntry}
  {resource : Resource} {services : Services} {j : Journal}

/-! ### Ids -/

/-- The ids of the table are in use, and those of the resources gone from it were taken back. -/
def Known (cache : Cache) : Prop := cache.ids.Knows (· ∈ cache.table.value) (· ∈ cache.departed)

/-- A new cache knows its ids, if the versions of its slots go up. -/
theorem known_start (context : Context) {renew : Nat → Nat} (h : IdSource.Renews renew) :
    ({ context, ids := { renew } } : Cache).Known :=
  (IdSource.knows_start h).congr (fun id => by simp) fun id => by simp

/-- Versions go up by two unless somebody says otherwise. -/
theorem known_new (context : Context) : ({ context } : Cache).Known :=
  known_start context IdSource.renews_add_two

/-- The next id is not in use. -/
theorem Known.next_not_mem (h : cache.Known) : cache.ids.next ∉ cache.table.value :=
  h.serves.next_not_live

/-- The next id denotes nothing yet. -/
theorem Known.resource?_next (h : cache.Known) : cache.resource? cache.ids.next = none := by
  have htable : cache.table.value[cache.ids.next]? = none :=
    ExtTreeMap.getElem?_eq_none h.next_not_mem
  simp only [resource?, htable]
  exact ExtTreeMap.getElem?_eq_none h.next_not_gone

/-- Work on resources leaves the ids what they are. -/
theorem Known.same (h : cache.Known) (hs : cache.SameKeys t) : t.Known := by
  have hknows := h.congr (fun _ => hs.mem_iff) hs.departed
  rwa [← hs.ids] at hknows

/-- Making a resource puts the next id to use. -/
theorem Known.insert (h : cache.Known) (key : ResourceKey) (resource : Resource) :
    (cache.insert key resource).Known := by
  refine h.take.congr (fun id => ?_) fun _ => Iff.rfl
  simp [Cache.insert, Guarded.put, ExtTreeMap.mem_insert, @eq_comm _ id]

/-- Forgetting a resource takes its id back. -/
theorem Known.without (h : cache.Known) (he : cache.table.value[id]? = some entry) :
    (cache.without id entry).Known := by
  refine (h.release (mem_table_of_entry he)).congr (fun other => ?_) fun other => ?_
  · simp [Cache.without, Guarded.put, ExtTreeMap.mem_erase, @eq_comm _ other]
  · simp [Cache.without, ExtTreeMap.mem_insert, @eq_comm _ other]

/-- Ids are not looked up by key. -/
theorem Known.enlist (h : cache.Known) (key : ResourceKey) (id : ResourceId) :
    (cache.enlist key id).Known := h

/-- Whatever is done to the resources, the ids are known as such. -/
theorem closed_known : Closed Known fun _ => True where
  work := fun h _ hr hwork => h.same ((sameKeys_putResource hr hwork.continues).trans (sameKeys_books _ _))
  replaced := fun _ h _ _ => h
  held := fun _ h => h
  retired := fun h _ _ => h
  released := fun h _ _ _ => dropped_of h (fun _ he => h.without he) fun h _ _ => h
  without := fun h _ he => h.without he
  enlist := fun _ h _ _ => h

/-- So is the id of a resource that is made. -/
theorem Known.admits (h : cache.Known) (key : ResourceKey) : Admits Known cache key := by
  intro factory _
  split
  · rename_i resource entries _
    have hentered : (cache.enter entries).Known := h
    exact hentered.insert key resource
  · exact h

/-- **Every call** leaves the ids known as such. -/
theorem Known.next (h : cache.Known) (call : Call) : (call.next cache).Known :=
  closed_known.ensures_act h (fun _ _ => trivial) trivial (fun key _ => h.admits key) fun _ _ => h

/-! ### Keys of the table and of the look-up -/

/-- A new resource has its key, and the others keep theirs. -/
theorem keyOf?_insert (h : cache.Known) : (cache.insert key resource).keyOf? id = some key' ↔
    (id = cache.ids.next ∧ key = key') ∨ cache.keyOf? id = some key' := by
  have hnext : cache.keyOf? cache.ids.next ≠ some key' := by
    intro he
    exact h.next_not_mem (isSome_keyOf?.mp (by rw [he]; rfl))
  simp only [keyOf?, Cache.insert, Guarded.put, ExtTreeMap.getElem?_insert,
    Std.LawfulEqCmp.compare_eq_iff_eq] at hnext ⊢
  by_cases hid : cache.ids.next = id
  · subst hid
    rw [if_pos rfl, or_iff_left hnext]
    simp
  · rw [if_neg hid, or_iff_right fun h => hid h.1.symm]

/-- What was forgotten has no key any more. -/
theorem keyOf?_without :
    (cache.without id entry).keyOf? other = some key ↔ cache.keyOf? other = some key ∧ other ≠ id := by
  simp only [keyOf?, Cache.without, Guarded.put, ExtTreeMap.getElem?_erase,
    Std.LawfulEqCmp.compare_eq_iff_eq]
  by_cases hid : id = other
  · simp [hid]
  · rw [if_neg hid, and_iff_left (Ne.symm hid)]

/-- The look-up loses the id that was forgotten, under whatever key. -/
theorem lookup_without : (cache.without id entry).lookup[key]? = some other ↔
    cache.lookup[key]? = some other ∧ other ≠ id := by
  simp only [Cache.without, ExtTreeMap.getElem?_filter', Option.filter_eq_some_iff, bne_iff_ne]

/-- A key that enters the look-up takes the place that it had there before. -/
theorem lookup_enlist : (cache.enlist key id).lookup[key']? = some other ↔
    (key = key' ∧ id = other) ∨ (key ≠ key' ∧ cache.lookup[key']? = some other) := by
  simp only [enlist, ExtTreeMap.getElem?_insert, Std.LawfulEqCmp.compare_eq_iff_eq]
  by_cases hkey : key = key'
  · simp [hkey]
  · simp [hkey]

/-! ### Table and look-up -/

/-- Between calls the look-up has the resources of the table, each under the type and the name for
    which it was made. -/
structure Paired (cache : Cache) : Prop where
  sound : cache.table.poisoned = false
  known : cache.Known
  exact : ∀ key id, cache.lookup[key]? = some id ↔ cache.keyOf? id = some key

/-- Whatever is in the look-up can be found. -/
theorem Paired.find?_eq (h : cache.Paired) (key : ResourceKey) :
    cache.find? key = cache.lookup[key]? := by
  cases hid : cache.lookup[key]? with
  | none => simp [find?, idOf?, hid]
  | some id =>
    obtain ⟨entry, he, -⟩ := keyOf?_eq_some.mp ((h.exact key id).mp hid)
    simp [find?, idOf?, hid, entry?, Guarded.get?, h.sound, he]

/-- Work on resources leaves table and look-up paired. -/
theorem Paired.same (h : cache.Paired) (hs : cache.SameKeys t) : t.Paired where
  sound := hs.poisoned.trans h.sound
  known := h.known.same hs
  exact := by
    intro key id
    rw [hs.lookup, hs.keyOf? id]
    exact h.exact key id

/-- So does forgetting: both lose the same resource. -/
theorem Paired.without (h : cache.Paired) (he : cache.table.value[id]? = some entry) :
    (cache.without id entry).Paired where
  sound := h.sound
  known := h.known.without he
  exact := by
    intro key other
    rw [lookup_without, keyOf?_without, h.exact key other]

/-- A resource that was made and loaded enters the look-up, where its type and name had no place. -/
theorem Paired.loaded (h : cache.Paired) (hnew : cache.lookup[key]? = none)
    (hs : (cache.insert key resource).SameKeys mid) : (mid.enlist key cache.ids.next).Paired where
  sound := hs.poisoned.trans h.sound
  known := ((h.known.insert key resource).same hs).enlist _ _
  exact := by
    intro key' id
    show _ ↔ mid.keyOf? id = some key'
    rw [lookup_enlist, hs.keyOf? id, keyOf?_insert h.known, hs.lookup]
    show _ ∨ _ ∧ cache.lookup[key']? = some id ↔ _
    rw [h.exact key' id]
    have hother (hid : cache.keyOf? id = some key') : key ≠ key' := by
      rintro rfl
      rw [(h.exact key id).mpr hid] at hnew
      cases hnew
    constructor
    · rintro (⟨hkey, hid⟩ | ⟨-, hid⟩)
      · exact Or.inl ⟨hid.symm, hkey⟩
      · exact Or.inr hid
    · rintro (⟨hid, hkey⟩ | hid)
      · exact Or.inl ⟨hkey, hid.symm⟩
      · exact Or.inr ⟨hother hid, hid⟩

/-- A resource that was made and forgotten leaves table and look-up as they were. -/
theorem Paired.discarded (h : cache.Paired) (hs : (cache.insert key resource).SameKeys mid)
    (he : mid.table.value[cache.ids.next]? = some entry) :
    (mid.without cache.ids.next entry).Paired ∧
      (mid.without cache.ids.next entry).lookup = cache.lookup := by
  have hnext (key' : ResourceKey) : cache.lookup[key']? ≠ some cache.ids.next := by
    intro hid
    have hmem := isSome_keyOf?.mp (by rw [(h.exact key' _).mp hid]; rfl)
    exact h.known.next_not_mem hmem
  have hlookup : (mid.without cache.ids.next entry).lookup = cache.lookup := by
    refine ExtTreeMap.ext_getElem? fun key' => Option.ext fun id => ?_
    rw [lookup_without, hs.lookup]
    show cache.lookup[key']? = some id ∧ _ ↔ _
    refine and_iff_left_of_imp fun hid hne => ?_
    exact hnext key' (hne ▸ hid)
  refine ⟨⟨hs.poisoned.trans h.sound, ((h.known.insert key resource).same hs).without he, ?_⟩, hlookup⟩
  intro key' id
  rw [hlookup, keyOf?_without, hs.keyOf? id, keyOf?_insert h.known, h.exact key' id]
  constructor
  · intro hid
    refine ⟨Or.inr hid, ?_⟩
    rintro rfl
    exact hnext key' ((h.exact key' _).mpr hid)
  · rintro ⟨⟨hid, -⟩ | hid, hne⟩
    · exact (hne hid).elim
    · exact hid

/-! ### Requests and releases -/

/-- The outcomes of asking for a resource. -/
inductive Asked (cache : Cache) (key : ResourceKey) : Ending ResourceId → Cache → Prop where
  | found {id : ResourceId} (found : cache.find? key = some id) :
    Asked cache key (.done id) cache
  | created {ending : Ending ResourceId} {t : Cache} (unknown : cache.find? key = none)
    (creating : Creating cache key ending t) : Asked cache key ending t

/-- A request comes to one of these outcomes, if no resource calls back. -/
theorem ensures_request_any (hdiscreet : cache.AllDiscreet) (hmakes : cache.MakesDiscreet key) :
    (request key).Ensures services (fun ending t _ => Asked cache key ending t) cache j :=
  ensures_request_of (fun _ hf => .found hf) fun hf =>
    (ensures_create_any hdiscreet hmakes).mono fun _ _ _ hc => .created hf hc

/-- **A request** without a breakdown leaves table and look-up in agreement.  The look-up gains what
    the request has returned, and nothing else. -/
theorem Asked.paired {ending : Ending ResourceId} (ha : Asked cache key ending t)
    (h : cache.Paired) (calm : ending.isUnwound = false) :
    t.Paired ∧ ∀ (key' : ResourceKey) (id : ResourceId), t.lookup[key']? = some id ↔
      (key = key' ∧ ending = .done id) ∨ cache.lookup[key']? = some id := by
  have hkept (hne : ∀ id, ending ≠ .done id) (key' : ResourceKey) (id : ResourceId) :
      cache.lookup[key']? = some id ↔
        (key = key' ∧ ending = .done id) ∨ cache.lookup[key']? = some id :=
    (or_iff_right fun hdone => hne id hdone.2).symm
  cases ha with
  | found hfound =>
    rw [h.find?_eq] at hfound
    refine ⟨h, fun key' id => (or_iff_right_iff_imp.mpr ?_).symm⟩
    rintro ⟨rfl, hdone⟩
    cases hdone
    exact hfound
  | created unknown creating =>
    rw [h.find?_eq] at unknown
    cases creating with
    | refused missing => exact ⟨h, hkept missing⟩
    | broken _ => cases calm
    | half _ => cases calm
    | discarded same found forgotten =>
      obtain ⟨hpaired, hlookup⟩ := h.discarded same found
      refine ⟨hpaired.same forgotten, ?_⟩
      rw [forgotten.lookup, hlookup]
      exact hkept fun _ hdone => by cases hdone
    | loaded same ends =>
      refine ⟨h.loaded unknown same, fun key' id => ?_⟩
      rcases ends with rfl | hunwound
      · rw [lookup_enlist, same.lookup]
        show _ ∨ _ ∧ cache.lookup[key']? = some id ↔ _
        have hother (hid : cache.lookup[key']? = some id) : key ≠ key' := by
          rintro rfl
          rw [unknown] at hid
          cases hid
        rw [and_iff_right_of_imp hother, Ending.done.injEq]
      · rw [hunwound] at calm
        cases calm

/-- The outcomes of releasing a resource. -/
inductive Released (cache : Cache) (id : ResourceId) : Cache → Prop where
  | unknown (missing : cache.table.poisoned = false → cache.table.value[id]? = none) :
    Released cache id cache
  | released {entry : CacheEntry} {t : Cache} (sound : cache.table.poisoned = false)
    (found : cache.table.value[id]? = some entry) (forgotten : (cache.without id entry).SameKeys t) :
    Released cache id t

/-- A release comes to one of these outcomes. -/
theorem ensures_release_any :
    (release id).Ensures services (fun _ t _ => Released cache id t) cache j := by
  refine ensures_release_of fun _ _ _ => ?_
  cases he : cache.entry? id with
  | none =>
    rw [dropped_of_none he]
    refine .unknown fun hsound => ?_
    cases hentry : cache.table.value[id]? with
    | none => rfl
    | some entry => cases he.symm.trans (entry?_eq_some.mpr ⟨hsound, hentry⟩)
  | some entry =>
    obtain ⟨hsound, hentry⟩ := entry?_eq_some.mp he
    exact .released hsound hentry (dropped_same hsound hentry)

/-- **A release** leaves table and look-up in agreement, and the look-up loses the id. -/
theorem Released.paired (hr : Released cache id t) (h : cache.Paired) :
    t.Paired ∧ ∀ (key : ResourceKey) (other : ResourceId), t.lookup[key]? = some other ↔
      cache.lookup[key]? = some other ∧ other ≠ id := by
  cases hr with
  | unknown missing =>
    refine ⟨h, fun key other => (and_iff_left_of_imp ?_).symm⟩
    rintro hid rfl
    obtain ⟨entry, he, -⟩ := keyOf?_eq_some.mp ((h.exact key other).mp hid)
    rw [missing h.sound] at he
    cases he
  | released _ found forgotten =>
    refine ⟨(h.without found).same forgotten, fun key other => ?_⟩
    rw [forgotten.lookup, lookup_without]

end Cache

/-! ### Runs -/

/-- What callers have got from a cache and what they have taken out of it. -/
inductive Event where
  | got (key : ResourceKey) (id : ResourceId)
  | released (id : ResourceId)
  deriving DecidableEq, Repr

/-- What a call gets from a cache or takes out of it. -/
def Call.events (call : Call) (cache : Cache) : List Event :=
  match call.op with
  | .request key =>
    match ((Cache.request key).run call.services cache call.journal).ending with
    | .done id => [.got key id]
    | _ => []
  | .release id => [.released id]
  | _ => []

/-- A request is for a resource that does not call the cache back.  No other call brings new resources. -/
def Call.Discreet (call : Call) (cache : Cache) : Prop :=
  ∀ key, call.op = .request key → cache.MakesDiscreet key

/-- Something was got and has not been released since. -/
def Standing (events : List Event) (key : ResourceKey) (id : ResourceId) : Prop :=
  ∃ before after, events = before ++ .got key id :: after ∧ .released id ∉ after

/-- Nothing was got before the first event. -/
theorem not_standing_nil {key : ResourceKey} {id : ResourceId} : ¬ Standing [] key id := by
  rintro ⟨before, after, h, -⟩
  simp at h

/-- The last event decides, and where it says nothing, those before it do. -/
theorem standing_concat {events : List Event} {event : Event} {key : ResourceKey}
    {id : ResourceId} : Standing (events ++ [event]) key id ↔
      event = .got key id ∨ (Standing events key id ∧ event ≠ .released id) := by
  constructor
  · rintro ⟨before, after, h, hafter⟩
    rcases List.eq_nil_or_concat after with rfl | ⟨rest, last, rfl⟩
    · exact Or.inl (List.singleton_inj.mp (List.append_inj' h rfl).2)
    · have hlast : events = before ++ .got key id :: rest ∧ [event] = [last] :=
        List.append_inj' (by simpa using h) rfl
      simp only [List.concat_eq_append, List.mem_append, List.mem_singleton, not_or] at hafter
      refine Or.inr ⟨⟨before, rest, hlast.1, hafter.1⟩, ?_⟩
      rw [List.singleton_inj.mp hlast.2]
      exact Ne.symm hafter.2
  · rintro (rfl | ⟨⟨before, after, rfl, hafter⟩, hne⟩)
    · exact ⟨events, [], rfl, by simp⟩
    · refine ⟨before, after ++ [event], by simp, ?_⟩
      rw [List.mem_append, List.mem_singleton, not_or]
      exact ⟨hafter, Ne.symm hne⟩

namespace Cache

variable {allowed : Cache → Call → Prop} {start cache mid t : Cache} {events later : List Event}
  {id : ResourceId} {key : ResourceKey}

/-- The caches that a run of new factories and allowed calls leads to, with what was got and released
    on the way. -/
inductive Run (allowed : Cache → Call → Prop) (start : Cache) : List Event → Cache → Prop where
  | start : Run allowed start [] start
  | register {events : List Event} {cache : Cache} (before : Run allowed start events cache)
    (typeName : String) (factory : Factory) :
    Run allowed start events (cache.register typeName factory)
  | call {events : List Event} {cache : Cache} (before : Run allowed start events cache)
    (call : Call) (ok : allowed cache call) :
    Run allowed start (events ++ call.events cache) (call.next cache)

/-- A run may be one of more calls. -/
theorem Run.mono {allowed' : Cache → Call → Prop} (run : Run allowed start events cache)
    (h : ∀ cache call, allowed cache call → allowed' cache call) : Run allowed' start events cache := by
  induction run with
  | start => exact .start
  | register _ typeName factory ih => exact .register ih typeName factory
  | call _ call ok ih => exact .call ih call (h _ call ok)

/-- One run may go on from the end of another. -/
theorem Run.trans {mid : Cache} {later : List Event} (run : Run allowed start events mid)
    (run' : Run allowed mid later cache) : Run allowed start (events ++ later) cache := by
  induction run' with
  | start => rwa [List.append_nil]
  | register _ typeName factory ih => exact .register ih typeName factory
  | call _ call ok ih =>
    rw [← List.append_assoc]
    exact .call ih call ok

/-- A new factory changes neither table nor look-up. -/
theorem sameKeys_register (cache : Cache) (typeName : String) (factory : Factory) :
    cache.SameKeys (cache.register typeName factory) :=
  ⟨rfl, rfl, rfl, fun _ => rfl, fun _ => Iff.rfl, fun _ resource h => ⟨resource, h, .refl _⟩⟩

/-- The ids of a cache are known as such after any run, also after breakdowns. -/
theorem Run.known (run : Run allowed start events cache) (h : start.Known) : cache.Known := by
  induction run with
  | start => exact h
  | register _ typeName factory ih => exact ih.same (sameKeys_register _ typeName factory)
  | call _ call _ ih => exact ih.next call

/-! ### Runs without calls back -/

/-- Work on resources makes none of them call back. -/
theorem AllDiscreet.same (h : cache.AllDiscreet) (hs : cache.SameKeys t) : t.AllDiscreet :=
  fun id => hs.discreetAt (h id)

/-- Whatever is done to resources, none of them begins to call back. -/
theorem closed_discreet : Closed AllDiscreet fun _ => True where
  work := fun h _ hr hwork =>
    h.same ((sameKeys_putResource hr hwork.continues).trans (sameKeys_books _ _))
  replaced := fun _ h _ _ => h
  held := fun _ h => h
  retired := fun h _ _ => h
  released := fun h _ hr hreleases => (h _ _ hr _ hreleases).elim
  without := fun h _ he id resource hr => h id resource ((resource?_without he).symm.trans hr)
  enlist := fun _ h _ _ => h

/-- No call brings a resource that calls back, if the factories see to it. -/
theorem AllDiscreet.next (h : cache.AllDiscreet) {call : Call} (hcall : call.Discreet cache) :
    (call.next cache).AllDiscreet := by
  refine closed_discreet.ensures_act h (fun _ _ => trivial) trivial (fun key hop factory hf => ?_)
    fun _ _ => h
  split
  · rename_i resource entries hm
    have hentered : (cache.enter entries).AllDiscreet := h
    exact fun id => discreetAt_insert (hcall key hop factory resource entries hf hm) (hentered id)
  · exact h

/-- The outcomes of a call, as far as table and look-up are concerned. -/
inductive Turned (cache : Cache) (calm : Prop) : List Event → Cache → Prop where
  | got {key : ResourceKey} {id : ResourceId} {mid t : Cache}
    (asked : Asked cache key (.done id) mid) (held : mid.SameKeys t) :
    Turned cache calm [.got key id] t
  | refused {key : ResourceKey} {ending : Ending ResourceId} {t : Cache}
    (asked : Asked cache key ending t) (missing : ∀ id, ending ≠ .done id)
    (ends : calm → ending.isUnwound = false) : Turned cache calm [] t
  | released {id : ResourceId} {t : Cache} (released : Released cache id t) :
    Turned cache calm [.released id] t
  | kept {t : Cache} (same : cache.SameKeys t) : Turned cache calm [] t

/-- **What a request does to table and look-up**, if nothing that it may load calls back. -/
theorem turned_request (hdiscreet : cache.AllDiscreet) (hmakes : cache.MakesDiscreet key)
    (services : Services) (j : Journal) : (CacheOp.request key).act.Ensures services (fun ending t _ =>
      Turned cache (ending.isUnwound = false) (Call.events ⟨.request key, services, j⟩ cache) t)
      cache j := by
  have hasked : Asked cache key ((request key).run services cache j).ending
      ((request key).run services cache j).state := ensures_request_any hdiscreet hmakes
  rw [CacheOp.act, ensures_bind]
  show After _ _ _ ((request key).run services cache j).ending _ _
  unfold Call.events
  dsimp only
  cases hending : ((request key).run services cache j).ending with
  | done id =>
    rw [hending] at hasked
    exact .got hasked (sameKeys_held _ _)
  | failed error =>
    rw [hending] at hasked
    exact .refused hasked (fun _ h => by cases h) fun _ => rfl
  | unwound reason =>
    rw [hending] at hasked
    exact .refused hasked (fun _ h => by cases h) id

/-- **Calls.**  A call asks, releases, or names the same resources as before, if no resource calls back. -/
theorem turned_next (hdiscreet : cache.AllDiscreet) {call : Call} (hcall : call.Discreet cache) :
    Turned cache (call.Calm cache) (call.events cache) (call.next cache) := by
  rcases call with ⟨op, services, j⟩
  by_cases hrequest : ∃ key, op = .request key
  · obtain ⟨key, rfl⟩ := hrequest
    exact turned_request hdiscreet (hcall key rfl) services j
  by_cases hrelease : ∃ id, op = .release id
  · obtain ⟨id, rfl⟩ := hrelease
    have hact : (CacheOp.release id).act.Ensures services (fun _ t _ => Released cache id t) cache j := by
      rw [CacheOp.act, ensures_discard]
      exact ensures_release_any
    exact .released hact
  · have hsame : op.act.Ensures services (fun _ t _ => cache.SameKeys t) cache j :=
      ensures_act_same hdiscreet (fun key h => hrequest ⟨key, h⟩) fun id h => hrelease ⟨id, h⟩
    have hevents : Call.events ⟨op, services, j⟩ cache = [] := by
      cases op <;> first | rfl | exact (hrequest ⟨_, rfl⟩).elim | exact (hrelease ⟨_, rfl⟩).elim
    rw [hevents]
    exact .kept hsame

/-- **The step.**  A call without a breakdown leaves table and look-up in agreement; the look-up gains
    what was got and loses what was released. -/
theorem Turned.paired {calm : Prop} (ht : Turned cache calm events t) (h : cache.Paired)
    (hcalm : calm) : t.Paired ∧ ∀ (key : ResourceKey) (id : ResourceId), t.lookup[key]? = some id ↔
      .got key id ∈ events ∨ (cache.lookup[key]? = some id ∧ .released id ∉ events) := by
  cases ht with
  | got asked held =>
    obtain ⟨hpaired, hlookup⟩ := asked.paired h rfl
    refine ⟨hpaired.same held, fun key id => ?_⟩
    rw [held.lookup, hlookup key id, Ending.done.injEq]
    simp [eq_comm]
  | refused asked missing ends =>
    obtain ⟨hpaired, hlookup⟩ := asked.paired h (ends hcalm)
    refine ⟨hpaired, fun key id => ?_⟩
    rw [hlookup key id, or_iff_right fun hdone => missing id hdone.2]
    simp
  | released released =>
    obtain ⟨hpaired, hlookup⟩ := released.paired h
    refine ⟨hpaired, fun key id => ?_⟩
    rw [hlookup key id]
    simp [eq_comm]
  | kept same =>
    refine ⟨h.same same, fun key id => ?_⟩
    rw [same.lookup]
    simp

/-- A call has one event at most. -/
theorem Turned.events_eq {calm : Prop} (ht : Turned cache calm events t) :
    events = [] ∨ ∃ event, events = [event] := by
  cases ht with
  | got _ _ => exact Or.inr ⟨_, rfl⟩
  | refused _ _ _ => exact Or.inl rfl
  | released _ => exact Or.inr ⟨_, rfl⟩
  | kept _ => exact Or.inl rfl

/-- **The run.**  Table and look-up stay in agreement, and the look-up has what stands from the calls. -/
theorem Run.paired (run : Run (fun cache call => call.Calm cache ∧ call.Discreet cache) start events cache)
    (h : start.Paired) (hdiscreet : start.AllDiscreet)
    (hempty : ∀ (key : ResourceKey) (id : ResourceId), start.lookup[key]? ≠ some id) :
    cache.Paired ∧ cache.AllDiscreet ∧ ∀ (key : ResourceKey) (id : ResourceId),
      cache.lookup[key]? = some id ↔ Standing events key id := by
  induction run with
  | start => exact ⟨h, hdiscreet, fun key id => iff_of_false (hempty key id) not_standing_nil⟩
  | register _ typeName factory ih =>
    exact ⟨ih.1.same (sameKeys_register _ typeName factory), ih.2⟩
  | @call events cache _ call ok ih =>
    obtain ⟨hcache, hquiet, hstanding⟩ := ih
    have hturned := turned_next hquiet ok.2
    obtain ⟨hpaired, hlookup⟩ := hturned.paired hcache ok.1
    refine ⟨hpaired, hquiet.next ok.2, fun key id => ?_⟩
    rw [hlookup key id, hstanding key id]
    rcases hturned.events_eq with hevents | ⟨event, hevents⟩
    · rw [hevents]
      simp
    · rw [hevents, standing_concat, List.mem_singleton, List.mem_singleton, ne_eq, @eq_comm _ event,
        @eq_comm _ event]

/-! ### What ids denote -/

variable {entry : CacheEntry} {resource : Resource} {services : Services}

/-- What an id denotes it denotes from then on, in the table or gone from it, and if it is in the table
    later on, it has been there all the time. -/
structure Persists (cache t : Cache) : Prop where
  resources : ∀ id resource, cache.resource? id = some resource →
    ∃ resource', t.resource? id = some resource' ∧ resource.value.Continues resource'.value
  lasting : ∀ id key, t.keyOf? id = some key → cache.resource? id ≠ none → cache.keyOf? id = some key

/-- Work on resources leaves what every id denotes. -/
theorem SameKeys.persists (h : cache.SameKeys t) : cache.Persists t where
  resources := h.resources
  lasting := fun id _ hid _ => by rwa [h.keyOf? id] at hid

/-- Nothing changed. -/
theorem Persists.refl (cache : Cache) : cache.Persists cache := (SameKeys.refl cache).persists

/-- What an id denotes, it denotes over one change after another. -/
theorem Persists.trans (h : cache.Persists mid) (h' : mid.Persists t) : cache.Persists t where
  resources := by
    intro id resource hr
    obtain ⟨resource', hr', hc⟩ := h.resources id resource hr
    obtain ⟨resource'', hr'', hc'⟩ := h'.resources id resource' hr'
    exact ⟨resource'', hr'', hc.trans hc'⟩
  lasting := by
    intro id key hid hdenotes
    refine h.lasting id key (h'.lasting id key hid ?_) hdenotes
    obtain ⟨resource, hr⟩ := Option.ne_none_iff_exists'.mp hdenotes
    obtain ⟨resource', hr', -⟩ := h.resources id resource hr
    rw [hr']
    exact Option.some_ne_none _

/-- A new resource comes under an id that denoted nothing. -/
theorem persists_insert (h : cache.Known) : cache.Persists (cache.insert key resource) where
  resources := by
    intro id old hr
    have hne : cache.ids.next ≠ id := by
      rintro rfl
      rw [h.resource?_next] at hr
      cases hr
    refine ⟨old, ?_, .refl _⟩
    simpa [resource?, Cache.insert, Guarded.put, ExtTreeMap.getElem?_insert, hne] using hr
  lasting := by
    intro id key' hid hdenotes
    rcases (keyOf?_insert h).mp hid with ⟨rfl, -⟩ | hid
    · exact (hdenotes h.resource?_next).elim
    · exact hid

/-- A resource that is forgotten is denoted by its id outside the table. -/
theorem persists_without (he : cache.table.value[id]? = some entry) :
    cache.Persists (cache.without id entry) where
  resources := fun _ old hr => ⟨old, (resource?_without he).trans hr, .refl _⟩
  lasting := fun _ _ hid _ => (keyOf?_without.mp hid).1

/-- Whatever is done to the resources, ids go on denoting what they denote. -/
theorem closed_persists (start : Cache) :
    Closed (fun cache => cache.Known ∧ start.Persists cache) fun _ => True where
  work := fun h _ hr hwork => ⟨closed_known.work h.1 trivial hr hwork, h.2.trans
    ((sameKeys_putResource hr hwork.continues).trans (sameKeys_books _ _)).persists⟩
  replaced := fun _ h _ _ => ⟨h.1, h.2.trans (sameKeys_books _ _).persists⟩
  held := fun held h => ⟨h.1, h.2.trans (sameKeys_held _ held).persists⟩
  retired := fun h _ _ => ⟨h.1, h.2.trans (sameKeys_books _ _).persists⟩
  released := fun h _ _ _ => dropped_of (I := fun cache => cache.Known ∧ start.Persists cache) h
    (fun _ he => ⟨h.1.without he, h.2.trans (persists_without he)⟩)
    fun h _ _ => ⟨h.1, h.2.trans (sameKeys_books _ _).persists⟩
  without := fun h _ he => ⟨h.1.without he, h.2.trans (persists_without he)⟩
  enlist := fun _ h _ _ => ⟨h.1, h.2.resources, h.2.lasting⟩

/-- **Every call** leaves ids what they denote. -/
theorem Known.persists_next (h : cache.Known) (call : Call) : cache.Persists (call.next cache) := by
  have hnext : (call.next cache).Known ∧ cache.Persists (call.next cache) := by
    refine (closed_persists cache).ensures_act ⟨h, .refl cache⟩ (fun _ _ => trivial) trivial
      (fun key _ factory _ => ?_) fun _ _ => ⟨h, (sameKeys_books _ _).persists⟩
    split
    · rename_i resource entries _
      have hentered : (cache.enter entries).Known := h
      exact ⟨hentered.insert _ _, (sameKeys_books cache _).persists.trans (persists_insert hentered)⟩
    · exact ⟨h, (sameKeys_books cache _).persists.resources, (sameKeys_books cache _).persists.lasting⟩
  exact hnext.2

/-- What an id denotes it denotes for the rest of a run. -/
theorem Run.persists (run : Run allowed start events cache) (h : start.Known) :
    start.Persists cache := by
  induction run with
  | start => exact .refl start
  | register _ typeName factory ih => exact ih.trans (sameKeys_register _ typeName factory).persists
  | call before call _ ih => exact ih.trans ((before.known h).persists_next call)

/-! ### The cache between calls -/

/-- A factory of documents that release themselves over each load. -/
def hastyFactory : Factory := fun id name _ =>
  .ok (.document { typeName := "Hasty", id, name, parse := SourceFile.text, releases := fun _ => [id] })

/-- A resource that calls the cache back can leave a name in the look-up under which there is nothing: it
    is forgotten before its name is entered. -/
theorem lookup_without_entry :
    let services : Services := { files := (({} : MemoryStore).insert "a" "float x;".toUTF8).read }
    let fitted := ({ context := {} } : Cache).register "Hasty" hastyFactory
    let call := Call.mk (.request ⟨"Hasty", "a"⟩) services {}
    call.Calm fitted ∧ (call.next fitted).idOf? ⟨"Hasty", "a"⟩ = some (.slot 1 1) ∧
      (call.next fitted).size = 0 := by
  intro services fitted call
  refine ⟨?_, by decide +kernel, by decide +kernel⟩
  show Ending.isUnwound _ = false
  decide +kernel

end Cache

end ShaderKit
