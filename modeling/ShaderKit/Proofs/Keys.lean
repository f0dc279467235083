import ShaderKit.Proofs.Invariants

namespace ShaderKit

open ShaderKit.Action

open Std (ExtTreeMap)

/-!
# Which resources a cache names

A caller may register factories of any kind, so nothing is known about what a cache holds.  What it
holds under which id, type and name is still settled by few operations, unless a resource calls the cache
back while it is loaded:

* `Cache.SameKeys`    — two caches name the same resources, by id and by type and name
* `Cache.AllDiscreet` — no resource of a cache calls it back: an invariant, if the factories see to it
* `Cache.ensures_act_same` — all operations but requests and releases lead to such a cache
* `Creating`          — the outcomes of making and loading a resource
* `dropped_same`      — what forgetting a resource does
* `Shader.loadFound`  — what is left of a load when all that it needs has been found
-/

/-! ### Loading -/

namespace Include

variable {services : Services}

/-- With a steady logger, an expansion is never cut short: its errors end it. -/
theorem unbroken_resolveFor (hsteady : services.logger.Steady) (owner : ResourceId)
    (ownerName : String) (limit : Nat) (file : SourceFile) :
    (resolveFor owner ownerName limit file).Unbroken services := by
  have hperform (step : Step) : (perform owner ownerName step).Unbroken services := by
    cases step with
    | entered name =>
      by_cases hname : name = ownerName
      · simpa only [perform, hname, if_true] using unbroken_pure ()
      · simpa only [perform, hname, if_false] using unbroken_modify _
    | followed includer name => exact unbroken_say hsteady _ _ _
  intro deps j
  unfold resolveFor
  rw [ensures_bind, ensures_read, after_done]
  refine (unbroken_forM hperform _).bind (fun _ => ?_) deps j
  split
  · exact unbroken_pure _
  · exact unbroken_report hsteady _ _

end Include

namespace Shader

variable {services : Services} {j : Journal} {file : SourceFile} {desk : Desk Shader}

end Shader

/-! ### Caches -/

namespace Cache

variable {cache mid t : Cache} {id other : ResourceId} {key : ResourceKey} {entry : CacheEntry}
  {resource old : Guarded Resource} {services : Services} {j : Journal} {file : SourceFile}

/-- The type and the name for which a resource of the table was made. -/
def keyOf? (cache : Cache) (id : ResourceId) : Option ResourceKey :=
  cache.table.value[id]?.map CacheEntry.key

/-- The key of an id stands in its entry. -/
theorem keyOf?_eq_some :
    cache.keyOf? id = some key ↔ ∃ entry, cache.table.value[id]? = some entry ∧ entry.key = key :=
  Option.map_eq_some_iff

/-- The ids of the table are those with a key. -/
theorem isSome_keyOf? : (cache.keyOf? id).isSome = true ↔ id ∈ cache.table.value := by
  rw [keyOf?, Option.isSome_map, ExtTreeMap.isSome_getElem?_iff_mem]

/-- The resource that is made next comes under the next id. -/
theorem resource?_insert {resource : Resource} : (cache.insert key resource).resource? id =
    if id = cache.ids.next then some { value := resource } else cache.resource? id := by
  by_cases hid : id = cache.ids.next
  · rw [if_pos hid, hid, resource?_of_entry table_insert_self]
  · rw [if_neg hid]
    simp [resource?, Cache.insert, Guarded.put, ExtTreeMap.getElem?_insert, Ne.symm hid]

/-- Two caches name the same resources, by id and by type and name; meanwhile the resources may have
    been worked on. -/
structure SameKeys (cache t : Cache) : Prop where
  ids : t.ids = cache.ids
  lookup : t.lookup = cache.lookup
  poisoned : t.table.poisoned = cache.table.poisoned
  keyOf? : ∀ id, t.keyOf? id = cache.keyOf? id
  departed : ∀ id, id ∈ t.departed ↔ id ∈ cache.departed
  resources : ∀ id resource, cache.resource? id = some resource →
    ∃ resource', t.resource? id = some resource' ∧ resource.value.Continues resource'.value

/-- Nothing changed. -/
theorem SameKeys.refl (cache : Cache) : cache.SameKeys cache :=
  ⟨rfl, rfl, rfl, fun _ => rfl, fun _ => Iff.rfl, fun _ resource h => ⟨resource, h, .refl _⟩⟩

/-- The same resources are named over one change after another. -/
theorem SameKeys.trans (h : cache.SameKeys mid) (h' : mid.SameKeys t) : cache.SameKeys t where
  ids := h'.ids.trans h.ids
  lookup := h'.lookup.trans h.lookup
  poisoned := h'.poisoned.trans h.poisoned
  keyOf? := fun id => (h'.keyOf? id).trans (h.keyOf? id)
  departed := fun id => (h'.departed id).trans (h.departed id)
  resources := by
    intro id resource hr
    obtain ⟨resource', hr', hc⟩ := h.resources id resource hr
    obtain ⟨resource'', hr'', hc'⟩ := h'.resources id resource' hr'
    exact ⟨resource'', hr'', hc.trans hc'⟩

/-- The same ids are in the table. -/
theorem SameKeys.mem_iff (h : cache.SameKeys t) : id ∈ t.table.value ↔ id ∈ cache.table.value := by
  rw [← isSome_keyOf?, ← isSome_keyOf?, h.keyOf? id]

/-- Holds and books are not looked up. -/
theorem sameKeys_books (cache : Cache) (books : Books) : cache.SameKeys { cache with books } :=
  ⟨rfl, rfl, rfl, fun _ => rfl, fun _ => Iff.rfl, fun _ resource h => ⟨resource, h, .refl _⟩⟩

/-- Who holds what names no resource. -/
theorem sameKeys_held (cache : Cache) (held : Std.ExtTreeSet ResourceId) :
    cache.SameKeys { cache with held } :=
  ⟨rfl, rfl, rfl, fun _ => rfl, fun _ => Iff.rfl, fun _ resource h => ⟨resource, h, .refl _⟩⟩

/-- A resource that was worked on is put back in its place. -/
theorem sameKeys_putResource (hr : cache.resource? id = some old)
    (hc : old.value.Continues resource.value) : cache.SameKeys (cache.putResource id resource) := by
  have hresources (i : ResourceId) (r : Guarded Resource) (h : cache.resource? i = some r) :
      ∃ r', (cache.putResource id resource).resource? i = some r' ∧ r.value.Continues r'.value := by
    rw [resource?_putResource hr]
    by_cases hi : i = id
    · rw [hi, hr] at h
      cases h
      exact ⟨resource, if_pos hi, hc⟩
    · exact ⟨r, by rw [if_neg hi, h], .refl _⟩
  cases he : cache.table.value[id]? with
  | some entry =>
    have hput : cache.putResource id resource =
        { cache with table := cache.table.put (cache.table.value.insert id { entry with resource }) } := by
      simp only [putResource, he]
    rw [hput] at hresources ⊢
    refine ⟨rfl, rfl, rfl, fun i => ?_, fun _ => Iff.rfl, hresources⟩
    simp only [Cache.keyOf?, Guarded.put, ExtTreeMap.getElem?_insert,
      Std.LawfulEqCmp.compare_eq_iff_eq]
    by_cases hi : id = i
    · subst hi
      rw [if_pos rfl, he]
      rfl
    · rw [if_neg hi]
  | none =>
    have hput : cache.putResource id resource =
        { cache with departed := cache.departed.insert id resource } := by
      simp only [putResource, he]
    rw [hput] at hresources ⊢
    refine ⟨rfl, rfl, rfl, fun _ => rfl, fun i => ?_, hresources⟩
    -- The resource had left the table before.
    have hmem : id ∈ cache.departed := by
      simp only [resource?, he] at hr
      rw [← ExtTreeMap.isSome_getElem?_iff_mem, hr]
      rfl
    rw [ExtTreeMap.mem_insert, Std.LawfulEqCmp.compare_eq_iff_eq, or_iff_right_iff_imp]
    rintro rfl
    exact hmem

/-- What is denoted after work on the resources was denoted before. -/
theorem SameKeys.resource?_back (h : cache.SameKeys t) {resource' : Guarded Resource}
    (hr : t.resource? id = some resource') :
    ∃ resource, cache.resource? id = some resource ∧ resource.value.Continues resource'.value := by
  obtain ⟨resource, hresource⟩ : cache.Denotes id := by
    unfold Denotes resource? at *
    cases he : cache.table.value[id]? with
    | some entry => exact ⟨_, rfl⟩
    | none =>
      -- The id is in the table of neither cache, so both have it among what is gone.
      have hmem : id ∉ cache.table.value := by simpa using he
      have hnone := ExtTreeMap.getElem?_eq_none (mt h.mem_iff.mp hmem)
      simp only [hnone] at hr
      have hdeparted : id ∈ t.departed := by
        rw [← ExtTreeMap.isSome_getElem?_iff_mem, hr]
        rfl
      rw [h.departed id, ← ExtTreeMap.isSome_getElem?_iff_mem] at hdeparted
      exact Option.isSome_iff_exists.mp hdeparted
  obtain ⟨found, hfound, hc⟩ := h.resources id resource hresource
  rw [hr] at hfound
  cases hfound
  exact ⟨resource, hresource, hc⟩

/-! ### Resources that do not call back -/

/-- What the id denotes, if anything, does not call the cache back. -/
def DiscreetAt (cache : Cache) (id : ResourceId) : Prop :=
  ∀ resource, cache.resource? id = some resource → resource.value.Discreet

/-- So it releases nothing over any load. -/
theorem DiscreetAt.releases_eq (h : cache.DiscreetAt id) (file : SourceFile) (resource : Guarded Resource)
    (hr : cache.resource? id = some resource) : resource.value.releases file = [] :=
  (h resource hr).releases_eq file

/-- An entry settles what the id denotes. -/
theorem discreetAt_of_entry (he : cache.table.value[id]? = some entry)
    (h : entry.resource.value.Discreet) : cache.DiscreetAt id := by
  intro resource hr
  cases (resource?_of_entry he).symm.trans hr
  exact h

/-- No resource that the cache has made calls it back. -/
def AllDiscreet (cache : Cache) : Prop := ∀ id, cache.DiscreetAt id

/-- The factory for a key, if there is one and it does not break down, makes a resource that does not call
    the cache back. -/
def MakesDiscreet (cache : Cache) (key : ResourceKey) : Prop :=
  ∀ factory resource entries, cache.factories[key.typeName]? = some factory →
    factory cache.ids.next key.name cache.context = .ok resource entries → resource.Discreet

/-- What did not call back does not do so under the same name. -/
theorem SameKeys.discreetAt (h : cache.SameKeys t) (hid : cache.DiscreetAt id) : t.DiscreetAt id := by
  intro resource' hr
  obtain ⟨resource, hr, hc⟩ := h.resource?_back hr
  exact hc.discreet_iff.mpr (hid resource hr)

/-- A resource that does not call back may be made. -/
theorem discreetAt_insert {resource : Resource} (hresource : resource.Discreet)
    (hid : cache.DiscreetAt id) : (cache.insert key resource).DiscreetAt id := by
  intro found hr
  rw [resource?_insert] at hr
  split at hr
  · cases hr
    exact hresource
  · exact hid found hr

/-! ### Operations that name no resource anew -/

/-- Work on resources that do not call back leads to a cache that names the same ones. -/
theorem stable_sameKeys (cache : Cache) : Stable cache.SameKeys cache.DiscreetAt where
  work := fun h _ hr hwork =>
    (h.trans (sameKeys_putResource hr hwork.continues)).trans (sameKeys_books _ _)
  replaced := fun _ h _ _ => h.trans (sameKeys_books _ _)
  held := fun held h => h.trans (sameKeys_held _ held)
  retired := fun h _ _ => h.trans (sameKeys_books _ _)
  released := fun h hid hr hreleases => (h.discreetAt hid _ hr _ hreleases).elim

/-- A load of what does not call back leads to a cache that names the same resources. -/
theorem ensures_loadResource_same (hid : cache.DiscreetAt id) :
    (loadResource id file).Ensures services (fun _ t _ => cache.SameKeys t) cache j :=
  ((stable_sameKeys cache).keeps_loadResource hid file services cache j).mono
    fun _ _ _ h => h (.refl cache)

/-- The end of a resource names none. -/
theorem sameKeys_retireUnused (cache : Cache) (id : ResourceId) :
    cache.SameKeys (cache.retireUnused id) := (stable_sameKeys cache).retireUnused (.refl cache) id

/-- **Operations.**  Only a request can name a resource anew, and only a release can take a name away:
    whatever else is asked, and however it ends, the same resources are named. -/
theorem ensures_act_same {op : CacheOp} (hdiscreet : cache.AllDiscreet) (hrequest : ∀ key, op ≠ .request key)
    (hrelease : ∀ id, op ≠ .release id) :
    op.act.Ensures services (fun _ t _ => cache.SameKeys t) cache j :=
  (stable_sameKeys cache).ensures_act (.refl cache) (fun id _ => hdiscreet id) hrequest hrelease
    fun _ _ => sameKeys_books cache _

/-! ### Forgetting -/

/-- Forgetting a resource of the table takes its names away, and no others. -/
theorem dropped_same (hsound : cache.table.poisoned = false)
    (he : cache.table.value[id]? = some entry) :
    (cache.without id entry).SameKeys (cache.dropped id) := by
  rw [dropped_of_entry (entry?_eq_some.mpr ⟨hsound, he⟩)]
  exact sameKeys_retireUnused _ id

/-! ### Making and loading -/

/-- The outcomes of making and loading a resource that does not call back. -/
inductive Creating (cache : Cache) (key : ResourceKey) : Ending ResourceId → Cache → Prop where
  /-- Nothing was made. -/
  | refused {ending : Ending ResourceId} (missing : ∀ id, ending ≠ .done id) :
    Creating cache key ending cache
  /-- The factory breaks down, under the guard of the table. -/
  | broken {reason : String} (entries : List BooksOp) :
    Creating cache key (.unwound reason) { cache.enter entries with table := cache.table.poison }
  /-- A breakdown before the first load came to an end. -/
  | half {reason : String} {resource : Resource} {t : Cache}
    (same : (cache.insert key resource).SameKeys t) :
    Creating cache key (.unwound reason) t
  /-- The first load failed, and the resource was forgotten. -/
  | discarded {error : Error} {resource : Resource} {mid t : Cache} {entry : CacheEntry}
    (same : (cache.insert key resource).SameKeys mid)
    (found : mid.table.value[cache.ids.next]? = some entry)
    (forgotten : (mid.without cache.ids.next entry).SameKeys t) :
    Creating cache key (.failed error) t
  | loaded {ending : Ending ResourceId} {resource : Resource} {mid : Cache}
    (same : (cache.insert key resource).SameKeys mid)
    (ends : ending = .done cache.ids.next ∨ ending.isUnwound = true) :
    Creating cache key ending (mid.enlist key cache.ids.next)

/-- The first load of a new resource decides whether it stays. -/
theorem ensures_finish (hsound : cache.table.poisoned = false) (hdiscreet : cache.AllDiscreet)
    {resource : Resource} (hresource : resource.Discreet) (entries : List BooksOp) :
    (finish key file cache.ids.next).Ensures services
      (fun ending t _ => Creating cache key ending t)
      ((cache.enter entries).insert key resource) j := by
  have hentered : (cache.insert key resource).SameKeys ((cache.enter entries).insert key resource) :=
    sameKeys_books _ _
  have hat : ((cache.enter entries).insert key resource).DiscreetAt cache.ids.next :=
    hentered.discreetAt (discreetAt_insert hresource (hdiscreet _))
  refine (ensures_finish_of (ensures_loadResource_same hat)).mono ?_
  rintro ending t _ ⟨first, mid, hload, hfinished⟩
  have hsame := hentered.trans hload
  cases hfinished with
  | listed => exact .loaded hsame (.inl rfl)
  | listedBroken _ => exact .loaded hsame (.inr rfl)
  | forgotten =>
    -- The new resource is still in its place, from where it is forgotten.
    have hmem : cache.ids.next ∈ mid.table.value :=
      hsame.mem_iff.mpr (mem_table_of_entry table_insert_self)
    obtain ⟨entry, he⟩ := exists_entry_of_mem hmem
    exact .discarded hsame he (dropped_same (hsame.poisoned.trans hsound) he)
  | failedBroken _ => exact .half hsame
  | broken => exact .half hsame

/-- **Making and loading** a resource comes to one of these outcomes. -/
theorem ensures_create_any (hdiscreet : cache.AllDiscreet) (hmakes : cache.MakesDiscreet key) :
    (create key).Ensures services (fun ending t _ => Creating cache key ending t) cache j :=
  ensures_create_of (fun _ => .refused fun _ h => by cases h) (fun _ _ => .refused fun _ h => by cases h)
    (fun _ _ entries _ _ _ => .broken entries)
    fun _ factory resource entries _ _ hf hsound hm =>
      ensures_finish hsound hdiscreet (hmakes factory resource entries hf hm) entries

end Cache

end ShaderKit
