import ShaderKit.Proofs.Calls
import ShaderKit.Proofs.Ids

namespace ShaderKit

open Std (ExtTreeMap)

/-!
# Caches that hold what they made

* `Cache.WellMade`  — every resource is a shader that was made under its id, its name and the context
                      of the cache; the ids in the table are in use; no dependency is left over
* `Cache.putShader` — the cache after work on one of its shaders
* `Cache.without`   — the cache after it has forgotten a resource

One lemma for each way in which a cache changes says that it stays well made, whether or not a
collaborator has broken down meanwhile.
-/

namespace Cache

variable {cache : Cache} {id other : ResourceId} {desk : Desk Shader} {poisoned : Bool}
  {resource : Guarded Resource} {shader : Shader} {key : ResourceKey} {entry : CacheEntry}

/-- Every resource is a shader as the cache made it, and the ids in the table are in use. -/
structure WellMade (cache : Cache) : Prop where
  factories : ∀ (typeName : String) (factory : Factory), cache.factories[typeName]? = some factory →
    factory = Shader.factory
  files : cache.context.files = true
  dependencies : cache.context.dependencies = true
  memory : cache.context.memory = true
  /-- The shaders keep their dependencies in the books. -/
  tracker : cache.context.tracker = .shared
  /-- No factory has broken down. -/
  sound : cache.table.poisoned = false
  ids : cache.ids.Serves (· ∈ cache.table.value)
  entries : ∀ (id : ResourceId) (entry : CacheEntry), cache.table.value[id]? = some entry →
    ∃ shader, entry.resource.value = .shader shader ∧ shader.MadeAs id entry.key.name cache.context
  departed : ∀ (id : ResourceId) (resource : Guarded Resource), cache.departed[id]? = some resource →
    ∃ shader name, resource.value = .shader shader ∧ shader.MadeAs id name cache.context
  pruned : cache.books.dependencies.Pruned

/-- A new cache of shaders holds nothing that was not made well. -/
theorem wellMade_ofShaders (config : Config) (graphics : Bool)
    (fingerprint : String → Fingerprint) : (ofShaders config graphics fingerprint).WellMade where
  factories := by
    intro typeName factory h
    simp only [ofShaders, register, ExtTreeMap.getElem?_insert] at h
    split at h
    · exact (Option.some.inj h).symm
    · simp at h
  files := rfl
  dependencies := rfl
  memory := rfl
  tracker := rfl
  sound := rfl
  ids := (IdSource.serves_start _).congr fun id => by simp [ofShaders, register]
  entries := by
    intro id entry h
    simp [ofShaders, register] at h
  departed := by
    intro id resource h
    simp [ofShaders, register] at h
  pruned := DependencyMap.pruned_empty

/-! ### Looking up -/

/-- The table of such a cache is never poisoned, so every entry can be seen. -/
theorem WellMade.entry?_eq (h : cache.WellMade) : cache.entry? id = cache.table.value[id]? := by
  simp [Guarded.get?, entry?, h.sound]

/-- A resource is a shader, whether it is in the table or gone from it. -/
theorem WellMade.resource?_shader (h : cache.WellMade)
    (hr : cache.resource? id = some resource) :
    ∃ shader name, resource.value = .shader shader ∧ shader.MadeAs id name cache.context ∧
      ∀ entry, cache.table.value[id]? = some entry → entry.key.name = name := by
  unfold resource? at hr
  split at hr
  · rename_i entry he
    cases hr
    obtain ⟨shader, hs, hm⟩ := h.entries id entry he
    refine ⟨shader, _, hs, hm, fun entry' he' => ?_⟩
    rw [Option.some.inj (he'.symm.trans he)]
  · rename_i he
    obtain ⟨shader, name, hs, hm⟩ := h.departed id resource hr
    exact ⟨shader, name, hs, hm, fun entry he' => by simp [he] at he'⟩

/-- What is in the table is reached through it. -/
theorem resource?_of_entry (he : cache.table.value[id]? = some entry) :
    cache.resource? id = some entry.resource := by
  simp [resource?, he]

/-- An entry makes its id one of the table. -/
theorem mem_table_of_entry (he : cache.table.value[id]? = some entry) : id ∈ cache.table.value := by
  rw [← ExtTreeMap.isSome_getElem?_iff_mem, he]
  rfl

/-- An id of the table has an entry. -/
theorem exists_entry_of_mem (hid : id ∈ cache.table.value) :
    ∃ entry, cache.table.value[id]? = some entry := by
  rw [← ExtTreeMap.isSome_getElem?_iff_mem] at hid
  exact Option.isSome_iff_exists.mp hid

/-- A shader in the table was made under the id and the name of its entry. -/
theorem WellMade.entry_madeAs (h : cache.WellMade) (he : cache.table.value[id]? = some entry)
    (hs : entry.resource = { value := .shader shader, poisoned }) :
    shader.MadeAs id entry.key.name cache.context := by
  obtain ⟨made, hmade, hm⟩ := h.entries id entry he
  have hsame : made = shader := by
    rw [hs] at hmade
    exact (Resource.shader.inj hmade).symm
  rwa [hsame] at hm

/-- A shader was made under its id, whether it is in the table or gone from it. -/
theorem WellMade.madeAs (h : cache.WellMade)
    (hr : cache.resource? id = some { value := .shader shader, poisoned }) :
    ∃ name, shader.MadeAs id name cache.context := by
  obtain ⟨made, name, hmade, hm, -⟩ := h.resource?_shader hr
  have hsame : made = shader := (Resource.shader.inj hmade).symm
  exact ⟨name, hsame ▸ hm⟩

/-! ### Work on a shader -/

/-- The cache after work on one of its shaders. -/
def putShader (cache : Cache) (id : ResourceId) (desk : Desk Shader) (poisoned : Bool) : Cache :=
  { cache.putResource id { value := .shader desk.item, poisoned } with books := desk.books }

/-- The books are those that came out of the work. -/
@[simp] theorem books_putShader : (cache.putShader id desk poisoned).books = desk.books := rfl

/-- Work on a shader changes no setting of the cache. -/
@[simp] theorem context_putShader : (cache.putShader id desk poisoned).context = cache.context := by
  unfold putShader putResource; split <;> rfl

/-- Work on a shader registers no factory. -/
@[simp] theorem factories_putShader :
    (cache.putShader id desk poisoned).factories = cache.factories := by
  unfold putShader putResource; split <;> rfl

/-- Work on a shader issues no id. -/
@[simp] theorem ids_putShader : (cache.putShader id desk poisoned).ids = cache.ids := by
  unfold putShader putResource; split <;> rfl

/-- A breakdown over a shader poisons the lock of the shader, and not that of the table. -/
@[simp] theorem poisoned_table_putShader :
    (cache.putShader id desk poisoned).table.poisoned = cache.table.poisoned := by
  unfold putShader putResource; split <;> rfl

/-- Work on a shader concerns one entry of the table. -/
theorem table_putShader : (cache.putShader id desk poisoned).table.value[other]? =
    if other = id then
      cache.table.value[id]?.map ({ · with resource := { value := .shader desk.item, poisoned } })
    else cache.table.value[other]? := by
  unfold putShader putResource
  by_cases h : other = id
  · subst h
    cases he : cache.table.value[other]? <;> simp [he, Guarded.put]
  · cases he : cache.table.value[id]? <;>
      simp [Guarded.put, ExtTreeMap.getElem?_insert, h, Ne.symm h]

/-- Work on a shader neither enters nor removes any. -/
@[simp] theorem mem_table_putShader :
    other ∈ (cache.putShader id desk poisoned).table.value ↔ other ∈ cache.table.value := by
  rw [← ExtTreeMap.isSome_getElem?_iff_mem, ← ExtTreeMap.isSome_getElem?_iff_mem, table_putShader]
  split <;> rename_i h <;> simp [h]

/-- Work on a shader concerns one shader gone from the table. -/
theorem departed_putShader
    (h : (cache.putShader id desk poisoned).departed[other]? = some resource) :
    cache.departed[other]? = some resource ∨
      other = id ∧ resource = { value := .shader desk.item, poisoned } := by
  unfold putShader putResource at h
  split at h
  · exact .inl h
  · rw [ExtTreeMap.getElem?_insert] at h
    split at h
    · rename_i hid
      exact .inr ⟨(Std.LawfulEqCmp.eq_of_compare hid).symm, (Option.some.inj h).symm⟩
    · exact .inl h

/-- A resource goes back to its place as it was. -/
theorem putResource_self (hr : cache.resource? id = some resource) :
    cache.putResource id resource = cache := by
  unfold resource? at hr
  unfold putResource
  cases he : cache.table.value[id]? with
  | none =>
    simp only [he] at hr
    -- The resource has left the table, and is put back where it is kept.
    have hd : cache.departed.insert id resource = cache.departed := by
      refine ExtTreeMap.ext_getElem? fun other => ?_
      rw [ExtTreeMap.getElem?_insert]
      split
      · rename_i hid
        rw [← Std.LawfulEqCmp.eq_of_compare hid, hr]
      · rfl
    simp only [hd]
  | some entry =>
    simp only [he] at hr
    -- The resource is put back into its entry, whose key stays.
    have ht : cache.table.value.insert id { entry with resource } = cache.table.value := by
      refine ExtTreeMap.ext_getElem? fun other => ?_
      rw [ExtTreeMap.getElem?_insert]
      split
      · rename_i hid
        rw [← Std.LawfulEqCmp.eq_of_compare hid, he, ← Option.some.inj hr]
      · rfl
    simp only [Guarded.put, ht]

/-- Work that leaves a shader as it is may have changed the books. -/
theorem putShader_self (hr : cache.resource? id = some { value := .shader shader, poisoned })
    (books : Books) :
    cache.putShader id { item := shader, books } poisoned = { cache with books } := by
  rw [putShader, putResource_self hr]

/-- Work on a shader that leaves it the shader that was made. -/
theorem WellMade.putShader (h : cache.WellMade)
    (hr : cache.resource? id = some { value := .shader shader, poisoned })
    (hmade : desk.item.MadeAs shader.id shader.name shader.context)
    (hpruned : desk.books.dependencies.Pruned) (poisoned' : Bool) :
    (cache.putShader id desk poisoned').WellMade := by
  obtain ⟨made, name, hs, hm, hname⟩ := h.resource?_shader hr
  cases hs
  rw [hm.id, hm.name, hm.context] at hmade
  -- The shader has one place, in the table or outside of it, and all others are as they were.
  constructor
  · simpa using h.factories
  · simpa using h.files
  · simpa using h.dependencies
  · simpa using h.memory
  · simpa using h.tracker
  · simpa using h.sound
  · simpa using h.ids
  · intro other entry he
    rw [table_putShader] at he
    rw [context_putShader]
    split at he
    · rename_i hid
      obtain ⟨old, hold, rfl⟩ := Option.map_eq_some_iff.mp he
      exact ⟨desk.item, rfl, by rw [hid, hname old hold]; exact hmade⟩
    · exact h.entries other entry he
  · intro other resource hd
    rw [context_putShader]
    rcases departed_putShader hd with hd | ⟨rfl, rfl⟩
    · exact h.departed other resource hd
    · exact ⟨desk.item, name, rfl, hmade⟩
  · exact hpruned

/-! ### The other changes -/

/-- The look-up, the holds and the books may change at will, as long as the dependencies are pruned. -/
theorem WellMade.update (h : cache.WellMade) (lookup : ExtTreeMap ResourceKey ResourceId)
    (held : Std.ExtTreeSet ResourceId) {books : Books} (hpruned : books.dependencies.Pruned) :
    { cache with lookup, held, books }.WellMade :=
  { h with pruned := hpruned }

/-- The shader that is made next, under a name. -/
def newcomer (cache : Cache) (key : ResourceKey) : Shader :=
  .unloaded cache.ids.next key.name cache.context

/-- The cache after a new shader has entered the table under the next id. -/
def joined (cache : Cache) (key : ResourceKey) : Cache :=
  cache.insert key (.shader (cache.newcomer key))

/-- The newcomer is found under the id that was issued for it. -/
@[simp] theorem table_joined_self : (cache.joined key).table.value[cache.ids.next]? =
    some { key, resource := { value := .shader (cache.newcomer key) } } := by
  simp [joined, Cache.insert, Guarded.put]

/-- All others are where they were. -/
theorem table_joined_of_ne (h : other ≠ cache.ids.next) :
    (cache.joined key).table.value[other]? = cache.table.value[other]? := by
  simp [joined, Cache.insert, Guarded.put, ExtTreeMap.getElem?_insert, Ne.symm h]

/-- A newcomer is made well. -/
theorem WellMade.joined (h : cache.WellMade) (key : ResourceKey) : (cache.joined key).WellMade := by
  refine { h with ids := ?_, entries := ?_ }
  · -- The ids in use are those of before and the one that is handed out.
    refine h.ids.take.congr fun id => ?_
    simp [Cache.joined, Cache.insert, Guarded.put, ExtTreeMap.mem_insert, @eq_comm _ id]
  · intro id entry he
    by_cases hid : id = cache.ids.next
    · subst hid
      rw [table_joined_self] at he
      cases he
      exact ⟨_, rfl, rfl, rfl, rfl⟩
    · rw [table_joined_of_ne hid] at he
      exact h.entries id entry he

/-- The cache after the id of a loaded resource has entered the look-up. -/
def enlist (cache : Cache) (key : ResourceKey) (id : ResourceId) : Cache :=
  { cache with lookup := cache.lookup.insert key id }

/-- The cache after it has forgotten a resource of its table. -/
def without (cache : Cache) (id : ResourceId) (entry : CacheEntry) : Cache :=
  { cache with
    ids := cache.ids.release id
    table := cache.table.put (cache.table.value.erase id)
    lookup := cache.lookup.filter fun _ other => other != id
    departed := cache.departed.insert id entry.resource
    books :=
      { dependencies := cache.books.dependencies.clear id
        memory := cache.books.memory.remove id } }

/-- What is not there cannot be forgotten. -/
theorem forget_eq_none (he : cache.table.value[id]? = none) : cache.forget id = none := by
  cases hp : cache.table.poisoned <;> simp [forget, entry?, Guarded.get?, hp, he]

/-- The end of a shader clears its dependencies. -/
theorem retire_madeAs {name : String} {context : Context} {books : Books}
    (hs : resource.value = .shader shader) (hm : shader.MadeAs id name context)
    (hd : context.dependencies = true) (ht : context.tracker = .shared) :
    resource.value.retire books = books.mapDependencies (·.clear id) := by
  simp only [hs, Resource.retire, Shader.retire, hm.id, hm.context, hd, ht, if_true]
  rfl

/-- Forgetting leaves nothing to the end of the shader: its dependencies are cleared already. -/
theorem WellMade.forget_eq_some (h : cache.WellMade) (he : cache.table.value[id]? = some entry) :
    cache.forget id = some (entry, cache.without id entry) := by
  have hforget : cache.forget id =
      some (entry, (cache.without id entry).retireUnused id) := by
    simp only [forget, h.entry?_eq, he]
    rfl
  rw [hforget]
  unfold retireUnused
  split
  · rfl
  · -- Nobody holds the shader, so it ends here and clears dependencies that are cleared already.
    obtain ⟨shader, hs, hm⟩ := h.entries id entry he
    have hd : (cache.without id entry).departed[id]? = some entry.resource := by
      simp [Cache.without]
    simp only [hd, retire_madeAs hs hm h.dependencies h.tracker]
    simp [Cache.without, Books.mapDependencies, DependencyMap.clear_clear]

/-- The last one to let go of a shader outside the table clears its dependencies. -/
theorem WellMade.letGo_eq (h : cache.WellMade) (id : ResourceId) :
    cache.letGo id = { cache with held := cache.held.erase id } ∨
      id ∉ cache.table.value ∧ cache.letGo id =
        { cache with
          held := cache.held.erase id
          books := cache.books.mapDependencies (·.clear id) } := by
  unfold letGo retireUnused
  split
  · exact .inl rfl
  · rename_i hc
    -- A shader ends only when it has left the table.
    have hmem : id ∉ cache.table.value := by
      simp only [Bool.or_eq_true, not_or] at hc
      simpa using hc.1
    split
    · rename_i resource hd
      obtain ⟨shader, name, hs, hm⟩ := h.departed id resource hd
      exact .inr ⟨hmem, by rw [retire_madeAs hs hm h.dependencies h.tracker]⟩
    · exact .inl rfl

/-- A cache stays well made when nobody holds a resource any more. -/
theorem WellMade.letGo (h : cache.WellMade) (id : ResourceId) : (cache.letGo id).WellMade := by
  rcases h.letGo_eq id with he | ⟨-, he⟩
  · rw [he]
    exact h.update _ _ h.pruned
  · rw [he]
    exact h.update _ _ (DependencyMap.pruned_clear _ _)

/-- A cache stays well made when an entry is forgotten. -/
theorem WellMade.without (h : cache.WellMade) (he : cache.table.value[id]? = some entry) :
    (cache.without id entry).WellMade := by
  have hmem : id ∈ cache.table.value := mem_table_of_entry he
  refine { h with ids := ?_, entries := ?_, departed := ?_, pruned := ?_ }
  · refine (h.ids.release hmem).congr fun other => ?_
    simp [Cache.without, Guarded.put, ExtTreeMap.mem_erase, @eq_comm _ other]
  · intro other entry' he'
    simp only [Cache.without, Guarded.put, ExtTreeMap.getElem?_erase] at he'
    split at he'
    · cases he'
    · exact h.entries other entry' he'
  · intro other resource hd
    simp only [Cache.without, ExtTreeMap.getElem?_insert] at hd
    split at hd
    · rename_i hid
      cases hd
      cases Std.LawfulEqCmp.eq_of_compare hid
      obtain ⟨shader, hs, hm⟩ := h.entries id entry he
      exact ⟨shader, _, hs, hm⟩
    · exact h.departed other resource hd
  · exact DependencyMap.pruned_clear _ _

end Cache

end ShaderKit
