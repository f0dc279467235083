import ShaderKit.Proofs.Outcomes

namespace ShaderKit.Cache

open Std (ExtTreeMap)

/-!
# What a call leaves alone

Apart from a change of a file, each call of a cache concerns one resource.

* `SameBesides` — two caches have the same table and the same books, one resource apart
* `Reloaded.sameBesides`, `Created.sameBesides` — the outcomes of loading concern the shader that is
  loaded

What holds of each resource on its own is therefore preserved once it holds of the one that a call
concerns.
-/

variable {services : Services} {cache mid t : Cache} {id : ResourceId} {desk : Desk Shader}
  {key : ResourceKey} {entry : CacheEntry}

/-- The table and the books are the same for every resource but one. -/
structure SameBesides (id : ResourceId) (cache t : Cache) : Prop where
  table : ∀ other, other ≠ id → t.table.value[other]? = cache.table.value[other]?
  books : cache.books.AgreeBesides id t.books

/-- Nothing changed. -/
theorem SameBesides.refl : SameBesides id cache cache := ⟨fun _ _ => rfl, .refl⟩

/-- One change after another, both of the same resource. -/
theorem SameBesides.trans (h : SameBesides id cache mid) (h' : SameBesides id mid t) :
    SameBesides id cache t :=
  ⟨fun other hne => (h'.table other hne).trans (h.table other hne), h.books.trans h'.books⟩

/-- The same resources are there, that one apart. -/
theorem SameBesides.mem_iff (h : SameBesides id cache t) {other : ResourceId} (hne : other ≠ id) :
    other ∈ t.table.value ↔ other ∈ cache.table.value := by
  rw [← ExtTreeMap.isSome_getElem?_iff_mem, ← ExtTreeMap.isSome_getElem?_iff_mem, h.table other hne]

/-! ### The changes of a cache -/

/-- A shader is put back, with books that agree for all others. -/
theorem sameBesides_putShader (h : cache.books.AgreeBesides id desk.books) (poisoned : Bool) :
    SameBesides id cache (cache.putShader id desk poisoned) :=
  ⟨fun other hne => by rw [table_putShader, if_neg hne], h⟩

/-- The dependencies of one resource are replaced. -/
theorem sameBesides_replaceDependencies (files : List String) :
    SameBesides id cache (cache.replaceDependencies id files) :=
  ⟨fun _ _ => rfl, ⟨fun _ hne _ => DependencyMap.depends_registerAll_clear_of_ne hne,
    fun _ _ => rfl⟩⟩

/-- A new resource is entered: it alone is new. -/
theorem sameBesides_joined : SameBesides cache.ids.next cache (cache.joined key) :=
  ⟨fun _ hne => table_joined_of_ne hne, .refl⟩

/-- A resource is forgotten: its place in the table and its entries in the books are emptied. -/
theorem sameBesides_without : SameBesides id cache (cache.without id entry) :=
  ⟨fun other hne => by
      simp [without, Guarded.put, ExtTreeMap.getElem?_erase, Ne.symm hne],
    Books.agreeBesides_clear.trans Books.agreeBesides_remove⟩

/-- Nothing is left of a resource that was forgotten. -/
theorem table_without_self : (cache.without id entry).table.value[id]? = none := by
  simp [without, Guarded.put]

/-- Nor does it depend on any file. -/
theorem not_depends_without {name : String} :
    ¬ (cache.without id entry).books.dependencies.Depends id name := fun h =>
  (DependencyMap.depends_clear.mp h).1 rfl

/-- A released resource that goes at last takes only its own entries along. -/
theorem WellMade.sameBesides_letGo (h : cache.WellMade) (id : ResourceId) :
    SameBesides id cache (cache.letGo id) := by
  rcases h.letGo_eq id with he | ⟨-, he⟩
  · rw [he]
    exact ⟨fun _ _ => rfl, .refl⟩
  · rw [he]
    exact ⟨fun _ _ => rfl, Books.agreeBesides_clear⟩

/-! ### Loading -/

/-- Work on the shader of an id concerns that id. -/
theorem WellMade.sameBesides_continue (h : cache.WellMade) {shader : Shader} {poisoned : Bool}
    (hr : cache.resource? id = some { value := .shader shader, poisoned })
    (hc : Shader.Continues { item := shader, books := cache.books } desk) (poisoned' : Bool) :
    SameBesides id cache (cache.putShader id desk poisoned') := by
  obtain ⟨name, hm⟩ := h.madeAs hr
  refine sameBesides_putShader ?_ poisoned'
  -- What the work leaves alone is told by the id of the shader, which is its place in the cache.
  rw [← hm.id]
  exact hc.books

/-- **A reload concerns the shader that is reloaded**, however it ends. -/
theorem Reloaded.sameBesides {ending : Ending Unit} (h : cache.WellMade)
    (hr : Reloaded services cache id ending t) : SameBesides id cache t := by
  -- The dependencies are cleared first, and the shader is loaded over that.
  have hcleared : SameBesides id cache (cache.replaceDependencies id []) :=
    sameBesides_replaceDependencies []
  have hw := h.replaced id []
  cases hr with
  | failed => exact .refl
  | loaded found sound _ outcome _ =>
    have hfound := (resource?_of_entry found).trans (congrArg some sound)
    exact hcleared.trans (hw.sameBesides_continue hfound outcome.continues _)
  | brokenBefore => exact .refl
  | brokenBarred => exact hcleared
  | brokenLoad found outcome =>
    exact hcleared.trans (hw.sameBesides_continue found outcome.continues _)

/-- **A first load concerns the shader that is made**, however it ends.  Its id is the next one to be
    issued. -/
theorem Created.sameBesides {ending : Ending ResourceId} (h : cache.WellMade)
    (hc : Created services cache key ending t) : SameBesides cache.ids.next cache t := by
  have hput {file : SourceFile} {desk : Desk Shader} {first : Ending Unit} (poisoned : Bool)
      (hl : Shader.Loaded services file { item := cache.newcomer key, books := cache.books }
        first desk) :
      SameBesides cache.ids.next cache ((cache.joined key).putShader cache.ids.next desk poisoned) :=
    sameBesides_joined.trans ((h.joined key).sameBesides_continue
      (resource?_of_entry table_joined_self) hl.continues _)
  cases hc with
  | refused => exact .refl
  | discarded outcome _ => exact (hput false outcome).trans sameBesides_without
  | loaded _ outcome _ => exact ⟨(hput false outcome).table, (hput false outcome).books⟩
  | brokenBefore => exact .refl
  | brokenLoad outcome poisoned => exact hput poisoned outcome

end ShaderKit.Cache
