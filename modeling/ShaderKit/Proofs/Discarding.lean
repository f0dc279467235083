import ShaderKit.Proofs.AtomicReload
import ShaderKit.Proofs.Pairing

namespace ShaderKit

open ShaderKit.Action

open Std (ExtTreeMap)

/-!
# A request that fails leaves nothing behind

A first load registers the files that it reads under the id of the new shader, until something is
missing however deep down.  Then the cache forgets the shader, and the shader ends.

* `Cache.Tidy`     — the books keep no file in vain, and what the look-up names has been made: the
                     invariant of all runs
* `Cache.Unfiled`  — the books have nothing under an id
* `Cache.SameHoldings` — two caches have the same table, the same look-up and the same books
* `Known.request_failed` — a request that fails leaves the same holdings, if nothing was filed under the
                     id that it takes
* `Call.FilesIssued`, `Cache.Orderly` — nobody files anything under an id before the cache has issued
                     it: the invariant of runs in which the next id is always unfiled

The cache forgets whatever is filed under the id of the shader, also what others have filed there before.
-/

namespace Cache

variable {cache mid t : Cache} {id other : ResourceId} {key : ResourceKey} {entry : CacheEntry}
  {resource : Resource} {services : Services} {j : Journal} {file : SourceFile}

/-! ### All runs -/

/-- No file is kept in vain, and what the look-up names has been made. -/
structure Tidy (cache : Cache) : Prop where
  pruned : cache.books.dependencies.Pruned
  listed : ∀ (key : ResourceKey) (id : ResourceId), cache.lookup[key]? = some id → cache.Denotes id

/-- A new cache is tidy. -/
theorem tidy_start (context : Context) (ids : IdSource) : ({ context, ids } : Cache).Tidy where
  pruned := DependencyMap.pruned_empty
  listed := by simp

/-- Work on resources leaves the look-up alone. -/
theorem lookup_putResource {resource : Guarded Resource} :
    (cache.putResource id resource).lookup = cache.lookup := by
  unfold putResource
  split <;> rfl

/-- What an id denotes it denotes after another resource is made. -/
theorem Denotes.insert (h : cache.Denotes id) (hknown : cache.Known) :
    (cache.insert key resource).Denotes id := by
  obtain ⟨old, hr⟩ := h
  have hpersists : cache.Persists (cache.insert key resource) := persists_insert hknown
  obtain ⟨old', hr', -⟩ := hpersists.resources id old hr
  exact ⟨old', hr'⟩

/-- Forgetting a resource leaves a cache tidy. -/
theorem Tidy.without (h : cache.Tidy) (he : cache.table.value[id]? = some entry) :
    (cache.without id entry).Tidy :=
  ⟨DependencyMap.pruned_clear _ _,
    fun key other hid => (h.listed key other (lookup_without.mp hid).1).without he⟩

/-- So does the end of a resource. -/
theorem Tidy.retired (h : cache.Tidy) (resource : Resource) :
    { cache with books := resource.retire cache.books }.Tidy :=
  ⟨(Resource.work_retire _ _).pruned h.pruned, h.listed⟩

/-- Whatever is done to its resources, a cache stays tidy. -/
theorem closed_tidy : Closed Tidy fun _ => True where
  work := fun h _ hr hwork => ⟨hwork.pruned h.pruned, fun key other hid =>
    (h.listed key other (by rwa [← lookup_putResource])).putResource hr⟩
  replaced := fun _ h _ _ => ⟨(DependencyMap.pruned_clear _ _).registerAll _ _, h.listed⟩
  held := fun _ h => ⟨h.pruned, h.listed⟩
  retired := fun h _ _ => h.retired _
  released := fun h _ _ _ => dropped_of h (fun _ he => h.without he) fun h _ _ => h.retired _
  without := fun h _ he => h.without he
  enlist := by
    intro cache id key h _ hdenotes
    refine ⟨h.pruned, fun key' other hid => ?_⟩
    rcases lookup_enlist.mp hid with ⟨-, rfl⟩ | ⟨-, hid⟩
    · exact hdenotes
    · exact h.listed key' other hid

/-- Entries in the books leave a cache tidy. -/
theorem Tidy.enter (h : cache.Tidy) (entries : List BooksOp) : (cache.enter entries).Tidy :=
  ⟨Books.pruned_enter h.pruned entries, h.listed⟩

/-- Making a resource leaves a cache tidy. -/
theorem Tidy.insert (h : cache.Tidy) (hknown : cache.Known) : (cache.insert key resource).Tidy where
  pruned := h.pruned
  listed := fun key' id hid => (h.listed key' id hid).insert hknown

/-- **All runs** are tidy, whatever the factories make, whatever others write into the books and
    whoever breaks down. -/
theorem Run.tidy {allowed : Cache → Call → Prop} {start : Cache} {events : List Event}
    (run : Run allowed start events cache) (h : start.Tidy) (hstart : start.Known) : cache.Tidy := by
  induction run with
  | start => exact h
  | register _ typeName factory ih => exact ⟨ih.pruned, ih.listed⟩
  | call before call _ ih =>
    have hknown := before.known hstart
    refine closed_tidy.ensures_act ih (fun _ _ => trivial) trivial (fun key _ factory _ => ?_)
      fun change _ => ⟨change.pruned_change ih.pruned, ih.listed⟩
    split
    · rename_i resource entries _
      exact (ih.enter entries).insert hknown
    · rename_i entries _
      exact ⟨(ih.enter entries).pruned, ih.listed⟩

/-! ### The request -/

/-- The books have nothing under an id. -/
structure Unfiled (cache : Cache) (id : ResourceId) : Prop where
  depends : ∀ name, ¬ cache.books.dependencies.Depends id name
  sizes : id ∉ cache.books.memory.sizes

/-- The factory for a key, if there is one and it does not break down, makes a shader under the id that
    it is given, and leaves the books alone. -/
def Builds (cache : Cache) (key : ResourceKey) : Prop :=
  ∀ factory resource entries, cache.factories[key.typeName]? = some factory →
    factory cache.ids.next key.name cache.context = .ok resource entries →
      entries = [] ∧ ∃ shader, resource = .shader shader ∧ shader.id = cache.ids.next

/-- The factory of shaders does so. -/
theorem builds_of_factory (h : cache.factories[key.typeName]? = some Shader.factory) :
    cache.Builds key := by
  intro factory resource entries hf hmade
  cases h.symm.trans hf
  cases hmade
  exact ⟨rfl, _, rfl, rfl⟩

/-- Two caches have the same table, the same look-up and the same books. -/
structure SameHoldings (cache t : Cache) : Prop where
  table : t.table = cache.table
  lookup : t.lookup = cache.lookup
  books : t.books = cache.books

/-- A cache has the same holdings as itself. -/
theorem SameHoldings.refl (cache : Cache) : cache.SameHoldings cache := ⟨rfl, rfl, rfl⟩

/-- Nothing changes by two steps that change nothing. -/
theorem SameHoldings.trans (h : cache.SameHoldings mid) (h' : mid.SameHoldings t) :
    cache.SameHoldings t :=
  ⟨h'.table.trans h.table, h'.lookup.trans h.lookup, h'.books.trans h.books⟩

/-- What was registered under an id that had nothing is forgotten, and nothing else. -/
theorem Unfiled.forget_books (h : cache.Unfiled id) (hpruned : cache.books.dependencies.Pruned)
    (names : List String) :
    ({ dependencies := (cache.books.dependencies.registerAll id names).clear id
       memory := cache.books.memory.remove id } : Books) = cache.books := by
  have hmemory : cache.books.memory.remove id = cache.books.memory := by
    have hsizes : cache.books.memory.sizes.erase id = cache.books.memory.sizes := by
      refine ExtTreeMap.ext_getElem? fun other => ?_
      rw [ExtTreeMap.getElem?_erase]
      split
      · rename_i hid
        rw [← Std.LawfulEqCmp.eq_of_compare hid, ExtTreeMap.getElem?_eq_none h.sizes]
      · rfl
    rw [MemoryLedger.remove, hsizes]
  rw [hmemory, DependencyMap.clear_registerAll hpruned h.depends]

/-- The end of a shader that has registered nothing changes nothing. -/
theorem Unfiled.retire {shader : Shader} (h : cache.Unfiled shader.id)
    (hpruned : cache.books.dependencies.Pruned) : shader.retire cache.books = cache.books := by
  have hclear := DependencyMap.clear_registerAll hpruned h.depends []
  rw [DependencyMap.registerAll_nil] at hclear
  unfold Shader.retire
  split
  · cases shader.context.tracker with
    | shared =>
      show cache.books.mapDependencies (·.clear shader.id) = _
      rw [Books.mapDependencies, hclear]
    | own => rfl
  · rfl

/-- A resource that was made comes under an id that denoted nothing, and is forgotten with it. -/
theorem Known.sameHoldings_without (h : cache.Known) (htidy : cache.Tidy)
    (hfree : cache.Unfiled cache.ids.next) (names : List String) :
    cache.SameHoldings ({ cache.insert key resource with
        books := cache.books.mapDependencies (·.registerAll cache.ids.next names) }.without
      cache.ids.next { key, resource := { value := resource } }) where
  table := by
    have hvalue : (cache.table.value.insert cache.ids.next
        { key, resource := { value := resource } }).erase cache.ids.next = cache.table.value := by
      refine ExtTreeMap.ext_getElem? fun other => ?_
      rw [ExtTreeMap.getElem?_erase, ExtTreeMap.getElem?_insert]
      split
      · rename_i hid
        rw [← Std.LawfulEqCmp.eq_of_compare hid, ExtTreeMap.getElem?_eq_none h.next_not_mem]
      · rfl
    simp only [Cache.without, Cache.insert, Guarded.put, hvalue]
  lookup := by
    refine ExtTreeMap.ext_getElem? fun key' => Option.ext fun other => ?_
    rw [lookup_without]
    -- The next id is not in the look-up, since it denotes nothing.
    refine and_iff_left_of_imp fun hid hne => ?_
    obtain ⟨resource, hr⟩ := htidy.listed key' other hid
    rw [hne, h.resource?_next] at hr
    cases hr
  books := hfree.forget_books htidy.pruned names

/-- A first load that fails, and the end of the shader. -/
theorem Known.sameHoldings_forget (h : cache.Known) (htidy : cache.Tidy)
    (hfree : cache.Unfiled cache.ids.next) (hsound : cache.table.poisoned = false) {shader : Shader}
    (hid : shader.id = cache.ids.next) (names : List String) :
    let mid : Cache := { cache.insert key (.shader shader) with
      books := cache.books.mapDependencies (·.registerAll cache.ids.next names) }
    cache.SameHoldings (mid.dropped cache.ids.next) := by
  intro mid
  have hentry : mid.entry? cache.ids.next =
      some { key, resource := { value := .shader shader } } :=
    entry?_eq_some.mpr ⟨hsound, table_insert_self⟩
  have hwithout : cache.SameHoldings (mid.without cache.ids.next
      { key, resource := { value := .shader shader } }) := h.sameHoldings_without htidy hfree names
  rw [dropped_of_entry hentry]
  unfold retireUnused
  split
  · exact hwithout
  · have hdeparted : (mid.without cache.ids.next
        { key, resource := { value := .shader shader } }).departed[cache.ids.next]? =
        some { value := .shader shader } := by
      simp [Cache.without]
    rw [hdeparted]
    refine hwithout.trans ⟨rfl, rfl, ?_⟩
    -- The cache has cleared the dependencies before the shader ends.
    show shader.retire _ = _
    rw [hwithout.books]
    exact Unfiled.retire (by rwa [hid]) htidy.pruned

/-- The first load of a new shader fails, and the cache forgets it. -/
theorem Known.ensures_finish_failed (h : cache.Known) (htidy : cache.Tidy)
    (hfree : cache.Unfiled cache.ids.next) (hsound : cache.table.poisoned = false) {shader : Shader}
    (hid : shader.id = cache.ids.next) :
    (finish key file cache.ids.next).Ensures services
      (fun ending t _ => ∀ error, ending = .failed error → cache.SameHoldings t)
      (cache.insert key (.shader shader)) j := by
  have hr : (cache.insert key (.shader shader)).resource? cache.ids.next =
      some { value := .shader shader } := resource?_of_entry table_insert_self
  refine (ensures_finish_of (ensures_loadResource hr)).mono ?_
  rintro ending t _ ⟨first, mid, hloaded, hfinished⟩ error hfailed
  cases hfinished with
  | forgotten => ?_
  | _ => cases hfailed
  cases hloaded with | loaded outcome => ?_
  -- The load has registered some files at most, and the shader is as it was made.
  obtain ⟨names, rfl⟩ := outcome.of_failed
  obtain ⟨added, hmid⟩ : ∃ added, (cache.insert key (.shader shader)).putShader cache.ids.next
      (Shader.watching { item := shader, books := (cache.insert key (.shader shader)).books } names) false =
      { cache.insert key (.shader shader) with
        books := cache.books.mapDependencies (·.registerAll cache.ids.next added) } := by
    rw [Shader.watching, putShader_self hr, hid]
    dsimp only
    cases shader.context.tracker with
    | shared => exact ⟨names, rfl⟩
    | own => exact ⟨[], rfl⟩
  show cache.SameHoldings (((cache.insert key (.shader shader)).putShader _ _ false).dropped cache.ids.next)
  rw [hmid]
  exact h.sameHoldings_forget htidy hfree hsound hid added

/-- **A request that fails** leaves the same holdings. -/
theorem Known.request_failed (h : cache.Known) (htidy : cache.Tidy)
    (hfree : cache.Unfiled cache.ids.next) (hbuilds : cache.Builds key) :
    (request key).Ensures services
      (fun ending t _ => ∀ error, ending = .failed error → cache.SameHoldings t) cache j := by
  refine ensures_request_of (fun _ _ _ h => by cases h) fun _ => ?_
  refine ensures_create_of (fun _ _ _ => .refl cache) (fun _ _ _ h => by cases h)
    (fun _ _ _ _ _ _ _ h => by cases h) fun source factory resource entries j' _ hf hsound hm => ?_
  obtain ⟨rfl, shader, rfl, hid⟩ := hbuilds factory resource entries hf hm
  exact h.ensures_finish_failed htidy hfree hsound hid

/-! ### Runs in which ids are issued before they are used -/

/-- The id denotes a resource, or it is the one of all resources that stand alone. -/
def Issued (cache : Cache) (id : ResourceId) : Prop := id = .standalone ∨ cache.Denotes id

theorem Issued.mono (h : cache.Issued id) (hmono : cache.Denotes id → t.Denotes id) : t.Issued id :=
  h.imp_right hmono

/-- The next id has not been issued. -/
theorem Known.not_issued_next (h : cache.Known) : ¬ cache.Issued cache.ids.next := by
  rintro (hnext | ⟨resource, hr⟩)
  · unfold IdSource.next at hnext
    split at hnext <;> cases hnext
  · rw [h.resource?_next] at hr
    cases hr

/-- Whatever is in the books is there under an issued id, and the resources that have been made write
    under issued ids. -/
structure Orderly (cache : Cache) : Prop where
  writers : ∀ (id : ResourceId) (resource : Guarded Resource) (owner : ResourceId),
    cache.resource? id = some resource → resource.value.WritesUnder owner → cache.Issued owner
  depends : ∀ owner name, cache.books.dependencies.Depends owner name → cache.Issued owner
  sizes : ∀ owner : ResourceId, owner ∈ cache.books.memory.sizes → cache.Issued owner

end Cache

/-- Nobody files anything under an id that has not been issued: others write into the books under issued
    ids, and so does a factory, or what it makes, apart from the id that the factory was given. -/
def Call.FilesIssued (cache : Cache) (call : Call) : Prop :=
  match call.op with
  | .onBooks (.register owner _) => cache.Issued owner
  | .onBooks (.report owner _) => cache.Issued owner
  | .request key => ∀ factory, cache.factories[key.typeName]? = some factory →
    match factory cache.ids.next key.name cache.context with
    | .ok resource entries => ∀ owner, resource.WritesUnder owner ∨ owner ∈ entries.map BooksOp.owner →
      owner = cache.ids.next ∨ cache.Issued owner
    | .error _ entries => ∀ owner ∈ entries.map BooksOp.owner, cache.Issued owner
  | _ => True

namespace Cache

variable {cache t : Cache} {id : ResourceId} {key : ResourceKey} {resource : Resource}
  {services : Services} {j : Journal}

/-- A new cache is orderly. -/
theorem orderly_new (context : Context) : ({ context } : Cache).Orderly where
  writers := by
    intro id resource owner hr
    simp [resource?] at hr
  depends := by
    intro owner name hd
    simp [DependencyMap.Depends, DependencyMap.ownersOf] at hd
  sizes := by
    intro owner hmem
    simp at hmem

/-- Entries under issued ids leave nothing under others. -/
theorem Orderly.enter (h : cache.Orderly) {issued : ResourceId → Prop} {entries : List BooksOp}
    (hmono : ∀ owner, cache.Issued owner → issued owner)
    (hentries : ∀ owner ∈ entries.map BooksOp.owner, issued owner) :
    (∀ owner name, (cache.books.enter entries).dependencies.Depends owner name → issued owner) ∧
      ∀ owner : ResourceId, owner ∈ (cache.books.enter entries).memory.sizes → issued owner := by
  have hothers {owner : ResourceId} (howner : owner ∉ entries.map BooksOp.owner) :
      ∀ op ∈ entries, op.owner ≠ owner := by
    rintro op hop rfl
    exact howner (List.mem_map_of_mem hop)
  constructor
  · intro owner name hd
    by_cases howner : owner ∈ entries.map BooksOp.owner
    · exact hentries owner howner
    · exact hmono owner (h.depends owner name ((Books.depends_enter (hothers howner) name).mp hd))
  · intro owner hmem
    by_cases howner : owner ∈ entries.map BooksOp.owner
    · exact hentries owner howner
    · refine hmono owner (h.sizes owner ?_)
      rw [← ExtTreeMap.isSome_getElem?_iff_mem] at hmem ⊢
      rwa [← Books.sizes_enter (hothers howner)]

/-- Work on resources, with books that changed under issued ids alone. -/
theorem Orderly.work (h : cache.Orderly) {desk : Desk Resource} {value : Resource}
    (hwriters : ∀ owner, value.WritesUnder owner → cache.Issued owner)
    (hwork : Resource.Work { item := value, books := cache.books } desk) :
    (∀ owner name, desk.books.dependencies.Depends owner name → cache.Issued owner) ∧
      ∀ owner : ResourceId, owner ∈ desk.books.memory.sizes → cache.Issued owner := by
  constructor
  · intro owner name hd
    by_cases howner : value.WritesUnder owner
    · exact hwriters owner howner
    · exact h.depends owner name ((hwork.depends owner howner name).mp hd)
  · intro owner hmem
    by_cases howner : value.WritesUnder owner
    · exact hwriters owner howner
    · refine h.sizes owner ?_
      rw [← ExtTreeMap.isSome_getElem?_iff_mem] at hmem ⊢
      rwa [← hwork.sizes owner howner]

/-- Forgetting a resource leaves a cache orderly. -/
theorem Orderly.without (h : cache.Orderly) {entry : CacheEntry}
    (he : cache.table.value[id]? = some entry) : (cache.without id entry).Orderly := by
  have hmono (owner : ResourceId) (howner : cache.Issued owner) :
      (cache.without id entry).Issued owner := howner.mono fun hdenotes => hdenotes.without he
  refine ⟨fun other resource owner hr howner => ?_, fun owner name hd => ?_, fun owner hmem => ?_⟩
  · rw [resource?_without he] at hr
    exact hmono owner (h.writers other resource owner hr howner)
  · exact hmono owner (h.depends owner name (DependencyMap.depends_clear.mp hd).2)
  · exact hmono owner (h.sizes owner (ExtTreeMap.mem_of_mem_erase hmem))

/-- So does the end of a resource. -/
theorem Orderly.retired (h : cache.Orderly) {resource : Guarded Resource} (hmem : id ∉ cache.table.value)
    (hd : cache.departed[id]? = some resource) :
    { cache with books := resource.value.retire cache.books }.Orderly := by
  have hr : cache.resource? id = some resource := by
    simpa [resource?, ExtTreeMap.getElem?_eq_none hmem] using hd
  have hbooks := h.work (h.writers id resource · hr) (Resource.work_retire _ _)
  exact ⟨h.writers, hbooks.1, hbooks.2⟩

/-- Whatever is done to its resources, a cache stays orderly. -/
theorem closed_orderly : Closed Orderly fun _ => True where
  work := by
    intro cache id old desk h _ hr hwork
    have hbooks := h.work (h.writers id old · hr) hwork
    have hmono (owner : ResourceId) (howner : cache.Issued owner) :
        ({ cache.putResource id desk.item with books := desk.books } : Cache).Issued owner :=
      howner.mono fun hdenotes => hdenotes.putResource hr
    refine ⟨?_, fun owner name hd => hmono owner (hbooks.1 owner name hd),
      fun owner hmem => hmono owner (hbooks.2 owner hmem)⟩
    intro other resource owner hother howner
    refine hmono owner ?_
    replace hother : (cache.putResource id desk.item).resource? other = some resource := hother
    rw [resource?_putResource hr] at hother
    split at hother
    · cases hother
      exact h.writers id old owner hr (hwork.continues.writesUnder_iff.mp howner)
    · exact h.writers other resource owner hother howner
  replaced := by
    intro cache id files h _ hdenotes
    refine ⟨h.writers, fun owner name hd => ?_, h.sizes⟩
    rcases DependencyMap.depends_registerAll.mp hd with ⟨rfl, -⟩ | hd
    · exact Or.inr hdenotes
    · exact h.depends owner name (DependencyMap.depends_clear.mp hd).2
  held := fun _ h => ⟨h.writers, h.depends, h.sizes⟩
  retired := fun h hmem hd => h.retired hmem hd
  released := fun h _ _ _ => dropped_of h (fun _ he => h.without he) fun h hmem hd => h.retired hmem hd
  without := fun h _ he => h.without he
  enlist := fun _ h _ _ => ⟨h.writers, h.depends, h.sizes⟩

/-- A factory writes into the books and makes a resource, all under the new id or under issued ones. -/
theorem Orderly.insert (h : cache.Orderly) (hknown : cache.Known) {entries : List BooksOp}
    (hwriters : ∀ owner, resource.WritesUnder owner ∨ owner ∈ entries.map BooksOp.owner →
      owner = cache.ids.next ∨ cache.Issued owner) :
    ((cache.enter entries).insert key resource).Orderly := by
  have hentered : (cache.enter entries).Known := hknown
  have hmono (owner : ResourceId) (howner : cache.Issued owner) :
      ((cache.enter entries).insert key resource).Issued owner :=
    howner.mono fun hdenotes => Denotes.insert hdenotes hentered
  have hnext : ((cache.enter entries).insert key resource).resource? cache.ids.next =
      some { value := resource } := resource?_of_entry table_insert_self
  -- The new id is issued with the resource.
  have hissued (owner : ResourceId)
      (howner : resource.WritesUnder owner ∨ owner ∈ entries.map BooksOp.owner) :
      ((cache.enter entries).insert key resource).Issued owner := by
    rcases hwriters owner howner with rfl | hissued
    · exact Or.inr ⟨_, hnext⟩
    · exact hmono owner hissued
  have hbooks := h.enter hmono fun owner howner => hissued owner (Or.inr howner)
  refine ⟨fun other made owner hr howner => ?_, hbooks.1, hbooks.2⟩
  rw [resource?_insert] at hr
  split at hr
  · cases hr
    exact hissued owner (Or.inl howner)
  · exact hmono owner (h.writers other made owner hr howner)

/-- **The step.**  A call that files under issued ids keeps a cache orderly. -/
theorem Orderly.next (h : cache.Orderly) (hknown : cache.Known) {call : Call}
    (hfiles : call.FilesIssued cache) : (call.next cache).Orderly := by
  rcases call with ⟨op, services, j⟩
  refine closed_orderly.ensures_act h (fun _ _ => trivial) trivial ?_ ?_
  · rintro key rfl factory hf
    have hfactory := hfiles factory hf
    split <;> rename_i hm <;> rw [hm] at hfactory
    · exact h.insert hknown hfactory
    · have hbooks := h.enter (fun _ => id) hfactory
      exact ⟨h.writers, hbooks.1, hbooks.2⟩
  · rintro change rfl
    refine ⟨h.writers, fun owner name hd => ?_, fun owner hmem => ?_⟩
    · cases change with
      | register other file =>
        rcases DependencyMap.depends_register.mp hd with ⟨rfl, -⟩ | hd
        · exact hfiles
        · exact h.depends owner name hd
      | clear other => exact h.depends owner name (DependencyMap.depends_clear.mp hd).2
      | report other bytes => exact h.depends owner name hd
      | remove other => exact h.depends owner name hd
    · cases change with
      | register other file => exact h.sizes owner hmem
      | clear other => exact h.sizes owner hmem
      | report other bytes =>
        rcases ExtTreeMap.mem_insert.mp hmem with howner | hmem
        · rw [← Std.LawfulEqCmp.eq_of_compare howner]
          exact hfiles
        · exact h.sizes owner hmem
      | remove other => exact h.sizes owner (ExtTreeMap.mem_of_mem_erase hmem)

/-- **The run.**  A cache is orderly as long as nobody files anything under an id that has not been
    issued. -/
theorem Run.orderly {context : Context} {events : List Event}
    (run : Run (fun cache call => call.FilesIssued cache) { context } events cache) :
    cache.Orderly := by
  induction run with
  | start => exact orderly_new context
  | register _ typeName factory ih => exact ⟨ih.writers, ih.depends, ih.sizes⟩
  | call before call ok ih => exact ih.next (before.known (known_new context)) ok

/-- In an orderly cache nothing is filed under the next id. -/
theorem Orderly.unfiled_next (h : cache.Orderly) (hknown : cache.Known) :
    cache.Unfiled cache.ids.next where
  depends := fun name hd => hknown.not_issued_next (h.depends _ name hd)
  sizes := fun hmem => hknown.not_issued_next (h.sizes _ hmem)

/-- A request for a shader files under the next id alone. -/
theorem filesIssued_of_factory (h : cache.factories[key.typeName]? = some Shader.factory)
    (services : Services) (j : Journal) :
    (Call.mk (.request key) services j).FilesIssued cache := by
  intro factory hf
  obtain rfl : Shader.factory = factory := Option.some.inj (h.symm.trans hf)
  rintro owner (rfl | hmem)
  · exact Or.inl rfl
  · cases hmem

/-! ### Requests that fail -/

theorem SameHoldings.size_eq (h : cache.SameHoldings t) : t.size = cache.size := by
  rw [size, size, h.table]

theorem SameHoldings.find?_eq (h : cache.SameHoldings t) (key : ResourceKey) :
    t.find? key = cache.find? key := by
  simp only [find?, idOf?, entry?, h.table, h.lookup]

/-- **A request that fails leaves nothing behind.**  Take a cache that any run of new factories and calls
    leads to, breakdowns included, and a request that ends with an error, for a key whose factory makes
    a shader under the id that it is given.  If nothing has been filed under that id before, the cache
    has the same number of resources, finds the same ones, and has the same books: the dependents of
    each file, the number of files, the memory figure of each resource and their sum.  And nothing has
    been filed there if everybody files under issued ids only. -/
theorem failed_request_leaves_nothing {context : Context} {events : List Event}
    (run : Run (fun _ _ => True) { context } events cache) (builds : cache.Builds key) {error : Error}
    (failed : ((request key).run services cache j).ending = .failed error) :
    (Run (fun cache call => call.FilesIssued cache) { context } events cache →
      cache.Unfiled cache.ids.next) ∧
    (cache.Unfiled cache.ids.next →
      let t := ((request key).run services cache j).state
      t.size = cache.size ∧ (∀ key', t.find? key' = cache.find? key') ∧ t.books = cache.books ∧
        t.table = cache.table ∧ t.lookup = cache.lookup) := by
  have hknown := run.known (known_new context)
  refine ⟨fun filing => filing.orderly.unfiled_next hknown, ?_⟩
  intro hfree t
  have htidy := run.tidy (tidy_start context {}) (known_new context)
  have hsame : cache.SameHoldings t := hknown.request_failed htidy hfree builds error failed
  exact ⟨hsame.size_eq, hsame.find?_eq, hsame.books, hsame.table, hsame.lookup⟩

/-- A cache with a factory of shaders. -/
def fittedCache : Cache := ({ context := {} } : Cache).register Shader.typeName Shader.factory

/-- A request for a shader over some files. -/
def requesting (name : String) (files : MemoryStore) : Call where
  op := .request ⟨Shader.typeName, name⟩
  services := { files := files.read }

/-- A cache with a shader that depends on one file, and with a vacant slot, where a shader was that
    depended on two. -/
def vacatedCache : Cache :=
  let first := (requesting "b" nestedFiles).next fittedCache
  let second := (requesting "a" nestedFiles).next first
  (Call.mk (.release (.slot 2 1)) {} {}).next second

theorem factories_fittedCache :
    fittedCache.factories[Shader.typeName]? = some Shader.factory := by
  simp [fittedCache, register]

theorem vacatedCache_orderly :
    ∃ events, Run (fun cache call => call.FilesIssued cache) { context := {} } events vacatedCache := by
  have hfirst : (requesting "b" nestedFiles).FilesIssued fittedCache :=
    filesIssued_of_factory factories_fittedCache _ _
  have hsecond : (requesting "a" nestedFiles).FilesIssued ((requesting "b" nestedFiles).next fittedCache) := by
    refine filesIssued_of_factory ?_ _ _
    rw [factories_next, factories_fittedCache]
  exact ⟨_, .call (.call (.call (.register .start _ _) _ hfirst) _ hsecond) _ trivial⟩

/-- The innermost file is gone, so the request for the second shader fails two levels down, after it has
    registered the file in between under the next version of the vacant slot. -/
theorem failed_request_leaves_nothing_nested :
    let out := (request ⟨Shader.typeName, "a"⟩).run { files := (nestedFiles.erase "c").read }
      vacatedCache {}
    vacatedCache.ids.next = .slot 2 3 ∧ out.ending = .failed (.includeNotFound "c" "b") ∧
      out.state.find? ⟨Shader.typeName, "b"⟩ = some (.slot 1 1) ∧
      out.state.books = vacatedCache.books ∧
      vacatedCache.books.dependencies.dependents "c" = [.slot 1 1] ∧
      vacatedCache.books.dependencies.fileCount = 1 := by
  dsimp only
  have hbuilds : vacatedCache.Builds ⟨Shader.typeName, "a"⟩ := by
    refine builds_of_factory ?_
    rw [vacatedCache, factories_next, factories_next, factories_next, factories_fittedCache]
  have hending : ((request ⟨Shader.typeName, "a"⟩).run { files := (nestedFiles.erase "c").read }
      vacatedCache {}).ending = .failed (.includeNotFound "c" "b") := by decide +kernel
  obtain ⟨events, hrun⟩ := vacatedCache_orderly
  obtain ⟨hunfiled, hsame⟩ :=
    failed_request_leaves_nothing (hrun.mono fun _ _ _ => trivial) hbuilds hending
  obtain ⟨-, hfind, hbooks, -⟩ := hsame (hunfiled hrun)
  have hfound : vacatedCache.find? ⟨Shader.typeName, "b"⟩ = some (.slot 1 1) := by decide +kernel
  exact ⟨by decide +kernel, hending, (hfind _).trans hfound, hbooks, by decide +kernel,
    by decide +kernel⟩

/-- A cache with a factory of shaders, in whose books somebody has registered a file and entered a
    figure under the id that will be issued first. -/
def filedCache : Cache :=
  (Call.mk (.onBooks (.report (.slot 1 1) 7)) {} {}).next
    ((Call.mk (.onBooks (.register (.slot 1 1) "f")) {} {}).next fittedCache)

/-- What was filed under an id before it was issued is forgotten with the shader of that id. -/
theorem filed_in_advance_forgotten :
    let out := (request ⟨Shader.typeName, "a"⟩).run
      { files := (({} : MemoryStore).insert "a" "#include \"missing\"\n".toUTF8).read } filedCache {}
    (∃ events, Run (fun _ _ => True) { context := {} } events filedCache) ∧
      filedCache.Builds ⟨Shader.typeName, "a"⟩ ∧
      out.ending = .failed (.includeNotFound "missing" "a") ∧
      filedCache.books.dependencies.dependents "f" = [.slot 1 1] ∧
      out.state.books.dependencies.dependents "f" = [] ∧
      filedCache.books.dependencies.fileCount = 1 ∧ out.state.books.dependencies.fileCount = 0 ∧
      filedCache.books.memory.total = 7 ∧ out.state.books.memory.total = 0 := by
  have hbuilds : filedCache.Builds ⟨Shader.typeName, "a"⟩ := by
    refine builds_of_factory ?_
    rw [filedCache, factories_next, factories_next, factories_fittedCache]
  exact ⟨⟨_, .call (.call (.register .start _ _) _ trivial) _ trivial⟩, hbuilds, by decide +kernel,
    by decide +kernel, by decide +kernel, by decide +kernel, by decide +kernel, by decide +kernel,
    by decide +kernel⟩

end Cache

end ShaderKit
