import ShaderKit.Proofs.Outcomes

namespace ShaderKit

open ShaderKit.Action

open Std (ExtTreeMap)

/-!
# Invariants of caches that hold anything

A caller may register factories of any kind, so nothing is known about what a cache holds.  What its
operations do to it is still made up of few changes, and an invariant that survives these survives
every call:

* `Resource.Continues` — a resource after work on it: the one that was made
* `Resource.WritesUnder`, `Resource.Releases` — what a resource of any type does besides
* `Resource.Discreet`  — it does not call the cache back
* `Resource.Work`      — what is done to a resource and to the books beside it
* `Cache.Stable`       — an invariant survives work on the resources of some ids
* `Cache.Stable.keeps_reload`, `Cache.Stable.ensures_fileChanged` — so it survives reloads of them
* `Cache.Closed`       — besides, it survives that they enter and leave the table
* `Cache.loadAnew`, `Cache.finish` — what is left of a reload and of a request when all that they need
                         has been found
* `Cache.Finished`, `Cache.ensures_create_of` — what a request comes to, whatever is asserted of it
* `CacheOp.Concerns`   — the resources at which an operation is aimed
* `Cache.Closed.ensures_act` — an invariant survives a call that is aimed at some of these ids
-/

/-! ### Resources -/

namespace Resource

variable {resource mid other : Resource} {services : Services} {j : Journal} {file : SourceFile}
  {books : Books}

/-- Whatever becomes of it, a shader stays the one that was made under its id, its name and its
    context, and a document changes nothing but its content. -/
def Continues : Resource → Resource → Prop
  | .shader s, .shader s' => s'.MadeAs s.id s.name s.context
  | .document d, .document d' => d' = { d with content := d'.content }
  | _, _ => False

/-- A resource that nothing is done to goes on as it is. -/
theorem Continues.refl (resource : Resource) : resource.Continues resource := by
  cases resource with
  | shader s => exact ⟨rfl, rfl, rfl⟩
  | document d => exact rfl

/-- Work after work is work. -/
theorem Continues.trans (h : resource.Continues mid) (h' : mid.Continues other) :
    resource.Continues other := by
  cases resource <;> cases mid <;> cases other <;> try exact h.elim
  · obtain ⟨hid, hname, hcontext⟩ := h
    obtain ⟨hid', hname', hcontext'⟩ := h'
    exact ⟨hid'.trans hid, hname'.trans hname, hcontext'.trans hcontext⟩
  · exact h'.elim
  · exact h'.elim
  · rename_i d d' d''
    have hd : d' = { d with content := d'.content } := h
    have hd' : d'' = { d' with content := d''.content } := h'
    show d'' = { d with content := d''.content }
    rw [hd', hd]

/-- The resource writes into the books under this id: a shader does so under its own, and a document as it
    pleases, over loads and at its end. -/
def WritesUnder (resource : Resource) (owner : ResourceId) : Prop :=
  match resource with
  | .shader s => s.id = owner
  | .document d => (∃ file, ∃ op ∈ d.entries file, op.owner = owner) ∨ ∃ op ∈ d.parting, op.owner = owner

/-- The resource releases this id, over a load from some file. -/
def Releases (resource : Resource) (other : ResourceId) : Prop :=
  ∃ file, other ∈ resource.releases file

/-- The resource does not call back the cache that loads it. -/
def Discreet (resource : Resource) : Prop := ∀ other, ¬ resource.Releases other

/-- A shader does not call back. -/
theorem discreet_shader (shader : Shader) : (Resource.shader shader).Discreet := by
  rintro other ⟨file, hmem⟩
  cases hmem

/-- What does not call back releases nothing over any load. -/
theorem Discreet.releases_eq (h : resource.Discreet) (file : SourceFile) :
    resource.releases file = [] :=
  List.eq_nil_iff_forall_not_mem.mpr fun other hmem => h other ⟨file, hmem⟩

/-- A resource goes on writing under the same ids. -/
theorem Continues.writesUnder_iff (h : resource.Continues other) {owner : ResourceId} :
    other.WritesUnder owner ↔ resource.WritesUnder owner := by
  cases resource <;> cases other <;> try exact h.elim
  · have hid := h.id
    simp only [WritesUnder, hid]
  · rename_i d d'
    have hd : d' = { d with content := d'.content } := h
    rw [hd]
    exact Iff.rfl

/-- A resource goes on releasing the same ids. -/
theorem Continues.releases_eq (h : resource.Continues other) (file : SourceFile) :
    other.releases file = resource.releases file := by
  cases resource <;> cases other <;> try exact h.elim
  · rfl
  · rename_i d d'
    have hd : d' = { d with content := d'.content } := h
    rw [hd]
    rfl

/-- What does not call back goes on like that. -/
theorem Continues.discreet_iff (h : resource.Continues other) : other.Discreet ↔ resource.Discreet := by
  simp only [Discreet, Releases, h.releases_eq]

/-- Work on a resource, with the books beside it: it stays the resource that was made, and the books change
    under those ids alone under which it writes. -/
structure Work (desk desk' : Desk Resource) : Prop where
  continues : desk.item.Continues desk'.item
  depends : ∀ owner, ¬ desk.item.WritesUnder owner → ∀ name,
    desk'.books.dependencies.Depends owner name ↔ desk.books.dependencies.Depends owner name
  sizes : ∀ owner, ¬ desk.item.WritesUnder owner →
    desk'.books.memory.sizes[owner]? = desk.books.memory.sizes[owner]?
  pruned : desk.books.dependencies.Pruned → desk'.books.dependencies.Pruned

/-- What leaves the books alone. -/
theorem Work.of_continues (h : resource.Continues other) :
    Work { item := resource, books } { item := other, books } :=
  ⟨h, fun _ _ _ => Iff.rfl, fun _ _ => rfl, fun hpruned => hpruned⟩

/-- What continues a shader. -/
theorem Work.of_shader {desk desk' : Desk Shader} (h : Shader.Continues desk desk') :
    Work { item := .shader desk.item, books := desk.books }
      { item := .shader desk'.item, books := desk'.books } where
  continues := h.made
  depends := fun owner howner => h.books.depends owner fun heq => howner heq.symm
  sizes := fun owner howner => h.books.sizes owner fun heq => howner heq.symm
  pruned := h.pruned

/-- A document writes under the ids of its entries. -/
theorem Work.of_entries {d : Document} {entries : List BooksOp} (books : Books)
    (hentries : ∀ op ∈ entries, (Resource.document d).WritesUnder op.owner) :
    Work { item := .document d, books } { item := .document d, books := books.enter entries } where
  continues := .refl _
  depends := fun _ howner => Books.depends_enter fun op hop heq => howner (heq ▸ hentries op hop)
  sizes := fun _ howner => Books.sizes_enter fun op hop heq => howner (heq ▸ hentries op hop)
  pruned := fun hpruned => Books.pruned_enter hpruned entries

/-- Work after work is work. -/
theorem Work.trans {desk desk' desk'' : Desk Resource} (h : Work desk desk') (h' : Work desk' desk'') :
    Work desk desk'' where
  continues := h.continues.trans h'.continues
  depends := fun owner howner name =>
    (h'.depends owner (mt h.continues.writesUnder_iff.mp howner) name).trans (h.depends owner howner name)
  sizes := fun owner howner =>
    (h'.sizes owner (mt h.continues.writesUnder_iff.mp howner)).trans (h.sizes owner howner)
  pruned := fun hpruned => h'.pruned (h.pruned hpruned)

/-- The end of a resource is work on it: that of a shader concerns its dependencies. -/
theorem work_retire (resource : Resource) (books : Books) :
    Work { item := resource, books } { item := resource, books := resource.retire books } := by
  cases resource with
  | document d => exact .of_entries books fun op hop => Or.inr ⟨op, hop, rfl⟩
  | shader s =>
    have hs : Shader.Continues { item := s, books } { item := s, books := s.retire books } := by
      unfold Shader.retire
      split
      · exact ⟨⟨rfl, rfl, rfl⟩, Keeper.agreeBesides_clear, fun h => Keeper.pruned_clear h _⟩
      · exact .refl _
    exact .of_shader hs

/-- Work on a shader is work on it as a resource. -/
theorem ensures_onShader_work {α : Type} {act : Action (Desk Shader) α}
    (hact : ∀ shader, act.Ensures services (fun _ desk _ =>
      Shader.Continues { item := shader, books } desk) { item := shader, books } j) :
    (onShader act).Ensures services (fun _ desk _ => Work { item := resource, books } desk)
      { item := resource, books } j := by
  cases resource with
  | shader s =>
    rw [ensures_onShader_shader]
    exact (hact s).mono fun _ _ _ h => .of_shader h
  | document d =>
    rw [onShader, ensures_focus?_none rfl]
    exact .of_continues (.refl _)

/-- Loading is work on a resource. -/
theorem keeps_load (file : SourceFile) : (load file).Keeps Work := by
  rintro services ⟨resource, books⟩ j
  unfold load
  rw [ensures_bind, ensures_get, after_done]
  cases resource with
  | shader s =>
    dsimp only
    rw [ensures_discard]
    exact ensures_onShader_work fun shader => Shader.ensures_load.mono fun _ _ _ h => h.2.continues
  | document d =>
    dsimp only
    rw [ensures_bind, ensures_modify, after_done]
    have hentered := Work.of_entries books fun op hop =>
      (Or.inl ⟨file, op, hop, rfl⟩ : (Resource.document d).WritesUnder op.owner)
    cases hbreak : d.breakdown file with
    | some reason => exact hentered
    | none =>
      cases hparse : d.parse file with
      | ok content => exact hentered.trans (.of_continues rfl)
      | error error => exact hentered

end Resource

/-- Work on a resource is work on it under its guard as well. -/
def Desk.Work (desk desk' : Desk (Guarded Resource)) : Prop :=
  Resource.Work { item := desk.item.value, books := desk.books }
    { item := desk'.item.value, books := desk'.books }

/-- Doing nothing is work. -/
theorem Desk.work_self (desk : Desk (Guarded Resource)) : desk.Work desk :=
  .of_continues (.refl _)

/-- Work under a lock is work, whatever becomes of the lock. -/
theorem keeps_hold {α : Type} {act : Action (Desk Resource) α} (hact : act.Keeps Resource.Work) :
    (Desk.hold act).Keeps Desk.Work := by
  intro services desk j
  rw [Desk.hold, ensures_onUnwind, ensures_focus]
  refine (hact services _ j).mono fun ending inner _ h => ?_
  split <;> exact h

/-! ### Caches -/

namespace Cache

variable {cache : Cache} {id other : ResourceId} {key : ResourceKey} {entry : CacheEntry}
  {resource old : Guarded Resource} {services : Services} {j : Journal} {file : String}

/-- A resource that is put back is found in its place, and every other one in its own. -/
theorem resource?_putResource (hr : cache.resource? id = some old) :
    (cache.putResource id resource).resource? other =
      if other = id then some resource else cache.resource? other := by
  unfold resource? putResource at *
  by_cases h : other = id
  · subst h
    cases he : cache.table.value[other]? <;> simp [he, Guarded.put]
  · cases he : cache.table.value[id]? <;>
      simp [Guarded.put, ExtTreeMap.getElem?_insert, h, Ne.symm h]

/-- Putting a resource back is no business of the books. -/
theorem books_putResource : (cache.putResource id resource).books = cache.books := by
  unfold putResource
  split <;> rfl

/-- The books that are there already may be put down again. -/
theorem putResource_books : { cache.putResource id resource with books := cache.books } =
    cache.putResource id resource := by
  unfold putResource
  split <;> rfl

/-- What is forgotten is denoted by its id outside the table. -/
theorem resource?_without (he : cache.table.value[id]? = some entry) :
    (cache.without id entry).resource? other = cache.resource? other := by
  by_cases hid : id = other
  · subst hid
    rw [resource?_of_entry he]
    simp [resource?, Cache.without, Guarded.put]
  · simp [resource?, Cache.without, Guarded.put, ExtTreeMap.getElem?_erase,
      ExtTreeMap.getElem?_insert, hid]

/-- A change of a file concerns what was loaded from it and what depends on it. -/
theorem mem_affected : id ∈ cache.affected file ↔
    id ∈ cache.loadedFrom file ∨ id ∈ cache.books.dependencies.dependents file := by
  unfold affected
  by_cases h : id ∈ cache.loadedFrom file <;> simp [h]

/-- What was loaded from a file is told by its key, as long as the table can be read. -/
theorem mem_loadedFrom : id ∈ cache.loadedFrom file ↔ cache.table.poisoned = false ∧
    ∃ entry, cache.table.value[id]? = some entry ∧ entry.key.name = file := by
  by_cases hp : cache.table.poisoned = true
  · simp [loadedFrom, Guarded.get?, hp]
  · have hloaded : cache.loadedFrom file =
        (cache.table.value.filter fun _ entry => entry.key.name == file).keys := by
      simp [loadedFrom, Guarded.get?, hp]
    rw [hloaded, ExtTreeMap.mem_keys, ← ExtTreeMap.isSome_getElem?_iff_mem,
      ExtTreeMap.getElem?_filter', Option.isSome_iff_exists]
    simp [Option.filter_eq_some_iff, hp]

/-- A new resource is found under the id that was issued for it, sound. -/
theorem table_insert_self {resource : Resource} :
    (cache.insert key resource).table.value[cache.ids.next]? =
      some { key, resource := { value := resource } } := by
  simp [Cache.insert, Guarded.put]

/-- The id denotes a resource, in the table or gone from it. -/
def Denotes (cache : Cache) (id : ResourceId) : Prop := ∃ resource, cache.resource? id = some resource

/-- Putting a resource back takes no id from any. -/
theorem Denotes.putResource (h : cache.Denotes other) (hr : cache.resource? id = some old) :
    (cache.putResource id resource).Denotes other := by
  unfold Denotes
  rw [resource?_putResource hr]
  split
  · exact ⟨_, rfl⟩
  · exact h

/-- Forgetting an entry does not either: whoever holds the resource still has it. -/
theorem Denotes.without (h : cache.Denotes other) (he : cache.table.value[id]? = some entry) :
    (cache.without id entry).Denotes other := by
  obtain ⟨resource, hr⟩ := h
  exact ⟨resource, (resource?_without he).trans hr⟩

/-- Forgetting a resource ends it, unless it is held. -/
theorem forget_eq (cache : Cache) (id : ResourceId) : cache.forget id =
    (cache.entry? id).map fun entry => (entry, (cache.without id entry).retireUnused id) := by
  unfold forget
  cases cache.entry? id <;> rfl

/-- An entry is seen in a table that can be read. -/
theorem entry?_eq_some : cache.entry? id = some entry ↔
    cache.table.poisoned = false ∧ cache.table.value[id]? = some entry := by
  by_cases hp : cache.table.poisoned = true
  · simp [Guarded.get?, entry?, hp]
  · simp [Guarded.get?, entry?, hp]

/-- To drop what can be seen is to forget it, and to end it when nobody holds it. -/
theorem dropped_of_entry (he : cache.entry? id = some entry) :
    cache.dropped id = (cache.without id entry).retireUnused id := by
  rw [dropped, forget_eq, he]
  rfl

/-- What is not in the table cannot be forgotten. -/
theorem dropped_of_none (he : cache.entry? id = none) : cache.dropped id = cache := by
  rw [dropped, forget_eq, he]
  rfl

/-- The end of a resource concerns the books alone. -/
theorem resource?_retireUnused : (cache.retireUnused id).resource? other = cache.resource? other := by
  unfold retireUnused
  split
  · rfl
  · split <;> rfl

/-- What is forgotten is denoted by its id all the same. -/
theorem resource?_dropped : (cache.dropped id).resource? other = cache.resource? other := by
  cases he : cache.entry? id with
  | none => rw [dropped_of_none he]
  | some entry =>
    rw [dropped_of_entry he, resource?_retireUnused]
    exact resource?_without (entry?_eq_some.mp he).2

/-- The end of a resource that is not in the table, or that is held, changes nothing. -/
theorem retireUnused_of {I : Cache → Prop} (hI : I cache)
    (retired : ∀ resource, id ∉ cache.table.value → cache.departed[id]? = some resource →
      I { cache with books := resource.value.retire cache.books }) : I (cache.retireUnused id) := by
  unfold retireUnused
  split
  · exact hI
  · rename_i hc
    have hmem : id ∉ cache.table.value := by
      simp only [Bool.or_eq_true, not_or] at hc
      simpa using hc.1
    split
    · rename_i resource hd
      exact retired resource hmem hd
    · exact hI

/-- A resource is forgotten in two steps: it leaves the table, and it may end. -/
theorem dropped_of {I : Cache → Prop} (hI : I cache)
    (without : ∀ entry, cache.table.value[id]? = some entry → I (cache.without id entry))
    (retired : ∀ {cache : Cache} {id : ResourceId} {resource : Guarded Resource}, I cache →
      id ∉ cache.table.value → cache.departed[id]? = some resource →
        I { cache with books := resource.value.retire cache.books }) : I (cache.dropped id) := by
  cases he : cache.entry? id with
  | none => rwa [dropped_of_none he]
  | some entry =>
    rw [dropped_of_entry he]
    have hwithout := without entry (entry?_eq_some.mp he).2
    exact retireUnused_of hwithout fun resource => retired hwithout

/-- A release forgets the resource and says so. -/
theorem ensures_release_of {post : Ending Bool → Cache → Journal → Prop}
    (h : ∀ ending j', (∀ error, ending ≠ .failed error) → post ending (cache.dropped id) j') :
    (release id).Ensures services post cache j := by
  unfold dropped at h
  rw [release, ensures_bind, ensures_get, after_done]
  cases hf : cache.forget id with
  | none =>
    rw [hf] at h
    exact h _ _ fun _ heq => by cases heq
  | some found =>
    rw [hf] at h
    dsimp only
    rw [ensures_bind, ensures_set, after_done, ensures_bind]
    exact ensures_say (fun _ _ => h _ _ fun _ heq => by cases heq)
      fun _ _ _ => h _ _ fun _ heq => by cases heq

/-- If the invariant holds of the first cache, it holds of the second one. -/
def Preserving (I : Cache → Prop) (cache t : Cache) : Prop := I cache → I t

/-- An invariant survives that nothing is done. -/
theorem Preserving.refl {I : Cache → Prop} (cache : Cache) : Preserving I cache cache := id

/-- An invariant survives one change after another. -/
theorem Preserving.trans {I : Cache → Prop} (cache mid t : Cache) (h : Preserving I cache mid)
    (h' : Preserving I mid t) : Preserving I cache t := h' ∘ h

/-! ### Work on resources -/

/-- An invariant survives work on the resources of some ids, whatever is held, the end of any resource,
    and what the resources of these ids release when they are loaded. -/
structure Stable (I : Cache → Prop) (ids : ResourceId → Prop) : Prop where
  work : ∀ {cache : Cache} {id : ResourceId} {old : Guarded Resource} {desk : Desk (Guarded Resource)},
    I cache → ids id → cache.resource? id = some old →
      Desk.Work { item := old, books := cache.books } desk →
      I { cache.putResource id desk.item with books := desk.books }
  replaced : ∀ {cache : Cache} {id : ResourceId} (files : List String), I cache → ids id →
    cache.Denotes id → I (cache.replaceDependencies id files)
  held : ∀ {cache : Cache} (held : Std.ExtTreeSet ResourceId), I cache → I { cache with held }
  retired : ∀ {cache : Cache} {id : ResourceId} {resource : Guarded Resource}, I cache →
    id ∉ cache.table.value → cache.departed[id]? = some resource →
      I { cache with books := resource.value.retire cache.books }
  released : ∀ {cache : Cache} {id other : ResourceId} {resource : Guarded Resource}, I cache → ids id →
    cache.resource? id = some resource → resource.value.Releases other → I (cache.dropped other)

namespace Stable

variable {I : Cache → Prop} {ids : ResourceId → Prop}

/-- What an id denotes it goes on denoting. -/
theorem denotes (h : Stable I ids) (other : ResourceId) :
    Stable (fun cache => I cache ∧ cache.Denotes other) ids where
  work := fun hI hid hr hwork => ⟨h.work hI.1 hid hr hwork, hI.2.putResource hr⟩
  replaced := fun files hI hid hdenotes => ⟨h.replaced files hI.1 hid hdenotes, hI.2⟩
  held := fun held hI => ⟨h.held held hI.1, hI.2⟩
  retired := fun hI hmem hd => ⟨h.retired hI.1 hmem hd, hI.2⟩
  released := fun hI hid hr hreleases =>
    ⟨h.released hI.1 hid hr hreleases, hI.2.imp fun _ hd => resource?_dropped.trans hd⟩

/-- Whatever is work on the resource of an id may be done to it in the cache. -/
theorem keeps_onResource (h : Stable I ids) (hid : ids id) {α : Type}
    {act : Action (Desk (Guarded Resource)) α} (hact : act.Keeps Desk.Work) :
    (onResource id act).Keeps (Preserving I) := by
  intro services cache j
  rw [onResource]
  cases hr : cache.resource? id with
  | none =>
    rw [ensures_focus?_none (by simp [hr])]
    exact .refl cache
  | some item =>
    rw [ensures_focus?_some (by rw [hr]; rfl)]
    exact (hact services _ j).mono fun _ desk _ hwork hI => h.work hI hid hr hwork

/-- Loading under the guard is work on a resource. -/
theorem keeps_loadGuarded (h : Stable I ids) (hid : ids id) (file : SourceFile) :
    (loadGuarded id file).Keeps (Preserving I) := by
  refine (h.keeps_onResource hid (keeps_get fun services desk j => ?_)).discard
  dsimp only
  split
  · rw [report_bind]
    exact keeps_report Desk.work_self _ _ services desk j
  · exact keeps_hold (Resource.keeps_load file) services desk j

/-- A resource that breaks down stays the one it was. -/
theorem poisoned (h : Stable I ids) (hI : I cache) (hid : ids id) : I (cache.poisonResource id) := by
  unfold poisonResource
  cases hr : cache.resource? id with
  | none => exact hI
  | some item =>
    have hwork : Desk.Work { item, books := cache.books }
        { item := item.poison, books := cache.books } := Desk.work_self { item, books := cache.books }
    dsimp only
    rw [← putResource_books]
    exact h.work hI hid hr hwork

/-- While a resource releases others, its id goes on denoting it. -/
theorem ensures_releaseAll (h : Stable I ids) (hid : ids id) {value : Resource}
    {others : List ResourceId} (hothers : ∀ other ∈ others, value.Releases other) (hI : I cache)
    (hr : cache.resource? id = some { value }) :
    (others.forM fun other => discard (release other)).Ensures services
      (fun _ t _ => I t) cache j := by
  induction others generalizing cache j with
  | nil => exact hI
  | cons other others ih =>
    have hdropped := h.released hI hid hr (hothers other List.mem_cons_self)
    have hrest := fun j' => ih (fun other hmem => hothers other (List.mem_cons_of_mem _ hmem)) hdropped
      (resource?_dropped.trans hr) (j := j')
    show (discard (release other) >>= fun _ =>
      others.forM fun other => discard (release other)).Ensures _ _ _ _
    rw [ensures_bind, ensures_discard]
    refine ensures_release_of fun ending j' hne => ?_
    cases ending with
    | done _ => exact hrest j'
    | failed error => exact (hne error rfl).elim
    | unwound _ => exact hdropped

/-- What a resource releases when it is loaded leaves the invariant. -/
theorem keeps_callBack (h : Stable I ids) (hid : ids id) (file : SourceFile) :
    (callBack id file).Keeps (Preserving I) := by
  intro services cache j
  rw [callBack, ensures_bind, ensures_get, after_done]
  cases hr : cache.resource? id with
  | none => exact .refl cache
  | some resource =>
    rcases resource with ⟨value, _ | _⟩
    · dsimp only
      rw [ensures_onUnwind]
      by_cases hI : I cache
      · refine (h.ensures_releaseAll hid (fun other hmem => ⟨file, hmem⟩) hI hr).mono ?_
        intro ending t j' ht
        split
        · exact fun _ => h.poisoned ht hid
        · exact fun _ => ht
      · exact fun hI' => (hI hI').elim
    · exact .refl cache

/-- **A load** is work on one resource, apart from what that resource releases. -/
theorem keeps_loadResource (h : Stable I ids) (hid : ids id) (file : SourceFile) :
    (loadResource id file).Keeps (Preserving I) :=
  (h.keeps_callBack hid file).bind Preserving.trans fun _ => h.keeps_loadGuarded hid file

end Stable

/-- A reload after the entry has been found and the file opened. -/
def loadAnew (id : ResourceId) (name : String) (previous : List String) (file : SourceFile) :
    Action Cache Unit := do
  modify (·.replaceDependencies id [])
  try
    loadResource id file
  catch error =>
    modify (·.replaceDependencies id previous)
    throw error
  .say .info source s!"Reloaded '{name}'"

namespace Stable

variable {I : Cache → Prop} {ids : ResourceId → Prop}

/-- **A reload**, from the point where the file has been opened, leaves the invariant. -/
theorem keeps_loadAnew (h : Stable I ids) (hid : ids id) (name : String) (previous : List String)
    (file : SourceFile) :
    (loadAnew id name previous file).Keeps
      (Preserving fun cache => I cache ∧ cache.Denotes id) := by
  have hreplace (files : List String) : (modify (·.replaceDependencies id files) :
      Action Cache PUnit).Keeps (Preserving fun cache => I cache ∧ cache.Denotes id) :=
    keeps_modify fun _ hI => (h.denotes id).replaced files hI hid hI.2
  refine (hreplace _).bind Preserving.trans fun _ => ?_
  refine Keeps.bind Preserving.trans ?_ fun _ => keeps_log .refl _
  refine ((h.denotes id).keeps_loadResource hid file).tryCatch Preserving.trans fun error => ?_
  exact (hreplace _).bind Preserving.trans fun _ _ _ _ hI => hI

/-- **A reload** is work on one resource. -/
theorem keeps_reload (h : Stable I ids) (hid : ids id) : (reload id).Keeps (Preserving I) := by
  have hreport {α : Type} (error : Error) :
      (report source error : Action Cache α).Keeps (Preserving I) := keeps_report .refl _ _
  refine keeps_get fun services cache j => ?_
  dsimp only
  split
  · rename_i table htable
    split
    · rename_i entry he
      rw [ensures_bind, ensures_read, after_done]
      cases services.files entry.key.name with
      | ok file =>
        -- The id denotes the resource of the entry as long as the reload takes.
        have htable : table = cache.table.value := by
          unfold Guarded.get? at htable
          split at htable
          · cases htable
          · exact (Option.some.inj htable).symm
        have hdenotes : cache.Denotes id := ⟨_, resource?_of_entry (htable ▸ he)⟩
        refine (h.keeps_loadAnew hid _ _ file services cache j).mono fun _ _ _ ht hI => ?_
        exact (ht ⟨hI, hdenotes⟩).1
      | error error =>
        dsimp only
        rw [report_bind]
        exact hreport _ services cache j
    · exact hreport _ services cache j
  · exact hreport _ services cache j

/-- So do reloads one after another. -/
theorem keeps_reloadEach (h : Stable I ids) {each : List ResourceId} (heach : ∀ id ∈ each, ids id) :
    (reloadEach each).Keeps (Preserving I) := by
  induction each with
  | nil => exact fun _ cache _ => Preserving.refl cache
  | cons id each ih =>
    intro services cache j
    have hrest (t : Cache) (j : Journal) := ih
      (fun other hmem => heach other (List.mem_cons_of_mem _ hmem)) services t j
    rw [ensures_reloadEach_cons]
    refine (h.keeps_reload (heach id List.mem_cons_self) services cache j).mono ?_
    rintro (_ | error | reason) t j' ht
    · exact (hrest t j').mono fun _ _ _ hu hI => hu (ht hI)
    · exact (hrest t j').mono fun _ _ _ hu hI => hu (ht hI)
    · exact ht

/-- **A change of a file** is work on the resources that it concerns. -/
theorem ensures_fileChanged (h : Stable I ids) (hI : I cache)
    (hids : ∀ id ∈ cache.affected file, ids id) :
    (fileChanged file).Ensures services (fun _ t _ => I t) cache j :=
  ensures_fileChanged_of (fun j => (h.keeps_reloadEach hids services cache j).mono fun _ _ _ ht => ht hI)
    fun _ _ => hI

/-- What a shader is asked for is work on it. -/
theorem keeps_onShader (h : Stable I ids) (hid : ids id) (op : ShaderOp) :
    (onShader id op.act).Keeps (Preserving I) := by
  have hwork : (Desk.hold (Resource.onShader op.act)).Keeps Desk.Work :=
    keeps_hold fun services desk j => Resource.ensures_onShader_work fun shader =>
      op.ensures_act.mono fun _ _ _ h => h.continues
  intro services cache j
  rw [onShader, ensures_bind]
  cases hr : cache.resource? id with
  | none =>
    rw [ensures_focus?_none (by simp [hr])]
    exact .refl cache
  | some item =>
    by_cases hp : item.poisoned = true
    · rw [ensures_focus?_none (by simp [hr, hp])]
      exact .refl cache
    · rw [ensures_focus?_some (by simp [hr, hp]; rfl)]
      refine (hwork services _ j).mono fun ending desk _ hdesk => ?_
      have ht : Preserving I cache { cache.putResource id desk.item with books := desk.books } :=
        fun hI => h.work hI hid hr hdesk
      cases ending <;> exact ht

/-- A variation goes back to its place in its shader. -/
theorem keeps_onVariation (h : Stable I ids) (hid : ids id) {α : Type} (stage : Stage) (i : Nat)
    (act : Action Variation α) : (onVariation id stage i act).Keeps (Preserving I) := by
  intro services cache j
  rw [onVariation]
  cases hv : cache.variation? id stage i with
  | none =>
    rw [ensures_focus?_none (by exact hv)]
    exact .refl cache
  | some v =>
    rw [ensures_focus?_some (by exact hv)]
    show Preserving I cache (cache.putVariation id stage i _)
    unfold putVariation
    split
    · rename_i shader poisoned hr
      intro hI
      have hput (variations : VariationCache) : I (cache.putResource id
          { value := .shader (shader.putVariations stage variations), poisoned }) := by
        have hwork : Desk.Work { item := { value := .shader shader, poisoned }, books := cache.books }
            { item := { value := .shader (shader.putVariations stage variations), poisoned }
              books := cache.books } :=
          Resource.Work.of_shader (Shader.continues_putVariations variations)
        rw [← putResource_books]
        exact h.work hI hid hr hwork
      exact hput _
    · exact .refl cache

/-- The end of a resource leaves the invariant. -/
theorem retireUnused (h : Stable I ids) (hI : I cache) (id : ResourceId) :
    I (cache.retireUnused id) := retireUnused_of hI fun _ => h.retired hI

end Stable

end Cache

/-! ### Operations -/

/-- An operation is aimed at a resource: it reloads or releases it, works on it or on one of its
    variations, writes into its books, or tells of a change of the file it was loaded from or of a file
    it depends on.  Holding and letting go are aimed at nothing that is in the table. -/
def CacheOp.Concerns (cache : Cache) (id : ResourceId) : CacheOp → Prop
  | reload other => other = id
  | release other => other = id
  | onShader other _ => other = id
  | onVariation other _ _ _ => other = id
  | onBooks op => op.owner = id
  | fileChanged file =>
    (∃ entry, cache.table.value[id]? = some entry ∧ entry.key.name = file) ∨
      cache.books.dependencies.Depends id file
  | request _ => False
  | find _ => False
  | byId _ => False
  | letGo _ => False

namespace Cache

variable {cache : Cache} {id other : ResourceId} {key : ResourceKey} {entry : CacheEntry}
  {services : Services} {j : Journal} {file : String} {op : CacheOp}

/-- A change of a file is aimed at the resources that it reloads. -/
theorem concerns_of_mem_affected (h : id ∈ cache.affected file) :
    (CacheOp.fileChanged file).Concerns cache id := by
  rcases mem_affected.mp h with hl | hd
  · exact Or.inl (mem_loadedFrom.mp hl).2
  · exact Or.inr (DependencyMap.mem_dependents.mp hd)

/-- A change of a file reloads the resources that were loaded from it and those that depend on it. -/
theorem mem_affected_iff_concerns (hsound : cache.table.poisoned = false) :
    id ∈ cache.affected file ↔ (CacheOp.fileChanged file).Concerns cache id := by
  rw [mem_affected, mem_loadedFrom, DependencyMap.mem_dependents, and_iff_right hsound]
  rfl

/-- An operation that neither requests nor releases is work on the resources at which it is aimed. -/
theorem Stable.ensures_act {I : Cache → Prop} {ids : ResourceId → Prop} (h : Stable I ids)
    (hI : I cache) (hids : ∀ id, op.Concerns cache id → ids id) (hrequest : ∀ key, op ≠ .request key)
    (hrelease : ∀ id, op ≠ .release id)
    (hbooks : ∀ change, op = .onBooks change → I { cache with books := change.change cache.books }) :
    op.act.Ensures services (fun _ t _ => I t) cache j := by
  have hkeeps {α : Type} {act : Action Cache α} (hact : act.Keeps (Preserving I)) :
      (discard act : Action Cache Unit).Ensures services (fun _ t _ => I t) cache j :=
    (hact.discard services cache j).mono fun _ _ _ ht => ht hI
  cases op with
  | request key => exact (hrequest key rfl).elim
  | find key =>
    rw [CacheOp.act, ensures_modify]
    cases cache.find? key with
    | none => exact hI
    | some id => exact h.held _ hI
  | byId id =>
    rw [CacheOp.act, ensures_modify]
    split
    · exact h.held _ hI
    · exact hI
  | reload id => exact (h.keeps_reload (hids id rfl) services cache j).mono fun _ _ _ ht => ht hI
  | fileChanged file =>
    rw [CacheOp.act, ensures_discard]
    exact h.ensures_fileChanged hI fun id hid => hids id (concerns_of_mem_affected hid)
  | release id => exact (hrelease id rfl).elim
  | letGo id => exact h.retireUnused (h.held _ hI) id
  | onShader id op => exact hkeeps (h.keeps_onShader (hids id rfl) op)
  | onVariation id stage i op => exact hkeeps (h.keeps_onVariation (hids id rfl) stage i op.act)
  | onBooks op => exact hbooks op rfl

/-! ### Requests and releases -/

/-- Besides, an invariant survives that the resources of these ids enter the look-up and leave the
    table. -/
structure Closed (I : Cache → Prop) (ids : ResourceId → Prop) : Prop extends Stable I ids where
  without : ∀ {cache : Cache} {id : ResourceId} {entry : CacheEntry}, I cache → ids id →
    cache.table.value[id]? = some entry → I (cache.without id entry)
  enlist : ∀ {cache : Cache} {id : ResourceId} (key : ResourceKey), I cache → ids id →
    cache.Denotes id → I (cache.enlist key id)

/-- The invariant survives what the factory for a key does, if there is one: it writes into the books, and
    then it makes a resource, or it breaks down under the guard of the table. -/
def Admits (I : Cache → Prop) (cache : Cache) (key : ResourceKey) : Prop :=
  ∀ factory, cache.factories[key.typeName]? = some factory →
    match factory cache.ids.next key.name cache.context with
    | .ok resource entries => I ((cache.enter entries).insert key resource)
    | .error _ entries => I { cache.enter entries with table := cache.table.poison }

/-- Making a resource leaves the cache as it was, or the factory has done its work. -/
theorem ensures_make_of {post : Ending ResourceId → Cache → Journal → Prop}
    (refused : ∀ error j', post (.failed error) cache j')
    (interrupted : ¬ services.logger.Steady → ∀ reason j', post (.unwound reason) cache j')
    (broken : ∀ factory reason entries, cache.factories[key.typeName]? = some factory →
      cache.table.poisoned = false →
      factory cache.ids.next key.name cache.context = .error reason entries →
        post (.unwound reason) { cache.enter entries with table := cache.table.poison } j)
    (made : ∀ factory resource entries, cache.factories[key.typeName]? = some factory →
      cache.table.poisoned = false →
      factory cache.ids.next key.name cache.context = .ok resource entries →
        post (.done cache.ids.next) ((cache.enter entries).insert key resource) j) :
    (make key).Ensures services post cache j := by
  unfold make
  rw [ensures_bind, ensures_get, after_done]
  cases hf : cache.factories[key.typeName]? with
  | none => exact ensures_report_of (fun j' _ => refused _ j') fun h reason j' _ => interrupted h reason j'
  | some factory =>
    dsimp only
    by_cases hp : cache.table.poisoned = true
    · rw [if_pos hp, report_bind]
      exact ensures_report_of (fun j' _ => refused _ j') fun h reason j' _ => interrupted h reason j'
    · have hsound : cache.table.poisoned = false := by simpa using hp
      rw [if_neg hp]
      cases hm : factory cache.ids.next key.name cache.context with
      | ok resource entries => exact made factory resource entries hf hsound hm
      | error reason entries => exact broken factory reason entries hf hsound hm

/-- A key is found when it is in the look-up and its id is in the table. -/
theorem find?_eq_some : cache.find? key = some id ↔
    cache.lookup[key]? = some id ∧ ∃ entry, cache.entry? id = some entry := by
  constructor
  · intro h
    obtain ⟨found, hfound, h⟩ := Option.bind_eq_some_iff.mp h
    obtain ⟨entry, he, h⟩ := Option.bind_eq_some_iff.mp h
    cases h
    exact ⟨hfound, entry, he⟩
  · rintro ⟨hid, entry, he⟩
    exact Option.bind_eq_some_iff.mpr ⟨id, hid, Option.bind_eq_some_iff.mpr ⟨entry, he, rfl⟩⟩

/-- A request after the resource has been made. -/
def finish (key : ResourceKey) (file : SourceFile) (id : ResourceId) : Action Cache ResourceId := do
  try
    loadResource id file
  catch error =>
    discardFailed key id
    throw error
  modify fun cache => cache.enlist key id
  .say .info source s!"Loaded {key.typeName} '{key.name}'"
  return id

/-- What becomes of a resource after its first load: it enters the look-up, or it is forgotten.  The
    logger may break down over either. -/
inductive Finished (services : Services) (key : ResourceKey) (id : ResourceId) (mid : Cache) :
    Ending Unit → Ending ResourceId → Cache → Prop where
  | listed : Finished services key id mid (.done ()) (.done id) (mid.enlist key id)
  | listedBroken {reason : String} (unsteady : ¬ services.logger.Steady) :
    Finished services key id mid (.done ()) (.unwound reason) (mid.enlist key id)
  | forgotten {error : Error} :
    Finished services key id mid (.failed error) (.failed error) (mid.dropped id)
  | failedBroken {error : Error} {reason : String} (unsteady : ¬ services.logger.Steady) :
    Finished services key id mid (.failed error) (.unwound reason) mid
  | broken {reason : String} : Finished services key id mid (.unwound reason) (.unwound reason) mid

/-- Whatever the first load is known to do, a request goes on from there in one of these ways. -/
theorem ensures_finish_of {source : SourceFile} {post : Ending Unit → Cache → Prop}
    (h : (loadResource id source).Ensures services (fun first mid _ => post first mid) cache j) :
    (finish key source id).Ensures services (fun ending t _ => ∃ first mid, post first mid ∧
      Finished services key id mid first ending t) cache j := by
  unfold finish
  rw [ensures_bind, ensures_tryCatch]
  refine h.mono ?_
  rintro (_ | error | reason) mid j₁ hmid
  · rw [caught_done, after_done, ensures_bind, ensures_modify, after_done, ensures_bind]
    refine ensures_say_of (fun _ _ => ?_) fun hunsteady _ _ _ => ⟨_, _, hmid, .listedBroken hunsteady⟩
    exact ⟨_, _, hmid, .listed⟩
  · rw [caught_failed, ensures_bind, discardFailed, ensures_bind]
    refine ensures_say_of (fun _ _ => ?_) fun hunsteady _ _ _ => ⟨_, _, hmid, .failedBroken hunsteady⟩
    exact ⟨_, _, hmid, .forgotten⟩
  · exact ⟨_, _, hmid, .broken⟩

/-- Making and loading a resource leaves the cache as it was, or the file has been opened and the factory
    has done its work. -/
theorem ensures_create_of {post : Ending ResourceId → Cache → Prop}
    (refused : ∀ error, post (.failed error) cache)
    (interrupted : ¬ services.logger.Steady → ∀ reason, post (.unwound reason) cache)
    (broken : ∀ factory reason entries, cache.factories[key.typeName]? = some factory →
      cache.table.poisoned = false →
      factory cache.ids.next key.name cache.context = .error reason entries →
        post (.unwound reason) { cache.enter entries with table := cache.table.poison })
    (made : ∀ source factory resource entries j', services.files key.name = .ok source →
      cache.factories[key.typeName]? = some factory → cache.table.poisoned = false →
      factory cache.ids.next key.name cache.context = .ok resource entries →
        (finish key source cache.ids.next).Ensures services (fun ending t _ => post ending t)
          ((cache.enter entries).insert key resource) j') :
    (create key).Ensures services (fun ending t _ => post ending t) cache j := by
  have hreport {α : Type} {next : α → Action Cache ResourceId} (error : Error) :
      (report Cache.source error >>= next).Ensures services (fun ending t _ => post ending t) cache j := by
    rw [report_bind]
    exact ensures_report_of (fun _ _ => refused error) fun h reason _ _ => interrupted h reason
  unfold create
  rw [ensures_bind, ensures_get, after_done]
  split
  · rw [ensures_bind, ensures_read, after_done]
    cases hopen : services.files key.name with
    | error error => exact hreport error
    | ok source =>
      show (make key >>= finish key source).Ensures services _ cache j
      rw [ensures_bind]
      exact ensures_make_of (fun error _ => refused error) (fun h reason _ => interrupted h reason)
        broken fun factory resource entries hf hsound hm =>
          made source factory resource entries j hopen hf hsound hm
  · exact hreport _

/-- Only a request for what is not there makes a resource. -/
theorem ensures_request_of {post : Ending ResourceId → Cache → Prop}
    (found : ∀ id, cache.find? key = some id → post (.done id) cache)
    (created : cache.find? key = none →
      (create key).Ensures services (fun ending t _ => post ending t) cache j) :
    (request key).Ensures services (fun ending t _ => post ending t) cache j := by
  rw [request, ensures_bind, ensures_get, after_done]
  cases hf : cache.find? key with
  | some id => exact found id hf
  | none => exact created hf

namespace Closed

variable {I : Cache → Prop} {ids : ResourceId → Prop}

/-- What an id denotes it goes on denoting, over requests and releases as well. -/
theorem denotes (h : Closed I ids) (other : ResourceId) :
    Closed (fun cache => I cache ∧ cache.Denotes other) ids where
  toStable := h.toStable.denotes other
  without := fun hI hid he => ⟨h.without hI.1 hid he, hI.2.without he⟩
  enlist := fun key hI hid hdenotes => ⟨h.enlist key hI.1 hid hdenotes, hI.2⟩

/-- Forgetting a resource leaves the invariant. -/
theorem dropped (h : Closed I ids) (hI : I cache) (hid : ids id) : I (cache.dropped id) :=
  dropped_of hI (fun _ => h.without hI hid) h.retired

/-- So does a release. -/
theorem ensures_release (h : Closed I ids) (hI : I cache) (hid : ids id) :
    (release id).Ensures services (fun _ t _ => I t) cache j :=
  ensures_release_of fun _ _ _ => h.dropped hI hid

/-- The first load decides whether the new resource stays. -/
theorem keeps_finish (h : Closed I ids) (hid : ids id) (key : ResourceKey) (file : SourceFile) :
    (finish key file id).Keeps (Preserving fun cache => I cache ∧ cache.Denotes id) := by
  refine Keeps.bind Preserving.trans ?_ fun _ => ?_
  · refine ((h.denotes id).keeps_loadResource hid file).tryCatch Preserving.trans fun error => ?_
    refine Keeps.bind Preserving.trans ?_ fun _ _ _ _ hI => hI
    exact (keeps_log .refl _).bind Preserving.trans fun _ =>
      keeps_modify fun _ hI => (h.denotes id).dropped hI hid
  · refine (keeps_modify fun _ hI => (h.denotes id).enlist key hI hid hI.2).bind Preserving.trans
      fun _ => ?_
    exact (keeps_log .refl _).bind Preserving.trans fun _ _ _ _ hI => hI

/-- **A request** makes a resource at most, and works on it under the next id. -/
theorem ensures_request (h : Closed I ids) (hI : I cache) (hid : ids cache.ids.next)
    (hadmits : Admits I cache key) :
    (request key).Ensures services (fun _ t _ => I t) cache j := by
  refine ensures_request_of (fun _ _ => hI) fun _ => ?_
  refine ensures_create_of (fun _ => hI) (fun _ _ => hI) (fun factory reason entries hf _ hm => ?_)
    fun source factory resource entries j' _ hf _ hm => ?_
  · have hI' := hadmits factory hf
    rwa [hm] at hI'
  · have hI' := hadmits factory hf
    rw [hm] at hI'
    refine (h.keeps_finish hid key source services _ j').mono fun _ _ _ ht => ?_
    exact (ht ⟨hI', _, resource?_of_entry table_insert_self⟩).1

/-- **A call** preserves the invariant, if it is aimed at resources of these ids. -/
theorem ensures_act (h : Closed I ids) (hI : I cache) (hids : ∀ id, op.Concerns cache id → ids id)
    (hnext : ids cache.ids.next)
    (hadmits : ∀ key, op = .request key → Admits I cache key)
    (hbooks : ∀ change, op = .onBooks change → I { cache with books := change.change cache.books }) :
    op.act.Ensures services (fun _ t _ => I t) cache j := by
  by_cases hrequest : ∃ key, op = .request key
  · obtain ⟨key, rfl⟩ := hrequest
    rw [CacheOp.act, ensures_bind]
    refine (h.ensures_request hI hnext (hadmits key rfl)).mono ?_
    rintro (id | error | reason) t j₁ ht
    · exact h.held _ ht
    · exact ht
    · exact ht
  by_cases hrelease : ∃ id, op = .release id
  · obtain ⟨id, rfl⟩ := hrelease
    rw [CacheOp.act, ensures_discard]
    exact h.ensures_release hI (hids id rfl)
  exact h.toStable.ensures_act hI hids (fun key hop => hrequest ⟨key, hop⟩)
    (fun id hop => hrelease ⟨id, hop⟩) hbooks

end Closed

/-- No call registers a factory. -/
theorem closed_factories (factories : ExtTreeMap String Factory) :
    Closed (fun cache => cache.factories = factories) fun _ => True where
  work := by
    intro cache id old desk h _ _ _
    rw [← h]
    show (cache.putResource id desk.item).factories = _
    unfold putResource
    split <;> rfl
  replaced := fun _ h _ _ => h
  held := fun _ h => h
  retired := fun h _ _ => h
  released := fun h _ _ _ => dropped_of (I := fun cache => cache.factories = factories) h
    (fun _ _ => h) fun h _ _ => h
  without := fun h _ _ => h
  enlist := fun _ h _ _ => h

/-- No call changes the factories. -/
theorem factories_next (call : Call) (cache : Cache) : (call.next cache).factories = cache.factories :=
  (closed_factories cache.factories).ensures_act rfl (fun _ _ => trivial) trivial
    (fun _ _ _ _ => by split <;> rfl) fun _ _ => rfl

end Cache

end ShaderKit
