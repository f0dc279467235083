import ShaderKit.Proofs.Besides
import ShaderKit.Proofs.Pairing

namespace ShaderKit

open Std (ExtTreeMap)

/-!
# Resources under their own ids

A resource writes into the shared books under the id that it has.  As long as that is the id under which
the cache has it, what is done to one resource does not show in the others.  The factories see to it,
by giving a shader the id and the context for which it is made.

* `Resource.KeepsTo`  — a resource writes under one id alone, and does not call the cache back
* `Call.Faithful`     — a call makes a resource, if any, that keeps to the id of the request
* `Cache.Faithful`    — every resource keeps to the id that denotes it, and has the name for which it was
                        made
* `Cache.Undisturbed` — the entry and the books of a resource are as they were
* `Faithful.next`, `Run.faithful` — faithful calls leave a cache faithful
* `WellMade.faithful` — a cache of shaders is faithful
* `Faithful.next_undisturbed` — a call leaves the resources undisturbed that it does not concern
-/

/-- The resource writes into the books under this id alone, and does not call back the cache that loads
    it.  A shader keeps its dependencies in the shared books. -/
structure Resource.KeepsTo (resource : Resource) (id : ResourceId) : Prop where
  writes : ∀ owner, resource.WritesUnder owner → owner = id
  discreet : resource.Discreet
  shared : ∀ shader, resource = .shader shader → shader.context.tracker = .shared

/-- The factory for a request, if there is one, does not break down.  Until it is done, it writes into the
    books under the id that it was given, and so does what it makes.  A shader has that id and the name of
    the request, and keeps its dependencies in the shared books; what is made does not call the cache
    back. -/
def Call.Faithful (cache : Cache) (call : Call) : Prop :=
  match call.op with
  | .request key => ∀ factory, cache.factories[key.typeName]? = some factory →
    ∃ resource entries, factory cache.ids.next key.name cache.context = .ok resource entries ∧
      (∀ op ∈ entries, op.owner = cache.ids.next) ∧ resource.KeepsTo cache.ids.next ∧
      ∀ shader, resource = .shader shader → shader.name = key.name
  | _ => True

/-- What becomes of a resource is a shader only if it was one, with the same id, name and context. -/
theorem Resource.Continues.of_shader {resource : Resource} {shader : Shader}
    (h : resource.Continues (.shader shader)) :
    ∃ old, resource = .shader old ∧ shader.MadeAs old.id old.name old.context := by
  cases resource with
  | shader old => exact ⟨old, rfl, h⟩
  | document d => exact h.elim

namespace Resource.KeepsTo

variable {resource other : Resource} {id : ResourceId} {shader : Shader}

/-- A shader that keeps to an id has that id. -/
theorem id_eq (h : (Resource.shader shader).KeepsTo id) : shader.id = id := h.writes shader.id rfl

/-- A shader with an id and the shared books keeps to that id. -/
theorem of_shader (hid : shader.id = id) (hshared : shader.context.tracker = .shared) :
    (Resource.shader shader).KeepsTo id where
  writes := fun _ howner => howner.symm.trans hid
  discreet := discreet_shader shader
  shared := by
    rintro _ ⟨⟩
    exact hshared

/-- Whatever becomes of a resource, it keeps to its id. -/
theorem continues (h : resource.KeepsTo id) (hc : resource.Continues other) : other.KeepsTo id where
  writes := fun owner howner => h.writes owner (hc.writesUnder_iff.mp howner)
  discreet := hc.discreet_iff.mpr h.discreet
  shared := by
    rintro shader rfl
    obtain ⟨old, rfl, hm⟩ := hc.of_shader
    rw [hm.context]
    exact h.shared old rfl

end Resource.KeepsTo

namespace Cache

variable {cache mid t : Cache} {id other : ResourceId} {key : ResourceKey} {entry : CacheEntry}
  {services : Services} {j : Journal} {shader : Shader} {call : Call}

/-! ### Faithful caches -/

/-- Every resource keeps to the id that denotes it, and a shader of the table has the name for which it was
    made.  No file is kept in vain, and the table is sound. -/
structure Faithful (cache : Cache) : Prop where
  sound : cache.table.poisoned = false
  pruned : cache.books.dependencies.Pruned
  keeps : ∀ (id : ResourceId) (resource : Guarded Resource),
    cache.resource? id = some resource → resource.value.KeepsTo id
  names : ∀ (id : ResourceId) (key : ResourceKey) (resource : Guarded Resource) (shader : Shader),
    cache.keyOf? id = some key → cache.resource? id = some resource →
      resource.value = .shader shader → shader.name = key.name

/-- A new cache is faithful, as it holds nothing. -/
theorem faithful_new (context : Context) (ids : IdSource) : ({ context, ids } : Cache).Faithful where
  sound := rfl
  pruned := DependencyMap.pruned_empty
  keeps := by simp [resource?]
  names := by simp [resource?]

/-- Every shader has the id that denotes it. -/
theorem Faithful.ids (h : cache.Faithful) (id : ResourceId) (resource : Guarded Resource) (shader : Shader)
    (hr : cache.resource? id = some resource) (hs : resource.value = .shader shader) : shader.id = id := by
  have hkeeps := h.keeps id resource hr
  rw [hs] at hkeeps
  exact hkeeps.id_eq

/-- No resource calls back. -/
theorem Faithful.discreet (h : cache.Faithful) : cache.AllDiscreet := fun id resource hr =>
  (h.keeps id resource hr).discreet

/-- A shader of the table has the id, the name and the tracker that belong there. -/
theorem Faithful.entry_shader (h : cache.Faithful) (he : cache.table.value[id]? = some entry)
    (hs : entry.resource.value = .shader shader) :
    shader.id = id ∧ shader.name = entry.key.name ∧ shader.context.tracker = .shared := by
  have hr := resource?_of_entry he
  exact ⟨h.ids id _ shader hr hs, h.names id _ _ shader (keyOf?_eq_some.mpr ⟨entry, he, rfl⟩) hr hs,
    (h.keeps id _ hr).shared shader hs⟩

/-- Work on the resources leaves the shaders what they are. -/
theorem Faithful.same (h : cache.Faithful) (hs : cache.SameKeys t)
    (hpruned : t.books.dependencies.Pruned) : t.Faithful where
  sound := hs.poisoned.trans h.sound
  pruned := hpruned
  keeps := by
    intro id resource' hr
    obtain ⟨resource, hr, hc⟩ := hs.resource?_back hr
    exact (h.keeps id resource hr).continues hc
  names := by
    intro id key resource' shader hkey hr hshader
    obtain ⟨resource, hr, hc⟩ := hs.resource?_back hr
    rw [hshader] at hc
    obtain ⟨old, hold, hm⟩ := hc.of_shader
    exact hm.name.trans (h.names id key resource old (hs.keyOf? id ▸ hkey) hr hold)

/-- **Work on resources, requests and releases leave a cache faithful**, whatever they are aimed at. -/
theorem closed_faithful : Closed Faithful fun _ => True where
  work := fun h _ hr hwork => h.same ((sameKeys_putResource hr hwork.continues).trans
    (sameKeys_books _ _)) (hwork.pruned h.pruned)
  replaced := fun _ h _ _ => h.same (sameKeys_books _ _)
    ((DependencyMap.pruned_clear _ _).registerAll _ _)
  held := fun held h => h.same (sameKeys_held _ held) h.pruned
  retired := fun h _ _ => h.same (sameKeys_books _ _) ((Resource.work_retire _ _).pruned h.pruned)
  released := fun h _ hr hreleases => (h.discreet _ _ hr _ hreleases).elim
  without := by
    intro cache id entry h _ he
    refine ⟨h.sound, DependencyMap.pruned_clear _ _, fun other resource hr => ?_,
      fun other key resource shader hkey hr => ?_⟩
    · rw [resource?_without he] at hr
      exact h.keeps other resource hr
    · rw [resource?_without he] at hr
      exact h.names other key resource shader (keyOf?_without.mp hkey).1 hr
  enlist := fun _ h _ _ => ⟨h.sound, h.pruned, h.keeps, h.names⟩

/-- The keys of the others stay when a resource is made. -/
theorem keyOf?_insert_of_ne {resource : Resource} (hne : id ≠ cache.ids.next) :
    (cache.insert key resource).keyOf? id = cache.keyOf? id := by
  simp [keyOf?, Cache.insert, Guarded.put, ExtTreeMap.getElem?_insert, Ne.symm hne]

/-- What a faithful factory does leaves the cache faithful. -/
theorem Faithful.insert (h : cache.Faithful) {resource : Resource} (entries : List BooksOp)
    (hkeeps : resource.KeepsTo cache.ids.next)
    (hname : ∀ shader, resource = .shader shader → shader.name = key.name) :
    ((cache.enter entries).insert key resource).Faithful where
  sound := h.sound
  pruned := Books.pruned_enter h.pruned entries
  keeps := by
    intro id found hr
    rw [resource?_insert] at hr
    split at hr
    · rename_i hid
      cases hr
      rw [hid]
      exact hkeeps
    · exact h.keeps id found hr
  names := by
    intro id key' found shader hkey hr hshader
    rw [resource?_insert] at hr
    split at hr
    · rename_i hid
      cases hr
      obtain ⟨entry, he, rfl⟩ := keyOf?_eq_some.mp (hid ▸ hkey)
      cases he.symm.trans table_insert_self
      exact hname shader hshader
    · rename_i hid
      rw [keyOf?_insert_of_ne hid] at hkey
      exact h.names id key' found shader hkey hr hshader

/-- A faithful request admits what its factory makes. -/
theorem Faithful.admits (h : cache.Faithful) (hcall : call.Faithful cache)
    (hop : call.op = .request key) : Admits Faithful cache key := by
  intro factory hf
  unfold Call.Faithful at hcall
  rw [hop] at hcall
  obtain ⟨resource, entries, hm, -, hkeeps, hname⟩ := hcall factory hf
  rw [hm]
  exact h.insert entries hkeeps hname

/-- A faithful call makes nothing that calls back. -/
theorem discreet_of_faithful (hcall : call.Faithful cache) : call.Discreet cache := by
  intro key hop factory resource entries hf hm
  unfold Call.Faithful at hcall
  rw [hop] at hcall
  obtain ⟨resource', entries', hm', -, hkeeps, -⟩ := hcall factory hf
  cases hm.symm.trans hm'
  exact hkeeps.discreet

/-- **The step.**  Factories apart, nothing makes a cache unfaithful. -/
theorem Faithful.next (h : cache.Faithful) (hcall : call.Faithful cache) : (call.next cache).Faithful :=
  closed_faithful.ensures_act h (fun _ _ => trivial) trivial (fun _ => h.admits hcall)
    fun change _ => h.same (sameKeys_books _ _) (change.pruned_change h.pruned)

/-- **The run.** -/
theorem Run.faithful {allowed : Cache → Call → Prop} {start : Cache} {events : List Event}
    (run : Run allowed start events cache) (h : start.Faithful)
    (hallowed : ∀ cache call, allowed cache call → call.Faithful cache) : cache.Faithful := by
  induction run with
  | start => exact h
  | register _ typeName factory ih => exact ⟨ih.sound, ih.pruned, ih.keeps, ih.names⟩
  | call _ call ok ih => exact ih.next (hallowed _ call ok)

/-! ### Caches of shaders -/

/-- A cache of shaders made them under their own ids. -/
theorem WellMade.faithful (h : cache.WellMade) : cache.Faithful where
  sound := h.sound
  pruned := h.pruned
  keeps := by
    intro id resource hr
    obtain ⟨made, name, hmade, hm, -⟩ := h.resource?_shader hr
    rw [hmade]
    exact .of_shader hm.id (hm.context ▸ h.tracker)
  names := by
    intro id key resource shader hkey hr hs
    obtain ⟨entry, he, rfl⟩ := keyOf?_eq_some.mp hkey
    obtain ⟨made, name, hmade, hm, hname⟩ := h.resource?_shader hr
    cases hmade.symm.trans hs
    exact hm.name.trans (hname entry he).symm

/-- And it goes on like that. -/
theorem WellMade.call_faithful (h : cache.WellMade) (call : Call) : call.Faithful cache := by
  unfold Call.Faithful
  split
  · intro factory hf
    cases h.factories _ _ hf
    exact ⟨_, [], rfl, by simp, .of_shader rfl h.tracker, fun shader hs => by cases hs; rfl⟩
  · trivial

/-! ### What a call does not concern -/

/-- The entry of a resource, its dependencies and its memory figure are as they were. -/
structure Undisturbed (id : ResourceId) (cache t : Cache) : Prop where
  table : t.table.value[id]? = cache.table.value[id]?
  depends : ∀ name, t.books.dependencies.Depends id name ↔ cache.books.dependencies.Depends id name
  size : t.books.memory.sizes[id]? = cache.books.memory.sizes[id]?

/-- Nothing changed. -/
theorem Undisturbed.refl : Undisturbed id cache cache := ⟨rfl, fun _ => Iff.rfl, rfl⟩

/-- What was as it is now, is as it was. -/
theorem Undisturbed.symm (h : Undisturbed id cache t) : Undisturbed id t cache :=
  ⟨h.table.symm, fun name => (h.depends name).symm, h.size.symm⟩

/-- A resource stays undisturbed over one change after another. -/
theorem Undisturbed.trans (h : Undisturbed id cache mid) (h' : Undisturbed id mid t) :
    Undisturbed id cache t where
  table := h'.table.trans h.table
  depends := fun name => (h'.depends name).trans (h.depends name)
  size := h'.size.trans h.size

/-- It is in the table just if it was. -/
theorem Undisturbed.mem_iff (h : Undisturbed id cache t) :
    id ∈ t.table.value ↔ id ∈ cache.table.value := by
  rw [← ExtTreeMap.isSome_getElem?_iff_mem, h.table, ExtTreeMap.isSome_getElem?_iff_mem]

/-- What concerns one resource alone leaves the others undisturbed. -/
theorem SameBesides.undisturbed (h : SameBesides other cache t) (hne : id ≠ other) :
    Undisturbed id cache t where
  table := h.table id hne
  depends := h.books.depends id hne
  size := h.books.sizes id hne

/-- Holds are told apart from everything else. -/
theorem undisturbed_held (held : Std.ExtTreeSet ResourceId) :
    Undisturbed id cache { cache with held } := ⟨rfl, fun _ => Iff.rfl, rfl⟩

/-- Putting a resource back changes its own entry only. -/
theorem table_putResource_of_ne {resource : Guarded Resource} (hne : id ≠ other) :
    (cache.putResource other resource).table.value[id]? = cache.table.value[id]? := by
  unfold putResource
  split
  · simp [Guarded.put, ExtTreeMap.getElem?_insert, Ne.symm hne]
  · rfl

/-- Work on other resources leaves a resource of the table undisturbed. -/
theorem closed_undisturbed {start : Cache} (hmem : id ∈ start.table.value) :
    Closed (fun cache => cache.Faithful ∧ Undisturbed id start cache) (· ≠ id) where
  work := by
    rintro cache other old desk ⟨h, hsame⟩ hne hr hwork
    refine ⟨closed_faithful.work h trivial hr hwork, hsame.trans ?_⟩
    have howner : ¬ old.value.WritesUnder id := fun howner =>
      hne ((h.keeps other old hr).writes id howner).symm
    exact ⟨table_putResource_of_ne (Ne.symm hne), hwork.depends id howner, hwork.sizes id howner⟩
  replaced := by
    rintro cache other files ⟨h, hsame⟩ hne hdenotes
    refine ⟨closed_faithful.replaced files h trivial hdenotes, hsame.trans ?_⟩
    exact ⟨rfl, fun _ => DependencyMap.depends_registerAll_clear_of_ne (Ne.symm hne), rfl⟩
  held := fun held h => ⟨closed_faithful.held held h.1, h.2.trans (undisturbed_held held)⟩
  retired := by
    rintro cache other resource ⟨h, hsame⟩ hgone hd
    refine ⟨closed_faithful.retired h hgone hd, hsame.trans ?_⟩
    have hr : cache.resource? other = some resource := by
      simpa [resource?, ExtTreeMap.getElem?_eq_none hgone] using hd
    -- What has left the table is not the resource, which is still there.
    have howner : ¬ resource.value.WritesUnder id := by
      intro howner
      obtain rfl := (h.keeps other resource hr).writes id howner
      obtain ⟨entry, he⟩ := exists_entry_of_mem hmem
      exact hgone (mem_table_of_entry (hsame.table.trans he))
    have hwork := Resource.work_retire resource.value cache.books
    exact ⟨rfl, hwork.depends id howner, hwork.sizes id howner⟩
  released := fun h _ hr hreleases => (h.1.discreet _ _ hr _ hreleases).elim
  without := by
    rintro cache other entry ⟨h, hsame⟩ hne he
    exact ⟨closed_faithful.without h trivial he,
      hsame.trans (sameBesides_without.undisturbed (Ne.symm hne))⟩
  enlist := fun key h _ hdenotes => ⟨closed_faithful.enlist key h.1 trivial hdenotes,
    h.2.trans ⟨rfl, fun _ => Iff.rfl, rfl⟩⟩

/-- **The frame.**  A call leaves the resources of the table undisturbed that it does not concern. -/
theorem Faithful.next_undisturbed (h : cache.Faithful) (hcall : call.Faithful cache)
    (hfresh : id ≠ cache.ids.next) (he : cache.table.value[id]? = some entry)
    (hop : ¬ call.op.Concerns cache id) : Undisturbed id cache (call.next cache) := by
  have hmem := mem_table_of_entry he
  have hact : call.op.act.Ensures call.services
      (fun _ t _ => t.Faithful ∧ Undisturbed id cache t) cache call.journal := by
    refine (closed_undisturbed hmem).ensures_act ⟨h, .refl⟩ ?_ (Ne.symm hfresh) ?_ ?_
    · rintro other hother rfl
      exact hop hother
    · intro key hkey factory hf
      unfold Call.Faithful at hcall
      rw [hkey] at hcall
      obtain ⟨resource, entries, hm, hentries, hkeeps, hname⟩ := hcall factory hf
      rw [hm]
      refine ⟨h.insert entries hkeeps hname, ?_⟩
      have hothers : ∀ op ∈ entries, op.owner ≠ id := fun op hop heq =>
        hfresh (heq.symm.trans (hentries op hop))
      refine ⟨?_, Books.depends_enter hothers, Books.sizes_enter hothers⟩
      simp [Cache.insert, Cache.enter, Guarded.put, ExtTreeMap.getElem?_insert, Ne.symm hfresh]
    · intro change hchange
      refine ⟨h.same (sameKeys_books _ _) (change.pruned_change h.pruned), ?_⟩
      have hne : id ≠ change.owner := by
        rintro rfl
        exact hop (by rw [hchange]; rfl)
      have hbooks := change.agreeBesides_change cache.books
      exact ⟨rfl, hbooks.depends id hne, hbooks.sizes id hne⟩
  exact hact.2

end Cache

end ShaderKit
