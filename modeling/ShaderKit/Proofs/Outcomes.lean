import ShaderKit.Proofs.WellMade

namespace ShaderKit

open ShaderKit.Action

/-!
# What the calls of a cache do

Each operation of a cache has few outcomes, and every later argument about caches goes through the
list of them.

* `LoadedIn`, `Created` — the outcomes of loading a shader in its place, and of making one
* `Reloaded`, `ReloadedEach`, `Followed` — the outcomes of reloading one shader, some of them, and
  those that a file concerns
* `Answered`        — the outcomes of a call
* `Reached.wellMade` — every cache that calls lead to is well made

The lemma `ensures_*` of an operation says that it has no other outcomes, from well made caches.
-/

variable {services : Services} {j : Journal} {α : Type} {shader : Shader} {books : Books}
  {file : SourceFile} {cache : Cache} {id : ResourceId} {poisoned : Bool}

/-- Work under a sound guard: a breakdown poisons it. -/
theorem ensures_hold {ρ : Type} {act : Action (Desk ρ) α} {item : ρ}
    {post : Ending α → Desk (Guarded ρ) → Journal → Prop} :
    (Desk.hold act).Ensures services post { item := { value := item }, books } j ↔
      act.Ensures services (fun ending desk j' => post ending
        { item := { value := desk.item, poisoned := ending.isUnwound }, books := desk.books } j')
        { item, books } j := by
  rw [Desk.hold, ensures_onUnwind, ensures_focus]
  unfold Ensures
  cases (act.run services { item, books } j).ending <;> rfl

/-- Work on the shader inside of a resource is judged on the shader. -/
theorem ensures_onShader_shader {act : Action (Desk Shader) α}
    {post : Ending (Option α) → Desk Resource → Journal → Prop} :
    (Resource.onShader act).Ensures services post { item := .shader shader, books } j ↔
      act.Ensures services (fun ending desk => post (ending.map some)
        { item := .shader desk.item, books := desk.books }) { item := shader, books } j :=
  ensures_focus?_some rfl

namespace Cache

/-- Work on a shader whose guard is sound. -/
theorem ensures_onShader {act : Action (Desk Shader) α}
    {post : Ending (Option α) → Cache → Journal → Prop}
    (hr : cache.resource? id = some { value := .shader shader })
    (h : act.Ensures services (fun ending desk j' => post (ending.map some)
      (cache.putShader id desk ending.isUnwound) j') { item := shader, books := cache.books } j) :
    (onShader id act).Ensures services post cache j := by
  rw [onShader, ensures_bind, ensures_focus?_some (by simp [hr]; rfl)]
  rw [ensures_hold, ensures_onShader_shader]
  refine h.mono fun ending desk j' hpost => ?_
  cases ending <;> exact hpost

/-- Behind a poisoned guard nothing happens. -/
theorem ensures_onShader_barred {act : Action (Desk Shader) α}
    {post : Ending (Option α) → Cache → Journal → Prop}
    (hr : ∀ resource, cache.resource? id = some resource → resource.poisoned = true)
    (h : post (.done none) cache j) : (onShader id act).Ensures services post cache j := by
  rw [onShader, ensures_bind, ensures_focus?_none]
  · exact h
  · cases hc : cache.resource? id with
    | none => rfl
    | some resource => simp [hr resource hc]

/-- The outcomes of loading a shader of a cache. -/
inductive LoadedIn (services : Services) (file : SourceFile) (cache : Cache) (id : ResourceId)
    (shader : Shader) : (poisoned : Bool) → Ending Unit → Cache → Prop where
  /-- The guard is poisoned. -/
  | barred {ending : Ending Unit} (failed : ending ≠ .done ()) :
    LoadedIn services file cache id shader true ending cache
  | loaded {ending : Ending Unit} {desk : Desk Shader}
    (outcome : Shader.Loaded services file { item := shader, books := cache.books } ending desk) :
    LoadedIn services file cache id shader false ending
      (cache.putShader id desk ending.isUnwound)

/-- A load of what calls nothing back is work under its guard alone. -/
theorem ensures_loadResource_iff {post : Ending Unit → Cache → Journal → Prop}
    (hquiet : ∀ resource, cache.resource? id = some resource → resource.value.releases file = []) :
    (loadResource id file).Ensures services post cache j ↔
      (loadGuarded id file).Ensures services post cache j := by
  rw [loadResource, ensures_bind, callBack, ensures_bind, ensures_get, after_done]
  cases hr : cache.resource? id with
  | none => exact Iff.rfl
  | some resource =>
    rcases resource with ⟨value, _ | _⟩
    · dsimp only
      rw [hquiet _ hr]
      exact Iff.rfl
    · exact Iff.rfl

/-- It comes to the same. -/
theorem run_loadResource
    (hquiet : ∀ resource, cache.resource? id = some resource → resource.value.releases file = []) :
    (loadResource id file).run services cache j = (loadGuarded id file).run services cache j := by
  have hensured : (loadResource id file).Ensures services (fun ending t j' =>
      (⟨ending, t, j'⟩ : Outcome Cache Unit) = (loadGuarded id file).run services cache j) cache j :=
    (ensures_loadResource_iff hquiet).mpr rfl
  exact hensured

/-- A shader calls nothing back. -/
theorem releases_of_shader (hr : cache.resource? id = some { value := .shader shader, poisoned })
    (file : SourceFile) (resource : Guarded Resource) (h : cache.resource? id = some resource) :
    resource.value.releases file = [] := by
  cases hr.symm.trans h
  rfl

/-- Behind a poisoned guard a load is refused, and nothing changes. -/
theorem ensures_loadResource_barred {resource : Resource}
    (hr : cache.resource? id = some { value := resource, poisoned := true }) :
    (loadResource id file).Ensures services (fun ending t _ => t = cache ∧
      (ending = .failed (.invalidResource "ResourceCache resource lock poisoned") ∨
        ¬ services.logger.Steady ∧ ending.isUnwound = true)) cache j := by
  rw [loadResource, ensures_bind, callBack, ensures_bind, ensures_get, after_done, hr, ensures_pure,
    after_done, loadGuarded, ensures_discard, onResource, ensures_focus?_some (by rw [hr]; rfl),
    ensures_bind, ensures_get, after_done, if_pos rfl, report_bind]
  -- The resource is put back as it was.
  have hsame : { cache.putResource id { value := resource, poisoned := true } with
      books := cache.books } = cache := by rw [putResource_self hr]
  exact ensures_report_of (fun _ _ => ⟨hsame, .inl rfl⟩)
    fun hunsteady _ _ _ => ⟨hsame, .inr ⟨hunsteady, rfl⟩⟩

/-- Loading a shader in its place. -/
theorem ensures_loadResource
    (hr : cache.resource? id = some { value := .shader shader, poisoned }) :
    (loadResource id file).Ensures services
      (fun ending t _ => LoadedIn services file cache id shader poisoned ending t) cache j := by
  cases poisoned with
  | true =>
    refine (ensures_loadResource_barred hr).mono ?_
    rintro ending _ _ ⟨rfl, rfl | ⟨-, hunwound⟩⟩
    · exact .barred (by simp)
    · exact .barred (by rintro rfl; cases hunwound)
  | false =>
    rw [ensures_loadResource_iff (releases_of_shader hr file), loadGuarded, ensures_discard, onResource,
      ensures_focus?_some (by simp [hr]; rfl), ensures_bind, ensures_get, after_done, if_neg (by simp),
      ensures_hold, Resource.load, ensures_bind, ensures_get, after_done, ensures_discard,
      ensures_onShader_shader]
    refine Shader.ensures_load.mono fun ending desk j' h => ?_
    have hloaded : LoadedIn services file cache id shader false ending
        (cache.putShader id desk ending.isUnwound) := .loaded h.2
    cases ending <;> exact hloaded

/-- Work on a shader keeps a cache well made. -/
theorem WellMade.continue (h : cache.WellMade) {desk : Desk Shader}
    (hr : cache.resource? id = some { value := .shader shader, poisoned })
    (hc : Shader.Continues { item := shader, books := cache.books } desk) (poisoned' : Bool) :
    (cache.putShader id desk poisoned').WellMade :=
  h.putShader hr hc.made (hc.pruned h.pruned) poisoned'

/-- Replacing dependencies leaves a cache well made. -/
theorem WellMade.replaced (h : cache.WellMade) (id : ResourceId) (files : List String) :
    (cache.replaceDependencies id files).WellMade :=
  h.update _ _ ((DependencyMap.pruned_clear _ _).registerAll _ _)

/-! ### Reloading -/

/-- The outcomes of reloading. -/
inductive Reloaded (services : Services) (cache : Cache) (id : ResourceId) :
    Ending Unit → Cache → Prop where
  /-- A reload that fails changes nothing. -/
  | failed {error : Error} : Reloaded services cache id (.failed error) cache
  | loaded {ending : Ending Unit} {entry : CacheEntry} {shader : Shader} {file : SourceFile}
    {desk : Desk Shader}
    (found : cache.table.value[id]? = some entry)
    (sound : entry.resource = { value := .shader shader })
    (opened : services.files entry.key.name = .ok file)
    (outcome : Shader.Loaded services file
      { item := shader, books := (cache.replaceDependencies id []).books } (.done ()) desk)
    (ends : ending = .done () ∨ ending.isUnwound) :
    Reloaded services cache id ending ((cache.replaceDependencies id []).putShader id desk false)
  /-- A breakdown before the dependencies are cleared. -/
  | brokenBefore {reason : String} : Reloaded services cache id (.unwound reason) cache
  /-- A breakdown over a poisoned guard. -/
  | brokenBarred {reason : String} :
    Reloaded services cache id (.unwound reason) (cache.replaceDependencies id [])
  | brokenLoad {reason : String} {shader : Shader} {file : SourceFile} {desk : Desk Shader}
    (found : cache.resource? id = some { value := .shader shader })
    (outcome : Shader.Loaded services file
      { item := shader, books := (cache.replaceDependencies id []).books } (.unwound reason) desk) :
    Reloaded services cache id (.unwound reason)
      ((cache.replaceDependencies id []).putShader id desk true)

/-- The entry of an id, if there is one, is a shader that was made under that id. -/
def OwnShader (cache : Cache) (id : ResourceId) : Prop :=
  ∀ entry, cache.table.value[id]? = some entry →
    ∃ shader, entry.resource.value = .shader shader ∧ shader.id = id

/-- In a well-made cache, every place of the table holds the shader that was made for it. -/
theorem WellMade.ownShader (h : cache.WellMade) (id : ResourceId) : cache.OwnShader id := by
  intro entry he
  obtain ⟨shader, hs, hm⟩ := h.entries id entry he
  exact ⟨shader, hs, hm.id⟩

/-- Dependencies that were replaced can be given back. -/
theorem replaceDependencies_restore (hpruned : cache.books.dependencies.Pruned) (id : ResourceId)
    (names : List String) : (cache.replaceDependencies id names).replaceDependencies id
      (cache.books.dependencies.dependenciesOf id) = cache := by
  simp only [replaceDependencies, Books.mapDependencies, DependencyMap.restore hpruned]

/-- After a load that failed over cleared dependencies, giving them back leaves the cache as it was. -/
theorem giveBack (hpruned : cache.books.dependencies.Pruned) {entry : CacheEntry}
    {desk : Desk Shader} {error : Error} (he : cache.table.value[id]? = some entry)
    (hs : entry.resource = { value := .shader shader, poisoned }) (hid : shader.id = id)
    (hl : Shader.Loaded services file
      { item := shader, books := (cache.replaceDependencies id []).books } (.failed error) desk) :
    ((cache.replaceDependencies id []).putShader id desk poisoned).replaceDependencies id
      (cache.books.dependencies.dependenciesOf id) = cache := by
  obtain ⟨names, rfl⟩ := hl.of_failed
  have hr : (cache.replaceDependencies id []).resource? id =
      some { value := .shader shader, poisoned } :=
    (resource?_of_entry he).trans (congrArg some hs)
  -- The load has registered some files at most, and they are cleared with the rest.
  obtain ⟨added, hput⟩ : ∃ added, (cache.replaceDependencies id []).putShader id (Shader.watching
      { item := shader, books := (cache.replaceDependencies id []).books } names) poisoned =
      cache.replaceDependencies id added := by
    rw [Shader.watching, putShader_self hr, hid]
    dsimp only
    cases shader.context.tracker with
    | shared => exact ⟨names, rfl⟩
    | own => exact ⟨[], rfl⟩
  rw [hput, replaceDependencies_restore hpruned id added]

/-- Reloading a shader that was made under its id, whatever else the cache holds. -/
theorem ensures_reload_of (hpruned : cache.books.dependencies.Pruned) (hown : cache.OwnShader id) :
    (reload id).Ensures services (fun ending t _ => Reloaded services cache id ending t) cache j := by
  unfold reload
  rw [ensures_bind, ensures_get, after_done]
  by_cases hpoisoned : cache.table.poisoned = true
  · have hget : cache.table.get? = none := by simp [Guarded.get?, hpoisoned]
    simp only [hget]
    exact ensures_report (fun _ _ => .failed) (fun _ _ _ => .brokenBefore)
  have hget : cache.table.get? = some cache.table.value := by simp [Guarded.get?, hpoisoned]
  simp only [hget]
  cases he : cache.table.value[id]? with
  | none => exact ensures_report (fun _ _ => .failed) (fun _ _ _ => .brokenBefore)
  | some entry =>
    simp only [ensures_bind, ensures_read, after_done]
    cases hf : services.files entry.key.name with
    | error error =>
      dsimp only
      rw [ensures_bind]
      exact ensures_report (fun _ _ => .failed) (fun _ _ _ => .brokenBefore)
    | ok file =>
      simp only [ensures_pure, ensures_bind, ensures_modify, after_done, ensures_tryCatch]
      obtain ⟨shader, hvalue, hid⟩ := hown entry he
      obtain ⟨poisoned, hp⟩ : ∃ poisoned, entry.resource.poisoned = poisoned := ⟨_, rfl⟩
      have hs : entry.resource = { value := .shader shader, poisoned } := by rw [← hvalue, ← hp]
      have hr : cache.resource? id = some { value := .shader shader, poisoned } := by
        rw [resource?_of_entry he, hs]
      -- Clearing the dependencies leaves the shader in its place.
      have hcleared : (cache.replaceDependencies id []).resource? id =
          some { value := .shader shader, poisoned } := hr
      refine (ensures_loadResource hcleared).mono ?_
      rintro ending t j' hloaded
      -- What is caught is an error of the load; the dependencies are given back then.
      cases hloaded with
      | barred hfailed =>
        rcases ending with (_ | error | reason)
        · exact (hfailed rfl).elim
        · rw [caught_failed, ensures_bind, ensures_modify, after_done, ensures_throw, after_failed,
            replaceDependencies_restore hpruned id []]
          exact .failed
        · exact .brokenBarred
      | @loaded _ desk outcome =>
        rcases ending with (_ | error | reason)
        · rw [caught_done, after_done]
          exact ensures_say (fun _ _ => .loaded he hs hf outcome (.inl rfl))
            (fun _ _ _ => .loaded he hs hf outcome (.inr rfl))
        · rw [caught_failed, ensures_bind, ensures_modify, after_done, ensures_throw, after_failed]
          show Reloaded _ _ _ _ ((Cache.putShader _ _ _ false).replaceDependencies _ _)
          rw [giveBack hpruned he hs hid outcome]
          exact .failed
        · exact .brokenLoad hr outcome

/-- **The outcomes of a reload**, in a cache of shaders. -/
theorem ensures_reload (h : cache.WellMade) :
    (reload id).Ensures services (fun ending t _ => Reloaded services cache id ending t) cache j :=
  ensures_reload_of h.pruned (h.ownShader id)

/-- However a reload ends, the cache is well made. -/
theorem Reloaded.wellMade {ending : Ending Unit} {t : Cache} (h : cache.WellMade)
    (hr : Reloaded services cache id ending t) : t.WellMade := by
  cases hr with
  | failed => exact h
  | loaded found sound _ outcome _ =>
    have hfound := (resource?_of_entry found).trans (congrArg some sound)
    exact (h.replaced id []).continue hfound outcome.continues _
  | brokenBefore => exact h
  | brokenBarred => exact h.replaced id []
  | brokenLoad found outcome =>
    exact (h.replaced id []).continue found outcome.continues _

/-- A reload that fails has changed nothing. -/
theorem Reloaded.eq_of_failed {error : Error} {t : Cache}
    (h : Reloaded services cache id (.failed error) t) : t = cache := by
  cases h with
  | failed => rfl
  | loaded _ _ _ _ ends => simp [Ending.isUnwound] at ends

/-- The outcomes of reloading some resources one after the other. -/
inductive ReloadedEach (services : Services) : List ResourceId → Cache →
    Ending (List (ResourceId × Except Error Unit)) → Cache → Prop where
  | nil {cache : Cache} : ReloadedEach services [] cache (.done []) cache
  | ok {ids : List ResourceId} {cache mid t : Cache} {id : ResourceId}
    {outcomes : List (ResourceId × Except Error Unit)}
    (first : Reloaded services cache id (.done ()) mid)
    (rest : ReloadedEach services ids mid (.done outcomes) t) :
    ReloadedEach services (id :: ids) cache (.done ((id, .ok ()) :: outcomes)) t
  /-- An error is noted, and the others are reloaded all the same. -/
  | error {ids : List ResourceId} {cache t : Cache} {id : ResourceId} {error : Error}
    {outcomes : List (ResourceId × Except Error Unit)}
    (rest : ReloadedEach services ids cache (.done outcomes) t) :
    ReloadedEach services (id :: ids) cache (.done ((id, .error error) :: outcomes)) t
  | brokenFirst {ids : List ResourceId} {cache t : Cache} {id : ResourceId} {reason : String}
    (first : Reloaded services cache id (.unwound reason) t) :
    ReloadedEach services (id :: ids) cache (.unwound reason) t
  | brokenLater {ids : List ResourceId} {cache mid t : Cache} {id : ResourceId} {reason : String}
    {ending : Ending Unit} (first : Reloaded services cache id ending mid)
    (rest : ReloadedEach services ids mid (.unwound reason) t) :
    ReloadedEach services (id :: ids) cache (.unwound reason) t

/-- Errors of single reloads are noted, so none ends the whole. -/
theorem ReloadedEach.ne_failed {ids : List ResourceId} {t : Cache}
    {ending : Ending (List (ResourceId × Except Error Unit))}
    (h : ReloadedEach services ids cache ending t) (error : Error) : ending ≠ .failed error := by
  cases h <;> simp

/-- So it is after any number of reloads. -/
theorem ReloadedEach.wellMade {ids : List ResourceId} {t : Cache}
    {ending : Ending (List (ResourceId × Except Error Unit))} (h : cache.WellMade)
    (hr : ReloadedEach services ids cache ending t) : t.WellMade := by
  induction hr with
  | nil => exact h
  | ok first _ ih => exact ih (first.wellMade h)
  | error _ ih => exact ih h
  | brokenFirst first => exact first.wellMade h
  | brokenLater first _ ih => exact ih (first.wellMade h)

/-- One reload after another: an error is noted, and a breakdown ends them all. -/
theorem ensures_reloadEach_cons {ids : List ResourceId}
    {post : Ending (List (ResourceId × Except Error Unit)) → Cache → Journal → Prop} :
    (reloadEach (id :: ids)).Ensures services post cache j ↔
      (reload id).Ensures services (fun ending t => match ending with
        | .done _ => (reloadEach ids).Ensures services
          (fun ending => post (ending.map ((id, .ok ()) :: ·))) t
        | .failed error => (reloadEach ids).Ensures services
          (fun ending => post (ending.map ((id, .error error) :: ·))) t
        | .unwound reason => post (.unwound reason) t) cache j := by
  unfold reloadEach
  rw [List.mapM_cons, ensures_bind, ensures_tryCatch, ensures_bind]
  refine iff_of_eq (congrArg (fun post => (reload id).Ensures services post cache j) ?_)
  funext ending t j'
  rcases ending with (_ | error | reason)
  · exact propext (ensures_map (f := ((id, Except.ok ()) :: ·)))
  · exact propext (ensures_map (f := ((id, Except.error error) :: ·)))
  · rfl

/-- **The outcomes of one reload after another.** -/
theorem ensures_reloadEach (h : cache.WellMade) (ids : List ResourceId) :
    (reloadEach ids).Ensures services
      (fun ending t _ => ReloadedEach services ids cache ending t) cache j := by
  -- Each reload leaves a well made cache to the next one, so the cache varies.
  induction ids generalizing cache j with
  | nil => exact .nil
  | cons id ids ih =>
    rw [ensures_reloadEach_cons]
    refine (ensures_reload h).mono ?_
    rintro (_ | error | reason) mid j₁ hfirst
    · refine (ih (hfirst.wellMade h)).mono ?_
      rintro (outcomes | error | reason) t j₂ hrest
      · exact .ok hfirst hrest
      · exact (hrest.ne_failed error rfl).elim
      · exact .brokenLater hfirst hrest
    · -- A reload that fails has changed nothing, so the others go on from the same cache.
      cases hfirst.eq_of_failed
      refine (ih h).mono ?_
      rintro (outcomes | error | reason) t j₂ hrest
      · exact .error hrest
      · exact (hrest.ne_failed _ rfl).elim
      · exact .brokenLater hfirst hrest
    · exact .brokenFirst hfirst

/-- A change of a file reloads the resources that it concerns, unless the logger breaks down first. -/
theorem ensures_fileChanged_of {file : String}
    {post : Ending (List (ResourceId × Except Error Unit)) → Cache → Journal → Prop}
    (heach : ∀ j, (reloadEach (cache.affected file)).Ensures services post cache j)
    (hbroken : ∀ reason j, post (.unwound reason) cache j) :
    (fileChanged file).Ensures services post cache j := by
  unfold fileChanged
  rw [ensures_bind, ensures_get, after_done]
  dsimp only
  split
  · exact heach j
  · rw [ensures_bind]
    exact ensures_say (fun j' _ => heach j') (fun reason j' _ => hbroken reason j')

/-- The outcomes of a change of a file. -/
inductive Followed (services : Services) (cache : Cache) (file : String) :
    Ending (List (ResourceId × Except Error Unit)) → Cache → Prop where
  | each {ending : Ending (List (ResourceId × Except Error Unit))} {t : Cache}
    (reloaded : ReloadedEach services (cache.affected file) cache ending t) :
    Followed services cache file ending t
  | broken {reason : String} : Followed services cache file (.unwound reason) cache

/-- **The outcomes of a change of a file**: those of the reloads that it leads to. -/
theorem ensures_fileChanged (h : cache.WellMade) (file : String) :
    (fileChanged file).Ensures services
      (fun ending t _ => Followed services cache file ending t) cache j :=
  ensures_fileChanged_of (fun _ => (ensures_reloadEach h _).mono fun _ _ _ hr => .each hr)
    fun _ _ => .broken

/-! ### Requesting -/

/-- The outcomes of making and loading a shader. -/
inductive Created (services : Services) (cache : Cache) (key : ResourceKey) :
    Ending ResourceId → Cache → Prop where
  | refused {error : Error} : Created services cache key (.failed error) cache
  /-- A first load that fails makes the shader as if it had never been. -/
  | discarded {file : SourceFile} {desk : Desk Shader} {error : Error} {entry : CacheEntry}
    (outcome : Shader.Loaded services file
      { item := cache.newcomer key, books := cache.books } (.failed error) desk)
    (found : ((cache.joined key).putShader cache.ids.next desk false).table.value[cache.ids.next]? =
      some entry) :
    Created services cache key (.failed error)
      (((cache.joined key).putShader cache.ids.next desk false).without cache.ids.next entry)
  | loaded {file : SourceFile} {desk : Desk Shader} {ending : Ending ResourceId}
    (opened : services.files key.name = .ok file)
    (outcome : Shader.Loaded services file
      { item := cache.newcomer key, books := cache.books } (.done ()) desk)
    (ends : ending = .done cache.ids.next ∨ ending.isUnwound) :
    Created services cache key ending
      (((cache.joined key).putShader cache.ids.next desk false).enlist key cache.ids.next)
  | brokenBefore {reason : String} : Created services cache key (.unwound reason) cache
  /-- A breakdown over the load, or over the report of its failure. -/
  | brokenLoad {file : SourceFile} {desk : Desk Shader} {first : Ending Unit} {reason : String}
    (outcome : Shader.Loaded services file
      { item := cache.newcomer key, books := cache.books } first desk) (poisoned : Bool) :
    Created services cache key (.unwound reason)
      ((cache.joined key).putShader cache.ids.next desk poisoned)

/-- Whatever its first load did, a new shader leaves the cache well made. -/
theorem WellMade.created_putShader (h : cache.WellMade) {key : ResourceKey} {desk : Desk Shader}
    {ending : Ending Unit} (hl : Shader.Loaded services file
      { item := cache.newcomer key, books := cache.books } ending desk) (poisoned : Bool) :
    ((cache.joined key).putShader cache.ids.next desk poisoned).WellMade :=
  (h.joined key).continue (resource?_of_entry table_joined_self) hl.continues _

/-- However a first load ends, the cache is well made. -/
theorem Created.wellMade {key : ResourceKey} {ending : Ending ResourceId} {t : Cache}
    (h : cache.WellMade) (hc : Created services cache key ending t) : t.WellMade := by
  cases hc with
  | refused => exact h
  | discarded outcome found => exact (h.created_putShader outcome false).without found
  | loaded _ outcome _ =>
    have ht := h.created_putShader outcome false
    exact ht.update _ _ ht.pruned
  | brokenBefore => exact h
  | brokenLoad outcome poisoned => exact h.created_putShader outcome poisoned

/-- What a factory makes enters the table under the next id.  Otherwise nothing has changed. -/
theorem ensures_make (h : cache.WellMade) (key : ResourceKey) :
    (make key).Ensures services (fun ending t _ => match ending with
      | .done id => id = cache.ids.next ∧ t = cache.joined key
      | _ => t = cache) cache j := by
  unfold make
  rw [ensures_bind, ensures_get, after_done]
  cases hf : cache.factories[key.typeName]? with
  | none => exact ensures_report (fun _ _ => rfl) (fun _ _ _ => rfl)
  | some factory =>
    cases h.factories _ _ hf
    simp only [h.sound]
    exact ⟨rfl, rfl⟩

/-- **The outcomes of a first load.** -/
theorem ensures_create (h : cache.WellMade) (key : ResourceKey) :
    (create key).Ensures services
      (fun ending t _ => Created services cache key ending t) cache j := by
  unfold create
  rw [ensures_bind, ensures_get, after_done]
  split
  rotate_left
  · rw [ensures_bind]
    exact ensures_report (fun _ _ => .refused) (fun _ _ _ => .brokenBefore)
  rw [ensures_bind, ensures_read, after_done]
  cases hf : services.files key.name with
  | error error =>
    dsimp only
    rw [ensures_bind]
    exact ensures_report (fun _ _ => .refused) (fun _ _ _ => .brokenBefore)
  | ok file =>
    simp only [ensures_pure, ensures_bind, after_done]
    refine (ensures_make h key).mono ?_
    rintro (id | error | reason) t j₁ hmade
    rotate_left
    · cases hmade
      exact .refused
    · cases hmade
      exact .brokenBefore
    obtain ⟨rfl, rfl⟩ := hmade
    simp only [after_done, ensures_bind, ensures_tryCatch]
    refine (ensures_loadResource (resource?_of_entry table_joined_self)).mono ?_
    rintro ending t j₂ hloaded
    -- The guard of a new shader is sound, so the load is not refused.
    cases hloaded with | @loaded _ desk outcome => ?_
    have ht := h.created_putShader outcome false
    rcases ending with (_ | error | reason)
    · rw [caught_done, after_done, ensures_bind, ensures_modify, after_done, ensures_bind]
      refine ensures_say (fun _ _ => ?_) (fun _ _ _ => ?_)
      · rw [after_done, ensures_pure]
        exact .loaded hf outcome (.inl rfl)
      · rw [after_unwound]
        exact .loaded hf outcome (.inr rfl)
    · -- The shader is in the table under the new id, from where it is forgotten.
      obtain ⟨entry, he⟩ : ∃ entry, ((cache.joined key).putShader cache.ids.next desk
          false).table.value[cache.ids.next]? = some entry := by
        simp [table_putShader]
      rw [caught_failed, ensures_bind, discardFailed, ensures_bind]
      refine ensures_say (fun _ _ => ?_) (fun _ _ _ => .brokenLoad outcome false)
      rw [after_done, ensures_modify, after_done, ensures_throw, after_failed]
      show Created _ _ _ _ ((((cache.joined key).putShader _ desk false).forget _).elim _ _)
      rw [ht.forget_eq_some he]
      exact .discarded outcome he
    · exact .brokenLoad outcome true

end Cache

/-! ### Calls -/

/-- The outcomes of what a shader is asked for. -/
def ShaderOp.Outcome (services : Services) (desk : Desk Shader) (op : ShaderOp)
    (ending : Ending Unit) (t : Desk Shader) : Prop :=
  match op with
  | request stage defines => ∃ first, ending = first.map (fun _ => ()) ∧
      Shader.Requested stage defines desk first t
  | prepare stage defines => ∃ first, ending = first.map (fun _ => ()) ∧
      Shader.Prepared stage defines desk first t
  | load file => Shader.Loaded services file desk ending t

/-- **The outcomes of work on a shader.** -/
theorem ShaderOp.ensures_act {desk : Desk Shader} (op : ShaderOp) :
    op.act.Ensures services (fun ending t _ => op.Outcome services desk ending t) desk j := by
  cases op with
  | request stage defines =>
    rw [act, ensures_discard]
    exact Shader.ensures_request.mono fun ending t j' h => ⟨ending, rfl, h.2⟩
  | prepare stage defines =>
    rw [act, ensures_discard]
    exact Shader.ensures_prepare.mono fun ending t j' h => ⟨ending, rfl, h⟩
  | load file => exact Shader.ensures_load.mono fun ending t j' h => h.2

/-- Whatever is done to a shader, it is work on that shader. -/
theorem ShaderOp.Outcome.continues {desk t : Desk Shader} {op : ShaderOp} {ending : Ending Unit}
    (h : op.Outcome services desk ending t) : Shader.Continues desk t := by
  cases op with
  | request stage defines =>
    obtain ⟨first, -, h⟩ := h
    exact h.continues
  | prepare stage defines =>
    obtain ⟨first, -, h⟩ := h
    exact h.continues
  | load file => exact Shader.Loaded.continues h

namespace Cache

/-- The outcomes of a call of a cache. -/
inductive Answered (services : Services) (cache : Cache) : CacheOp → Ending Unit → Cache → Prop where
  | hit {key : ResourceKey} {id : ResourceId} (found : cache.find? key = some id) :
    Answered services cache (.request key) (.done ()) (cache.hold id)
  | made {key : ResourceKey} {id : ResourceId} {t : Cache}
    (created : Created services cache key (.done id) t) :
    Answered services cache (.request key) (.done ()) (t.hold id)
  | unmade {key : ResourceKey} {first : Ending ResourceId} {t : Cache}
    (created : Created services cache key first t) (without : ∀ id, first ≠ .done id) :
    Answered services cache (.request key) (first.map fun _ => ()) t
  | find {key : ResourceKey} (held : Std.ExtTreeSet ResourceId) :
    Answered services cache (.find key) (.done ()) { cache with held }
  | byId {id : ResourceId} (held : Std.ExtTreeSet ResourceId) :
    Answered services cache (.byId id) (.done ()) { cache with held }
  | reload {id : ResourceId} {ending : Ending Unit} {t : Cache}
    (reloaded : Reloaded services cache id ending t) :
    Answered services cache (.reload id) ending t
  | fileChanged {file : String} {first : Ending (List (ResourceId × Except Error Unit))} {t : Cache}
    (followed : Followed services cache file first t) :
    Answered services cache (.fileChanged file) (first.map fun _ => ()) t
  | released {id : ResourceId} {entry : CacheEntry} {ending : Ending Unit}
    (found : cache.table.value[id]? = some entry)
    (ends : ending = .done () ∨ ending.isUnwound) :
    Answered services cache (.release id) ending (cache.without id entry)
  | unknown {id : ResourceId} (missing : cache.table.value[id]? = none) :
    Answered services cache (.release id) (.done ()) cache
  | letGo {id : ResourceId} : Answered services cache (.letGo id) (.done ()) (cache.letGo id)
  | worked {id : ResourceId} {op : ShaderOp} {shader : Shader} {ending : Ending Unit}
    {desk : Desk Shader} (found : cache.resource? id = some { value := .shader shader })
    (outcome : op.Outcome services { item := shader, books := cache.books } ending desk) :
    Answered services cache (.onShader id op) ending (cache.putShader id desk ending.isUnwound)
  | barred {id : ResourceId} {op : ShaderOp}
    (poisoned : ∀ resource, cache.resource? id = some resource → resource.poisoned = true) :
    Answered services cache (.onShader id op) (.done ()) cache
  | varied {id : ResourceId} {stage : Stage} {i : Nat} {op : VariationOp} {shader : Shader}
    {poisoned : Bool} {ending : Ending Unit}
    (found : cache.resource? id = some { value := .shader shader, poisoned })
    (variations : VariationCache) :
    Answered services cache (.onVariation id stage i op) ending (cache.putShader id
      { item := shader.putVariations stage variations, books := cache.books } poisoned)
  | unvaried {id : ResourceId} {stage : Stage} {i : Nat} {op : VariationOp}
    (missing : cache.variation? id stage i = none) :
    Answered services cache (.onVariation id stage i op) (.done ()) cache
  | onBooks {op : BooksOp} :
    Answered services cache (.onBooks op) (.done ()) { cache with books := op.change cache.books }

/-- A request is answered by what is there, or by a first load. -/
theorem ensures_act_request (h : cache.WellMade) (key : ResourceKey) :
    (CacheOp.request key).act.Ensures services
      (fun ending t _ => Answered services cache (.request key) ending t) cache j := by
  rw [CacheOp.act, ensures_bind, request, ensures_bind, ensures_get, after_done]
  cases hf : cache.find? key with
  | some id => exact .hit hf
  | none =>
    refine (ensures_create h key).mono ?_
    rintro (id | error | reason) t j' hc
    · exact .made hc
    · exact .unmade hc (by simp)
    · exact .unmade hc (by simp)

/-- A release forgets what is in the table, and does nothing for any other id. -/
theorem ensures_act_release (h : cache.WellMade) (id : ResourceId) :
    (CacheOp.release id).act.Ensures services
      (fun ending t _ => Answered services cache (.release id) ending t) cache j := by
  rw [CacheOp.act, ensures_discard, release, ensures_bind, ensures_get, after_done]
  cases he : cache.table.value[id]? with
  | none =>
    rw [forget_eq_none he]
    exact .unknown he
  | some entry =>
    rw [h.forget_eq_some he]
    dsimp only
    rw [ensures_bind, ensures_set, after_done, ensures_bind]
    exact ensures_say (fun _ _ => .released he (.inl rfl)) (fun _ _ _ => .released he (.inr rfl))

/-- Work on a shader reaches it unless a breakdown has poisoned its lock. -/
theorem ensures_act_onShader (h : cache.WellMade) (id : ResourceId) (op : ShaderOp) :
    (CacheOp.onShader id op).act.Ensures services
      (fun ending t _ => Answered services cache (.onShader id op) ending t) cache j := by
  rw [CacheOp.act, ensures_discard]
  cases hr : cache.resource? id with
  | none => exact ensures_onShader_barred (by simp [hr]) (.barred (by simp [hr]))
  | some resource =>
    rcases resource with ⟨value, poisoned⟩
    obtain ⟨shader, name, rfl, -⟩ := h.resource?_shader hr
    cases poisoned with
    | true => exact ensures_onShader_barred (by simp [hr]) (.barred (by simp [hr]))
    | false =>
      refine ensures_onShader hr (op.ensures_act.mono fun ending desk j' ho => ?_)
      cases ending <;> exact .worked hr ho

/-- Whatever becomes of a variation, it goes back to its place in its shader. -/
theorem putVariation_eq {stage : Stage} {i : Nat} {v : Variation}
    (hr : cache.resource? id = some { value := .shader shader, poisoned }) :
    cache.putVariation id stage i v = cache.putShader id
      { item := shader.putVariations stage ((shader.variations stage).replace i v)
        books := cache.books } poisoned := by
  simp only [putVariation, hr, putShader, putResource]
  cases cache.table.value[id]? <;> rfl

/-- Work on a variation needs no lock of its shader, and leaves it as it is. -/
theorem ensures_act_onVariation (h : cache.WellMade) (id : ResourceId) (stage : Stage) (i : Nat)
    (op : VariationOp) :
    (CacheOp.onVariation id stage i op).act.Ensures services
      (fun ending t _ => Answered services cache (.onVariation id stage i op) ending t) cache j := by
  rw [CacheOp.act, ensures_discard, onVariation]
  cases hv : cache.variation? id stage i with
  | none =>
    rw [ensures_focus?_none (by exact hv)]
    exact .unvaried hv
  | some v =>
    rw [ensures_focus?_some (by exact hv)]
    obtain ⟨resource, hr, -⟩ := Option.bind_eq_some_iff.mp hv
    rcases resource with ⟨value, poisoned⟩
    obtain ⟨shader, name, rfl, -⟩ := h.resource?_shader hr
    show Answered _ _ _ (Ending.map _ (Ending.map _ _)) (cache.putVariation id stage i _)
    rw [putVariation_eq hr]
    exact .varied hr _

/-- **Calls.**  A call is answered in one of the ways of `Answered`. -/
theorem ensures_act (h : cache.WellMade) (op : CacheOp) :
    op.act.Ensures services (fun ending t _ => Answered services cache op ending t) cache j := by
  cases op with
  | request key => exact ensures_act_request h key
  | find key =>
    rw [CacheOp.act, ensures_modify]
    cases cache.find? key with
    | none => exact .find cache.held
    | some id => exact .find _
  | byId id =>
    rw [CacheOp.act, ensures_modify]
    split
    · exact .byId _
    · exact .byId cache.held
  | reload id => exact (ensures_reload h).mono fun _ _ _ hr => .reload hr
  | fileChanged file =>
    rw [CacheOp.act, ensures_discard]
    exact (ensures_fileChanged h file).mono fun _ _ _ hf => .fileChanged hf
  | release id => exact ensures_act_release h id
  | letGo id => exact .letGo
  | onShader id op => exact ensures_act_onShader h id op
  | onVariation id stage i op => exact ensures_act_onVariation h id stage i op
  | onBooks op => exact .onBooks

/-- A cache stays well made, whatever it is asked for and however that ends. -/
theorem Answered.wellMade {op : CacheOp} {ending : Ending Unit} {t : Cache} (h : cache.WellMade)
    (ha : Answered services cache op ending t) : t.WellMade := by
  cases ha with
  | hit _ => exact h.update _ _ h.pruned
  | made created =>
    have ht := created.wellMade h
    exact ht.update _ _ ht.pruned
  | unmade created _ => exact created.wellMade h
  | find held => exact h.update _ _ h.pruned
  | byId held => exact h.update _ _ h.pruned
  | reload reloaded => exact reloaded.wellMade h
  | fileChanged followed =>
    cases followed with
    | each reloaded => exact reloaded.wellMade h
    | broken => exact h
  | released found _ => exact h.without found
  | unknown _ => exact h
  | letGo => exact h.letGo _
  | worked found outcome => exact h.continue found outcome.continues _
  | barred _ => exact h
  | varied found variations =>
    exact h.continue found (Shader.continues_putVariations variations) _
  | unvaried _ => exact h
  | @onBooks op => exact h.update _ _ (op.pruned_change h.pruned)

/-- A reload changes no setting of the cache. -/
theorem Reloaded.context_eq {ending : Ending Unit} {t : Cache}
    (h : Reloaded services cache id ending t) : t.context = cache.context := by
  cases h with
  | failed => rfl
  | loaded => exact context_putShader
  | brokenBefore => rfl
  | brokenBarred => rfl
  | brokenLoad => exact context_putShader

/-- Neither do reloads one after another. -/
theorem ReloadedEach.context_eq {ids : List ResourceId} {t : Cache}
    {ending : Ending (List (ResourceId × Except Error Unit))}
    (h : ReloadedEach services ids cache ending t) : t.context = cache.context := by
  induction h with
  | nil => rfl
  | ok first _ ih => exact ih.trans first.context_eq
  | error _ ih => exact ih
  | brokenFirst first => exact first.context_eq
  | brokenLater first _ ih => exact ih.trans first.context_eq

/-- Neither does a change of a file. -/
theorem Followed.context_eq {file : String} {t : Cache}
    {ending : Ending (List (ResourceId × Except Error Unit))}
    (h : Followed services cache file ending t) : t.context = cache.context := by
  cases h with
  | each reloaded => exact reloaded.context_eq
  | broken => rfl

/-- Neither does a first load. -/
theorem Created.context_eq {key : ResourceKey} {ending : Ending ResourceId} {t : Cache}
    (h : Created services cache key ending t) : t.context = cache.context := by
  have hput {desk : Desk Shader} {poisoned : Bool} :
      ((cache.joined key).putShader cache.ids.next desk poisoned).context = cache.context :=
    context_putShader
  cases h with
  | refused => rfl
  | discarded => exact hput
  | loaded => exact hput
  | brokenBefore => rfl
  | brokenLoad => exact hput

/-- The context that a cache gives to its shaders never changes. -/
theorem Answered.context_eq {op : CacheOp} {ending : Ending Unit} {t : Cache} (h : cache.WellMade)
    (ha : Answered services cache op ending t) : t.context = cache.context := by
  cases ha with
  | made created => exact created.context_eq
  | unmade created _ => exact created.context_eq
  | reload reloaded => exact reloaded.context_eq
  | fileChanged followed => exact followed.context_eq
  | @letGo id =>
    rcases h.letGo_eq id with he | ⟨-, he⟩
    · rw [he]
    · rw [he]
  | worked => exact context_putShader
  | varied => exact context_putShader
  | _ => rfl

/-- **Every call of a cache of shaders is answered**, and the cache after it is as the answer says. -/
theorem answered_next (h : cache.WellMade) (call : Call) :
    Answered call.services cache call.op (call.outcome cache).ending (call.next cache) :=
  ensures_act h call.op

/-- Every cache that a run leads to is well made. -/
theorem Reached.wellMade {allowed : Cache → Call → Prop} {start : Cache} (hs : start.WellMade)
    (h : Reached allowed start cache) : cache.WellMade := by
  induction h with
  | start => exact hs
  | call _ call _ ih => exact (answered_next ih call).wellMade ih

end Cache

end ShaderKit
