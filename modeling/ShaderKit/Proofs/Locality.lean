import ShaderKit.Proofs.Faithful
import ShaderKit.Proofs.Registering
import ShaderKit.Proofs.Unwinding

namespace ShaderKit

open ShaderKit.Action

open Std (ExtTreeMap)

/-!
# What a reload can see

All resources of a cache share its books.  A reload reads and writes there under the id of its own
resource, so it sees nothing of what the books say about others:

* `Books.AgreeAt`  — two books say the same about one resource
* `Desk.Matches`   — two desks have the same item, and books that agree about the id it writes under
* `Shader.alike_load`, `Resource.alike_load` — on such desks a load ends alike
* `Cache.SameFor`  — two caches have the same entry for an id, and books that agree about it
* `Cache.alike_reload_undisturbed` — whatever has happened to others, a reload ends alike and makes
                     the same of its resource

The journals may differ, since a reload asks no compiler.
-/

variable {services : Services} {id : ResourceId} {j j' : Journal} {file : SourceFile}

/-! ### Books that agree about one resource -/

namespace Books

variable {books other : Books}

/-- The books say the same about one resource. -/
structure AgreeAt (id : ResourceId) (books other : Books) : Prop where
  depends : ∀ name, other.dependencies.Depends id name ↔ books.dependencies.Depends id name
  size : other.memory.sizes[id]? = books.memory.sizes[id]?

/-- Another figure for the resource is the same figure in both. -/
theorem AgreeAt.report (h : books.AgreeAt id other) (bytes : Nat) :
    (books.mapMemory (·.report id bytes)).AgreeAt id (other.mapMemory (·.report id bytes)) :=
  ⟨h.depends, by simp [mapMemory, MemoryLedger.report]⟩

/-- The same entry leaves the books in agreement, whomever it is about. -/
theorem AgreeAt.change (h : books.AgreeAt id other) (op : BooksOp) :
    (op.change books).AgreeAt id (op.change other) := by
  cases op with
  | register owner file =>
    refine ⟨fun name => ?_, h.size⟩
    refine DependencyMap.depends_register.trans (Iff.trans ?_ DependencyMap.depends_register.symm)
    rw [h.depends name]
  | clear owner =>
    refine ⟨fun name => ?_, h.size⟩
    refine DependencyMap.depends_clear.trans (Iff.trans ?_ DependencyMap.depends_clear.symm)
    rw [h.depends name]
  | report owner bytes =>
    refine ⟨h.depends, ?_⟩
    simp only [BooksOp.change, mapMemory, MemoryLedger.report, ExtTreeMap.getElem?_insert, h.size]
  | remove owner =>
    refine ⟨h.depends, ?_⟩
    simp only [BooksOp.change, mapMemory, MemoryLedger.remove, ExtTreeMap.getElem?_erase, h.size]

/-- So do several. -/
theorem AgreeAt.enter (h : books.AgreeAt id other) (entries : List BooksOp) :
    (books.enter entries).AgreeAt id (other.enter entries) := by
  induction entries generalizing books other with
  | nil => exact h
  | cons op entries ih => exact ih (h.change op)

/-- Other dependencies of the resource are the same in both. -/
theorem AgreeAt.mapDependencies (h : books.AgreeAt id other) {deps deps' : DependencyMap}
    (hdeps : ∀ name, deps'.Depends id name ↔ deps.Depends id name) :
    AgreeAt id { books with dependencies := deps } { other with dependencies := deps' } :=
  ⟨hdeps, h.size⟩

end Books

/-! ### Loading on desks that match -/

/-- The desks have the same item, which writes into the books under the id if under any, and the books
    agree about that.  The journals may be any. -/
structure Desk.Matches {ρ : Type} (id : ResourceId) (own : ρ → Prop) (desk : Desk ρ) (_ : Journal)
    (desk' : Desk ρ) (_ : Journal) : Prop where
  item : desk'.item = desk.item
  own : own desk.item
  books : desk.books.AgreeAt id desk'.books

/-- What is noted in the journals does not matter. -/
theorem Desk.Matches.note {ρ : Type} {own : ρ → Prop} {desk desk' : Desk ρ} {k k' : Journal}
    (h : desk.Matches id own j desk' j') : desk.Matches id own k desk' k' :=
  ⟨h.item, h.own, h.books⟩

namespace Shader

variable {desk desk' : Desk Shader}

/-- The shader writes into the books under this id. -/
def Own (id : ResourceId) (shader : Shader) : Prop := (Resource.shader shader).KeepsTo id

/-- Whatever becomes of a shader, it writes under its id. -/
theorem Own.continues {shader other : Shader} (h : Own id shader)
    (hmade : other.MadeAs shader.id shader.name shader.context) : Own id other :=
  have hcontinues : (Resource.shader shader).Continues (.shader other) := hmade
  Resource.KeepsTo.continues h hcontinues

/-- Asking for a graphics device ends alike. -/
theorem alike_requireGraphics (h : desk.Matches id (Own id) j desk' j') :
    (requireGraphics.run services desk j).Alike (Desk.Matches id (Own id))
      (requireGraphics.run services desk' j') := by
  refine alike_get ?_
  rw [h.item]
  split
  · have hread : ((read : Action (Desk Shader) Services).run services desk j).Alike
        (Desk.Matches id (Own id)) ((read : Action (Desk Shader) Services).run services desk' j') :=
      ⟨rfl, h⟩
    refine Alike.bind hread fun collaborators _ _ _ _ h => ?_
    cases collaborators.backend.availability with
    | available => exact ⟨rfl, h⟩
    | unavailable => exact alike_report rfl fun _ => h.note
    | broken reason => exact ⟨rfl, h⟩
  · exact alike_report rfl fun _ => h.note

/-- Reporting memory leaves desks that match. -/
theorem alike_reportMemory (h : desk.Matches id (Own id) j desk' j') :
    (reportMemory.run services desk j).Alike (Desk.Matches id (Own id))
      (reportMemory.run services desk' j') := by
  refine ⟨rfl, ?_⟩
  show Desk.Matches id (Own id) (if _ then _ else _) j (if _ then _ else _) j'
  rw [h.item, h.own.id_eq]
  split
  · exact ⟨rfl, h.own, h.books.report _⟩
  · exact h

/-- Expanding for the shader registers the same files in both books. -/
theorem alike_expand (h : desk.Matches id (Own id) j desk' j') (name : String) (limit : Nat) :
    ((onDependencies (Include.resolveFor id name limit file)).run services desk j).Alike
      (Desk.Matches id (Own id))
      ((onDependencies (Include.resolveFor id name limit file)).run services desk' j') := by
  have hshared : desk.item.context.tracker = .shared := h.own.shared _ rfl
  have hshared' : desk'.item.context.tracker = .shared := by rw [h.item, hshared]
  refine alike_focus (Q := fun deps _ deps' _ => ∀ name, deps'.Depends id name ↔ deps.Depends id name)
    ?_ fun deps _ deps' _ hdeps => ⟨h.item, h.own, ?_⟩
  rotate_left
  · rw [hshared, hshared']
    exact h.books.mapDependencies hdeps
  rw [hshared, hshared', Include.run_resolveFor, Include.run_resolveFor]
  refine Include.alike_carryOut rfl ?_ (fun _ _ _ _ _ hdeps => hdeps) _ h.books.depends
  intro name deps k deps' k' hdeps other
  rw [DependencyMap.depends_register, DependencyMap.depends_register, hdeps other]

/-- **A load** of a shader. -/
theorem alike_load (h : desk.Matches id (Own id) j desk' j') :
    ((load file).run services desk j).Alike (Desk.Matches id (Own id))
      ((load file).run services desk' j') := by
  unfold load
  refine alike_get ?_
  dsimp only
  rw [h.item, h.own.id_eq]
  generalize desk.item = shader
  refine Alike.bind (alike_requireGraphics h) fun _ desk j desk' j' h => ?_
  -- Either subsystem may be missing, and both are reported alike.
  have hmissing (what : Error) {next : Unit → Action (Desk Shader) Unit} :
      (((report source what : Action (Desk Shader) Unit) >>= next).run services desk j).Alike
        (Desk.Matches id (Own id))
        (((report source what : Action (Desk Shader) Unit) >>= next).run services desk' j') := by
    rw [report_bind]
    exact alike_report rfl fun _ => h.note
  split
  rotate_left
  · exact hmissing _
  split
  rotate_left
  · exact hmissing _
  refine Alike.bind (alike_expand h _ _) fun code desk j desk' j' h => ?_
  refine Alike.bind (R := Desk.Matches id (Own id)) ⟨rfl, ?_⟩ fun _ desk j desk' j' h => ?_
  · exact ⟨congrArg (Shader.takeOver · _) h.item, h.own.continues ⟨rfl, rfl, rfl⟩, h.books⟩
  refine Alike.bind (alike_reportMemory h) fun _ desk j desk' j' h => ?_
  refine alike_get ?_
  rw [h.item]
  exact alike_log rfl fun _ => h.note

end Shader

namespace Resource

/-- The resource writes into the books under this id alone, and does not call the cache back. -/
def Own (id : ResourceId) (resource : Resource) : Prop := resource.KeepsTo id

/-- **Loading a resource of any type ends alike** on desks that match. -/
theorem alike_load {desk desk' : Desk Resource} (h : desk.Matches id (Own id) j desk' j') :
    ((load file).run services desk j).Alike (Desk.Matches id (Own id))
      ((load file).run services desk' j') := by
  unfold load
  refine alike_get ?_
  rw [h.item]
  rcases desk with ⟨resource, books⟩
  rcases desk' with ⟨resource', books'⟩
  obtain ⟨rfl, hown, hbooks⟩ := h
  cases resource' with
  | shader shader =>
    refine Alike.bind ?_ fun _ _ _ _ _ h => ⟨rfl, h⟩
    refine alike_focus? (Q := Desk.Matches id (Shader.Own id)) rfl rfl
      (Shader.alike_load ⟨rfl, hown, hbooks⟩) ?_
    rintro desk k desk' k' ⟨hitem, hown, hbooks⟩
    exact ⟨congrArg Resource.shader hitem, hown, hbooks⟩
  | document d =>
    -- The same entries are made in both books before the file is read.
    refine alike_modify_bind ?_
    have hentered := hbooks.enter (d.entries file)
    dsimp only
    cases hbreakdown : d.breakdown file with
    | some reason => exact ⟨rfl, rfl, hown, hentered⟩
    | none =>
      cases hparse : d.parse file with
      | ok content => exact ⟨rfl, rfl, hown.continues rfl, hentered⟩
      | error error => exact ⟨rfl, rfl, hown, hentered⟩

end Resource

/-- The same under a guard, sound or poisoned. -/
theorem alike_hold {desk desk' : Desk (Guarded Resource)}
    (h : desk.Matches id (fun resource => resource.value.Own id) j desk' j') :
    ((Desk.hold (Resource.load file)).run services desk j).Alike
      (Desk.Matches id fun resource => resource.value.Own id)
      ((Desk.hold (Resource.load file)).run services desk' j') := by
  refine alike_onUnwind (alike_focus (Q := Desk.Matches id (Resource.Own id))
    (Resource.alike_load ⟨congrArg Guarded.value h.item, h.own, h.books⟩) ?_) ?_
  · intro inner k inner' k' hinner
    refine ⟨?_, hinner.own, hinner.books⟩
    show desk'.item.put inner'.item = desk.item.put inner.item
    rw [h.item, hinner.item]
  · intro marked k marked' k' hmarked
    exact ⟨congrArg Guarded.poison hmarked.item, hmarked.own, hmarked.books⟩

namespace Cache

variable {cache t : Cache}

/-! ### Reloading in caches that agree -/

/-- The books agree about a resource that is undisturbed. -/
theorem Undisturbed.books (h : Undisturbed id cache t) : cache.books.AgreeAt id t.books :=
  ⟨h.depends, h.size⟩

/-- The resource of the entry, if there is one, writes into the books under the id of the entry alone. -/
def OwnEntry (cache : Cache) (id : ResourceId) : Prop :=
  ∀ entry, cache.table.value[id]? = some entry → entry.resource.value.Own id

/-- In a faithful cache each entry has a resource that writes under its own id. -/
theorem Faithful.ownEntry (h : cache.Faithful) (id : ResourceId) : cache.OwnEntry id :=
  fun _ he => h.keeps id _ (resource?_of_entry he)

/-- Two caches have the same entry for an id, and books that agree about it.  The journals may be any. -/
structure SameFor (id : ResourceId) (cache : Cache) (_ : Journal) (t : Cache) (_ : Journal) : Prop where
  entry : ∃ entry, cache.table.value[id]? = some entry
  own : cache.OwnEntry id
  same : Undisturbed id cache t

/-- What is noted in the journals does not matter here either. -/
theorem SameFor.note {k k' : Journal} (h : SameFor id cache j t j') : SameFor id cache k t k' :=
  ⟨h.entry, h.own, h.same⟩

/-- The same dependencies may be replaced in both caches. -/
theorem SameFor.replaceDependencies (h : SameFor id cache j t j') (files : List String) :
    SameFor id (cache.replaceDependencies id files) j (t.replaceDependencies id files) j' := by
  refine ⟨h.entry, h.own, h.same.table, fun name => ?_, h.same.size⟩
  exact DependencyMap.depends_registerAll_clear_self.trans
    DependencyMap.depends_registerAll_clear_self.symm

/-- The same resource is put back beside books that agree. -/
theorem SameFor.putResource (h : SameFor id cache j t j') {desk desk' : Desk (Guarded Resource)}
    {k k' : Journal} (hdesk : desk.Matches id (fun resource => resource.value.Own id) k desk' k') :
    SameFor id { cache.putResource id desk.item with books := desk.books } k
      { t.putResource id desk'.item with books := desk'.books } k' := by
  obtain ⟨⟨entry, he⟩, -, hsame⟩ := h
  have he' : t.table.value[id]? = some entry := hsame.table.trans he
  rw [hdesk.item]
  simp only [Cache.putResource, he, he']
  have hput (table : Guarded Table) : (table.put (table.value.insert id
      { entry with resource := desk.item })).value[id]? = some { entry with resource := desk.item } := by
    simp [Guarded.put]
  refine ⟨⟨_, hput _⟩, ?_, (hput _).trans (hput _).symm, hdesk.books.depends, hdesk.books.size⟩
  intro found hfound
  cases hfound.symm.trans (hput _)
  exact hdesk.own

/-- **Loading the resource ends alike** in both caches. -/
theorem SameFor.alike_loadResource (h : SameFor id cache j t j') :
    ((loadResource id file).run services cache j).Alike (SameFor id)
      ((loadResource id file).run services t j') := by
  obtain ⟨entry, he⟩ := h.entry
  have he' : t.table.value[id]? = some entry := h.same.table.trans he
  have hdiscreet := (h.own entry he).discreet
  rw [run_loadResource ((discreetAt_of_entry he hdiscreet).releases_eq file),
    run_loadResource ((discreetAt_of_entry he' hdiscreet).releases_eq file)]
  have hitem {cache : Cache} (he : cache.table.value[id]? = some entry) :
      (cache.resource? id).map (fun item => { item, books := cache.books : Desk _ }) =
        some { item := entry.resource, books := cache.books } := by
    rw [resource?_of_entry he]
    rfl
  have hdesk : Desk.Matches id (fun resource : Guarded Resource => resource.value.Own id)
      { item := entry.resource, books := cache.books } j
      { item := entry.resource, books := t.books } j' := ⟨rfl, h.own entry he, h.same.books⟩
  refine Alike.bind (alike_focus? (hitem he) (hitem he') ?_ fun _ _ _ _ hdesk => h.putResource hdesk)
    fun _ _ _ _ _ h => ⟨rfl, h⟩
  refine alike_get ?_
  dsimp only
  split
  · rw [report_bind]
    exact alike_report rfl fun _ => hdesk.note
  · exact alike_hold hdesk

/-- **Locality.**  Two caches that have the same under an id are reloaded there alike, whatever else is
    in them, and have the same under that id afterwards. -/
theorem alike_reload_undisturbed (hsame : Undisturbed id cache t) (hown : cache.OwnEntry id)
    (hsound : cache.table.poisoned = false) (hsound' : t.table.poisoned = false) :
    ((reload id).run services cache j).Alike (fun c _ t _ => Undisturbed id c t)
      ((reload id).run services t j') := by
  cases he : cache.table.value[id]? with
  | none =>
    rw [run_reload_unknown hsound he, run_reload_unknown hsound' (hsame.table.trans he)]
    exact alike_report rfl fun _ => hsame
  | some entry =>
    have he' : t.table.value[id]? = some entry := hsame.table.trans he
    have hdeps : t.books.dependencies.dependenciesOf id = cache.books.dependencies.dependenciesOf id :=
      DependencyMap.dependenciesOf_congr hsame.depends
    have hstart : SameFor id cache j t j' := ⟨⟨entry, he⟩, hown, hsame⟩
    refine Outcome.Alike.mono (R := SameFor id) ?_ fun _ _ _ _ h => h.same
    rw [run_reload hsound he, run_reload hsound' he', hdeps]
    cases services.files entry.key.name with
    | error error => exact alike_report rfl fun _ => hstart.note
    | ok file =>
      exact alike_loadAnew (fun files _ _ _ _ h => h.replaceDependencies files)
        (fun _ _ _ _ _ h => h.note) (hstart.replaceDependencies []).alike_loadResource

end Cache

end ShaderKit
