import ShaderKit.Proofs.Dependencies
import ShaderKit.Proofs.Guarantee
import ShaderKit.Proofs.Reading
import ShaderKit.Shader.Basic

namespace ShaderKit

/-!
# What loading, requesting and preparing do

Each action of a shader has few outcomes, and every later argument about shaders goes through the
list of them.

* `Resolved`  — the outcomes of expanding a file for an owner
* `Books.AgreeBesides` — what an entry in the books leaves as it was
* `Loaded`    — the outcomes of loading a shader
* `Requested` — the outcomes of asking for a variation
* `Prepared`  — the outcomes of asking for a compiled variation
* `ensures_prepare_of` — how an invariant is carried through the steps of preparing

An outcome says how the action ended and what the state is then.  A breakdown is one of the
outcomes, so nothing is lost for callers that go on after it.
-/

namespace Include

open ShaderKit.Action

variable {owner : ResourceId} {ownerName : String} {limit : Nat} {file : SourceFile}
  {deps : DependencyMap} {services : Services} {j : Journal}

/-- The outcomes of expanding a file for an owner, in terms of the expansion. -/
inductive Resolved (expansion : Expansion (List (List Char))) (owner : ResourceId)
    (ownerName : String) (deps : DependencyMap) : Ending String → DependencyMap → Prop where
  | done {code : String} (text : expansion.text = .ok code) :
    Resolved expansion owner ownerName deps (.done code)
      (deps.registerAll owner (expansion.others ownerName))
  | failed {error : Error} (text : expansion.text = .error error) :
    Resolved expansion owner ownerName deps (.failed error)
      (deps.registerAll owner (expansion.others ownerName))
  | unwound {reason : String} (names : List String) :
    Resolved expansion owner ownerName deps (.unwound reason) (deps.registerAll owner names)

/-- Carrying out steps registers the files they enter.  It is cut short by a breakdown only. -/
theorem ensures_performAll (steps : List Step) :
    (steps.forM (perform owner ownerName)).Ensures services (fun ending t j' =>
      j'.compilations = j.compilations ∧ match ending with
        | .done _ => t = deps.registerAll owner
            ((steps.filterMap Step.entered?).filter (· ≠ ownerName))
        | .failed _ => False
        | .unwound _ => ∃ names, t = deps.registerAll owner names) deps j := by
  -- Each step starts from what the steps before it have registered and said.
  induction steps generalizing deps j with
  | nil => exact ⟨rfl, rfl⟩
  | cons step steps ih =>
    show (perform owner ownerName step >>= fun _ =>
      steps.forM (perform owner ownerName)).Ensures _ _ _ _
    cases step with
    | entered name =>
      by_cases hn : name = ownerName
      · -- The file of the owner itself is not registered.
        simpa [perform, hn, Step.entered?] using ih
      · simp only [perform, hn, if_false, ensures_bind, ensures_modify, after_done]
        refine ih.mono ?_
        rintro (_ | error | reason) t j' ⟨hj, ht⟩
        · exact ⟨hj, by simpa [Step.entered?, hn] using ht⟩
        · exact ht.elim
        · obtain ⟨names, rfl⟩ := ht
          exact ⟨hj, name :: names, rfl⟩
    | followed includer name =>
      rw [ensures_bind]
      refine ensures_say (fun j' hj => ?_) (fun reason j' hj => ⟨hj, [], rfl⟩)
      rw [after_done]
      exact ih.mono fun _ _ _ h => ⟨h.1.trans hj, h.2⟩

/-- What expanding a file for an owner does. -/
theorem ensures_resolveFor :
    (resolveFor owner ownerName limit file).Ensures services (fun ending t j' =>
      j'.compilations = j.compilations ∧
        Resolved (flatten services.files limit file) owner ownerName deps ending t) deps j := by
  unfold resolveFor
  simp only [ensures_bind, ensures_read, after_done]
  refine (ensures_performAll _).mono ?_
  rintro (_ | error | reason) t j₁ ⟨hj, ht⟩
  · subst ht
    rw [after_done]
    cases hx : (flatten services.files limit file).text with
    | ok code => exact ⟨hj, .done hx⟩
    | error error =>
      exact ensures_report (fun j' hj' => ⟨hj'.trans hj, .failed hx⟩)
        (fun _ j' hj' => ⟨hj'.trans hj, .unwound _⟩)
  · exact ht.elim
  · obtain ⟨names, rfl⟩ := ht
    exact ⟨hj, .unwound names⟩

end Include

namespace Books

variable {books mid other : Books} {id : ResourceId}

/-- The books say the same about every resource but one. -/
structure AgreeBesides (id : ResourceId) (books other : Books) : Prop where
  depends : ∀ owner, owner ≠ id → ∀ name,
    other.dependencies.Depends owner name ↔ books.dependencies.Depends owner name
  sizes : ∀ owner, owner ≠ id → other.memory.sizes[owner]? = books.memory.sizes[owner]?

/-- Books agree with themselves. -/
theorem AgreeBesides.refl : AgreeBesides id books books :=
  ⟨fun _ _ _ => Iff.rfl, fun _ _ => rfl⟩

/-- One change about a resource after another is a change about it. -/
theorem AgreeBesides.trans (h : AgreeBesides id books mid) (h' : AgreeBesides id mid other) :
    AgreeBesides id books other :=
  ⟨fun owner hne name => (h'.depends owner hne name).trans (h.depends owner hne name),
    fun owner hne => (h'.sizes owner hne).trans (h.sizes owner hne)⟩

/-- Registering files for a resource leaves the dependencies of others, and all memory figures. -/
theorem agreeBesides_registerAll (names : List String) :
    AgreeBesides id books (books.mapDependencies (·.registerAll id names)) :=
  ⟨fun _ hne _ => DependencyMap.depends_registerAll_of_ne hne, fun _ _ => rfl⟩

/-- Clearing the dependencies of a resource leaves those of others. -/
theorem agreeBesides_clear : AgreeBesides id books (books.mapDependencies (·.clear id)) :=
  ⟨fun _ hne _ => DependencyMap.depends_clear.trans (and_iff_right hne), fun _ _ => rfl⟩

/-- Entering the memory use of a resource leaves the figures of others. -/
theorem agreeBesides_report (bytes : Nat) :
    AgreeBesides id books (books.mapMemory (·.report id bytes)) :=
  ⟨fun _ _ _ => Iff.rfl, fun owner hne => by
    simp [mapMemory, MemoryLedger.report, Std.ExtTreeMap.getElem?_insert, Ne.symm hne]⟩

/-- Removing the memory use of a resource leaves the figures of others. -/
theorem agreeBesides_remove : AgreeBesides id books (books.mapMemory (·.remove id)) :=
  ⟨fun _ _ _ => Iff.rfl, fun owner hne => by
    simp [mapMemory, MemoryLedger.remove, Std.ExtTreeMap.getElem?_erase, Ne.symm hne]⟩

end Books

/-! ### Entries -/

namespace BooksOp

variable {books : Books}

/-- An entry concerns the resource that it is about. -/
theorem agreeBesides_change (op : BooksOp) (books : Books) :
    books.AgreeBesides op.owner (op.change books) := by
  cases op with
  | register owner file => exact Books.agreeBesides_registerAll [file]
  | clear owner => exact Books.agreeBesides_clear
  | report owner bytes => exact Books.agreeBesides_report bytes
  | remove owner => exact Books.agreeBesides_remove

/-- No entry leaves a file that nobody needs. -/
theorem pruned_change (op : BooksOp) (h : books.dependencies.Pruned) :
    (op.change books).dependencies.Pruned := by
  cases op with
  | register owner file => exact h.register owner file
  | clear owner => exact DependencyMap.pruned_clear _ owner
  | report owner bytes => exact h
  | remove owner => exact h

end BooksOp

namespace Books

variable {books : Books} {entries : List BooksOp} {owner : ResourceId}

/-- Entries about others leave the dependencies of a resource. -/
theorem depends_enter (h : ∀ op ∈ entries, op.owner ≠ owner) (name : String) :
    (books.enter entries).dependencies.Depends owner name ↔ books.dependencies.Depends owner name := by
  induction entries generalizing books with
  | nil => exact Iff.rfl
  | cons op entries ih =>
    have hrest : ∀ op ∈ entries, op.owner ≠ owner := fun op hop => h op (List.mem_cons_of_mem _ hop)
    have hfirst : owner ≠ op.owner := (h op List.mem_cons_self).symm
    exact (ih hrest).trans ((op.agreeBesides_change books).depends owner hfirst name)

/-- Entries about others leave the memory figure of a resource. -/
theorem sizes_enter (h : ∀ op ∈ entries, op.owner ≠ owner) :
    (books.enter entries).memory.sizes[owner]? = books.memory.sizes[owner]? := by
  induction entries generalizing books with
  | nil => rfl
  | cons op entries ih =>
    have hrest : ∀ op ∈ entries, op.owner ≠ owner := fun op hop => h op (List.mem_cons_of_mem _ hop)
    have hfirst : owner ≠ op.owner := (h op List.mem_cons_self).symm
    exact (ih hrest).trans ((op.agreeBesides_change books).sizes owner hfirst)

/-- Entries leave no file that nobody needs. -/
theorem pruned_enter (h : books.dependencies.Pruned) (entries : List BooksOp) :
    (books.enter entries).dependencies.Pruned := by
  induction entries generalizing books with
  | nil => exact h
  | cons op entries ih => exact ih (op.pruned_change h)

end Books

/-! ### Where the dependencies are -/

namespace Keeper

variable {keeper : Keeper} {books : Books} {id : ResourceId} {names : List String}

/-- A shader that keeps its dependencies in the books registers files there and nowhere else. -/
theorem agreeBesides_registerAll (names : List String) :
    books.AgreeBesides id (keeper.map (·.registerAll id names) books) := by
  cases keeper with
  | shared => exact Books.agreeBesides_registerAll names
  | own => exact .refl

/-- The same of the end of its dependencies. -/
theorem agreeBesides_clear : books.AgreeBesides id (keeper.map (·.clear id) books) := by
  cases keeper with
  | shared => exact Books.agreeBesides_clear
  | own => exact .refl

/-- Registering files through a keeper leaves no entry that is empty. -/
theorem pruned_registerAll (h : books.dependencies.Pruned) (id : ResourceId) (names : List String) :
    (keeper.map (·.registerAll id names) books).dependencies.Pruned := by
  cases keeper with
  | shared => exact h.registerAll _ _
  | own => exact h

/-- Nor does clearing an owner through it. -/
theorem pruned_clear (h : books.dependencies.Pruned) (id : ResourceId) :
    (keeper.map (·.clear id) books).dependencies.Pruned := by
  cases keeper with
  | shared => exact DependencyMap.pruned_clear _ _
  | own => exact h

end Keeper

namespace Shader

open ShaderKit.Action Include

variable {services : Services} {j : Journal} {file : SourceFile} {desk : Desk Shader} {books : Books}
  {shader : Shader} {stage : Stage} {cache : VariationCache} {defines : String}

/-! ### The parts of a shader -/

/-- What was put for a stage is found there. -/
@[simp] theorem variations_putVariations :
    (shader.putVariations stage cache).variations stage = cache := by
  cases stage <;> rfl

/-- Each stage has variations of its own. -/
theorem variations_putVariations_of_ne {other : Stage} (h : other ≠ stage) :
    (shader.putVariations stage cache).variations other = shader.variations other := by
  cases stage <;> cases other <;> first | rfl | exact absurd rfl h

/-- Putting back what is there changes nothing. -/
@[simp] theorem putVariations_variations :
    shader.putVariations stage (shader.variations stage) = shader := by
  cases stage <;> rfl

/-- The last put counts. -/
@[simp] theorem putVariations_putVariations {cache' : VariationCache} :
    (shader.putVariations stage cache).putVariations stage cache' =
      shader.putVariations stage cache' := by
  cases stage <;> rfl

/-- Variations do not touch the id. -/
@[simp] theorem id_putVariations : (shader.putVariations stage cache).id = shader.id := by
  cases stage <;> rfl

/-- Variations do not touch the name. -/
@[simp] theorem name_putVariations : (shader.putVariations stage cache).name = shader.name := by
  cases stage <;> rfl

/-- Variations do not touch the context. -/
@[simp] theorem context_putVariations :
    (shader.putVariations stage cache).context = shader.context := by
  cases stage <;> rfl

/-- Variations do not touch the texts of the stages. -/
@[simp] theorem sources_putVariations :
    (shader.putVariations stage cache).sources = shader.sources := by
  cases stage <;> rfl

/-- The memory of a shader is that of its texts: variations do not count. -/
@[simp] theorem memoryUse_putVariations :
    (shader.putVariations stage cache).memoryUse = shader.memoryUse := by
  cases stage <;> rfl

/-- The shader was made under this id, this name and this context. -/
structure MadeAs (shader : Shader) (id : ResourceId) (name : String) (context : Context) :
    Prop where
  id : shader.id = id
  name : shader.name = name
  context : shader.context = context

/-- What any work on a shader leaves as it is: what the shader was made with, what the books say
    about others, and that no file is kept there which nobody needs. -/
structure Continues (desk t : Desk Shader) : Prop where
  made : t.item.MadeAs desk.item.id desk.item.name desk.item.context
  books : desk.books.AgreeBesides desk.item.id t.books
  pruned : desk.books.dependencies.Pruned → t.books.dependencies.Pruned

/-- What nothing is done to goes on as it is. -/
theorem Continues.refl (desk : Desk Shader) : Continues desk desk :=
  ⟨⟨rfl, rfl, rfl⟩, .refl, fun h => h⟩

/-- Other variations are work on a shader. -/
theorem continues_putVariations (variations : VariationCache) : Continues { item := shader, books }
    { item := shader.putVariations stage variations, books } :=
  ⟨⟨id_putVariations, name_putVariations, context_putVariations⟩, .refl, fun h => h⟩

/-! ### Loading -/

/-- The shader was given all that loading takes, and the graphics subsystem is there. -/
structure Ready (services : Services) (shader : Shader) : Prop where
  graphics : shader.context.graphics = true
  available : services.backend.availability = .available
  files : shader.context.files = true
  dependencies : shader.context.dependencies = true

/-- The expansion of a file under the limit of a shader. -/
def expansion (shader : Shader) (files : Provider) (file : SourceFile) :
    Expansion (List (List Char)) :=
  flatten files shader.context.config.maxIncludeDepth file

/-- The books in which the memory use of a shader has been entered, if it keeps a ledger. -/
def accounted (shader : Shader) (books : Books) : Books :=
  if shader.context.memory then books.mapMemory (·.report shader.id shader.memoryUse) else books

/-- The desk after files have been registered for the shader, where it keeps its dependencies. -/
def watching (desk : Desk Shader) (names : List String) : Desk Shader :=
  { desk with books := desk.item.context.tracker.map (·.registerAll desk.item.id names) desk.books }

/-- The desk after a successful load of a text: the shader has taken it over, and its files and its size
    are known. -/
def renewed (desk : Desk Shader) (names : List String) (code : String) : Desk Shader :=
  let item := desk.item.takeOver (split desk.item.context.config.dialect code)
  { item, books := item.accounted (watching desk names).books }

/-- The outcomes of loading a shader. -/
inductive Loaded (services : Services) (file : SourceFile) (desk : Desk Shader) :
    Ending Unit → Desk Shader → Prop where
  /-- Something that loading takes is missing. -/
  | refused {error : Error} (unready : ¬ desk.item.Ready services) :
    Loaded services file desk (.failed error) desk
  /-- The file cannot be expanded. -/
  | unexpanded {error : Error} (ready : desk.item.Ready services)
    (text : (desk.item.expansion services.files file).text = .error error) :
    Loaded services file desk (.failed error)
      (watching desk ((desk.item.expansion services.files file).others desk.item.name))
  | loaded {code : String} (ready : desk.item.Ready services)
    (text : (desk.item.expansion services.files file).text = .ok code) :
    Loaded services file desk (.done ())
      (renewed desk ((desk.item.expansion services.files file).others desk.item.name) code)
  /-- A breakdown before the text is taken over. -/
  | brokenBefore {reason : String} (names : List String) :
    Loaded services file desk (.unwound reason) (watching desk names)
  /-- A breakdown after the text is taken over. -/
  | brokenAfter {reason code : String} (names : List String) :
    Loaded services file desk (.unwound reason) (renewed desk names code)

/-- An entry of memory registers no file. -/
@[simp] theorem dependencies_accounted :
    (shader.accounted books).dependencies = books.dependencies := by
  unfold accounted; split <;> rfl

/-- A shader enters its memory under its own id. -/
theorem agreeBesides_accounted {id : ResourceId} (h : shader.id = id) :
    books.AgreeBesides id (shader.accounted books) := by
  subst h
  unfold accounted
  split
  · exact Books.agreeBesides_report _
  · exact .refl

/-- What a shader that shares the books has registered is found there. -/
theorem watching_shared (h : desk.item.context.tracker = .shared) (names : List String) :
    watching desk names =
      { desk with books := desk.books.mapDependencies (·.registerAll desk.item.id names) } := by
  rw [watching, h]
  rfl

/-- The dependencies after a successful load are those of the files that it has registered. -/
theorem dependencies_renewed (h : desk.item.context.tracker = .shared) (names : List String)
    (code : String) : (renewed desk names code).books.dependencies =
      desk.books.dependencies.registerAll desk.item.id names := by
  rw [renewed, dependencies_accounted, watching_shared h]
  rfl

/-- Registering files is work on a shader. -/
theorem continues_watching (names : List String) : Continues desk (watching desk names) :=
  ⟨⟨rfl, rfl, rfl⟩, Keeper.agreeBesides_registerAll names, fun h => Keeper.pruned_registerAll h _ _⟩

/-- A successful load is work on a shader. -/
theorem continues_renewed (names : List String) (code : String) :
    Continues desk (renewed desk names code) := by
  have hwatching : desk.books.AgreeBesides desk.item.id (watching desk names).books :=
    Keeper.agreeBesides_registerAll names
  refine ⟨⟨rfl, rfl, rfl⟩, hwatching.trans (agreeBesides_accounted rfl), fun h => ?_⟩
  rw [renewed, dependencies_accounted]
  exact Keeper.pruned_registerAll h _ _

/-- However a load ends, it is work on the shader. -/
theorem Loaded.continues {ending : Ending Unit} {t : Desk Shader}
    (h : Loaded services file desk ending t) : Continues desk t := by
  cases h with
  | refused _ => exact .refl desk
  | unexpanded _ _ => exact continues_watching _
  | loaded _ _ => exact continues_renewed _ _
  | brokenBefore names => exact continues_watching names
  | brokenAfter names => exact continues_renewed names _

/-- Registering files leaves the memory figures. -/
@[simp] theorem memory_watching {names : List String} :
    (watching desk names).books.memory = desk.books.memory := by
  unfold watching
  cases desk.item.context.tracker <;> rfl

/-- Registering nothing changes nothing. -/
theorem watching_nil : watching desk [] = desk := by
  unfold watching
  cases desk.item.context.tracker <;> rfl

/-- A breakdown before any file has been registered. -/
theorem Loaded.broken_at_once (reason : String) : Loaded services file desk (.unwound reason) desk := by
  have h : Loaded services file desk (.unwound reason) (watching desk []) := .brokenBefore []
  rwa [watching_nil] at h

/-- A load that fails has registered files at most. -/
theorem Loaded.of_failed {error : Error} {t : Desk Shader}
    (h : Loaded services file desk (.failed error) t) : ∃ names, t = watching desk names := by
  cases h with
  | refused _ => exact ⟨[], watching_nil.symm⟩
  | unexpanded _ _ => exact ⟨_, rfl⟩

/-- The graphics subsystem is asked for, and nothing changes. -/
theorem ensures_requireGraphics :
    requireGraphics.Ensures services (fun ending t j' =>
      t = desk ∧ j'.compilations = j.compilations ∧ match ending with
        | .done _ => desk.item.context.graphics = true ∧
            services.backend.availability = .available
        | .failed _ => ¬ desk.item.Ready services
        | .unwound _ => True) desk j := by
  unfold requireGraphics
  simp only [ensures_bind, ensures_get, after_done]
  by_cases hg : desk.item.context.graphics = true
  · rw [if_pos hg, ensures_bind, ensures_read, after_done]
    cases ha : services.backend.availability with
    | available => exact ⟨rfl, rfl, hg, rfl⟩
    | unavailable =>
      exact ensures_report
        (fun j' hj => ⟨rfl, hj, fun h => absurd (ha.symm.trans h.available) (by decide)⟩)
        (fun _ _ hj => ⟨rfl, hj, trivial⟩)
    | broken reason => exact ⟨rfl, rfl, trivial⟩
  · rw [if_neg hg]
    exact ensures_report (fun j' hj => ⟨rfl, hj, fun h => hg h.graphics⟩)
      (fun _ _ hj => ⟨rfl, hj, trivial⟩)

/-- Reporting memory always ends with a value, and enters what the shader uses at that point. -/
theorem ensures_reportMemory {post : Ending PUnit → Desk Shader → Journal → Prop}
    (h : post (.done ()) { desk with books := desk.item.accounted desk.books } j) :
    reportMemory.Ensures services post desk j := by
  unfold reportMemory
  rw [ensures_modify]
  unfold accounted at h
  split at h <;> rename_i hm
  · rwa [if_pos hm]
  · rwa [if_neg hm]

/-- **Loading.**  A shader is loaded in one of the ways of `Loaded`, and no compiler is asked. -/
theorem ensures_load :
    (load file).Ensures services (fun ending t j' =>
      j'.compilations = j.compilations ∧ Loaded services file desk ending t) desk j := by
  unfold load
  simp only [ensures_bind, ensures_get, after_done]
  refine ensures_requireGraphics.mono ?_
  rintro (_ | error | reason) t j₁ ⟨rfl, hj, hgraphics⟩
  rotate_left
  · exact ⟨hj, .refused hgraphics⟩
  · exact ⟨hj, .broken_at_once _⟩
  rw [after_done]
  -- Either subsystem may be missing, and both are reported alike.
  have hmissing (what : Error) (h : ¬ t.item.Ready services)
      {next : Unit → Action (Desk Shader) Unit} :
      ((report source what : Action (Desk Shader) Unit) >>= next).Ensures services
        (fun ending t' j' => j'.compilations = j.compilations ∧
          Loaded services file t ending t') t j₁ := by
    rw [ensures_bind]
    exact ensures_report (fun j' hj' => ⟨hj'.trans hj, .refused h⟩)
      (fun _ j' hj' => ⟨hj'.trans hj, .broken_at_once _⟩)
  by_cases hf : t.item.context.files = true
  · rw [if_pos hf]
    by_cases hd : t.item.context.dependencies = true
    · rw [if_pos hd, ensures_bind, onDependencies, ensures_focus]
      have ready : t.item.Ready services := ⟨hgraphics.1, hgraphics.2, hf, hd⟩
      -- The shader itself is touched only after its file has been expanded to the end.
      refine ensures_resolveFor.mono ?_
      rintro _ deps j₂ ⟨hj₂, htext | htext | names⟩
      · simp only [after_done, alone, ensures_bind, ensures_focus, ensures_modify]
        refine ensures_reportMemory ?_
        simp only [after_done, ensures_bind, ensures_get]
        refine ensures_say (fun j' hj' => ?_) (fun _ j' hj' => ?_)
        · exact ⟨hj'.trans (hj₂.trans hj), .loaded ready htext⟩
        · exact ⟨hj'.trans (hj₂.trans hj), .brokenAfter _⟩
      · exact ⟨hj₂.trans hj, .unexpanded ready htext⟩
      · exact ⟨hj₂.trans hj, .brokenBefore names⟩
    · rw [if_neg hd]
      exact hmissing _ fun h => hd h.dependencies
  · rw [if_neg hf]
    exact hmissing _ fun h => hf h.files

/-! ### Requesting a variation -/

/-- A shader with one more variation. -/
def grow (shader : Shader) (stage : Stage) (canonical : String) : Shader :=
  let cache := shader.variations stage
  shader.putVariations stage (cache.push (cache.fresh shader.id shader.name canonical))

/-- The desk after a variation was made: it counts towards the memory use, and the books know. -/
def grown (desk : Desk Shader) (stage : Stage) (canonical : String) : Desk Shader :=
  let larger := desk.item.grow stage canonical
  let item := { larger with memoryUse := larger.memoryUse + variationSize }
  { item, books := item.accounted desk.books }

/-- The outcomes of asking for a variation. -/
inductive Requested (stage : Stage) (defines : String) (desk : Desk Shader) :
    Ending Nat → Desk Shader → Prop where
  | found {i : Nat}
    (known : (desk.item.variations stage).find? (Defines.canonicalize defines) = some i) :
    Requested stage defines desk (.done i) desk
  | made (unknown : (desk.item.variations stage).find? (Defines.canonicalize defines) = none) :
    Requested stage defines desk (.done (desk.item.variations stage).size)
      (grown desk stage (Defines.canonicalize defines))
  /-- A breakdown after the variation is made and before it is accounted for. -/
  | broken {reason : String}
    (unknown : (desk.item.variations stage).find? (Defines.canonicalize defines) = none) :
    Requested stage defines desk (.unwound reason)
      { desk with item := desk.item.grow stage (Defines.canonicalize defines) }

/-- A shader that has got a variation is still the one that was made. -/
theorem madeAs_grow {canonical : String} :
    (shader.grow stage canonical).MadeAs shader.id shader.name shader.context :=
  ⟨id_putVariations, name_putVariations, context_putVariations⟩

/-- A request is work on the same shader, and its entry in the books is that shader's own. -/
theorem Requested.continues {ending : Ending Nat} {t : Desk Shader}
    (h : Requested stage defines desk ending t) : Continues desk t := by
  cases h with
  | found _ => exact .refl desk
  | made _ =>
    refine ⟨⟨madeAs_grow.id, madeAs_grow.name, madeAs_grow.context⟩, ?_, fun h => ?_⟩
    · exact agreeBesides_accounted madeAs_grow.id
    · rw [grown, dependencies_accounted]
      exact h
  | broken _ => exact ⟨madeAs_grow, .refl, fun h => h⟩

/-- Nothing is loaded over a request. -/
theorem Requested.unloaded {ending : Ending Nat} {t : Desk Shader}
    (h : Requested stage defines desk ending t) :
    t.item.sources = desk.item.sources ∧ t.books.dependencies = desk.books.dependencies := by
  cases h with
  | found _ => exact ⟨rfl, rfl⟩
  | made _ => exact ⟨sources_putVariations, dependencies_accounted⟩
  | broken _ => exact ⟨sources_putVariations, rfl⟩

/-- **Requesting.**  A variation is asked for in one of the ways of `Requested`, and no compiler is
    asked. -/
theorem ensures_request :
    (request stage defines).Ensures services (fun ending t j' =>
      j'.compilations = j.compilations ∧ Requested stage defines desk ending t) desk j := by
  unfold request
  simp only [ensures_bind, ensures_get, after_done]
  cases hf : (desk.item.variations stage).find? (Defines.canonicalize defines) with
  | some i => exact ⟨rfl, .found hf⟩
  | none =>
    simp only [ensures_bind, alone, ensures_focus, ensures_modify, after_done]
    refine ensures_say (fun j' hj => ?_) (fun reason j' hj => ⟨hj, .broken hf⟩)
    simp only [after_done, ensures_bind, ensures_focus, ensures_modify]
    refine ensures_reportMemory ?_
    exact ⟨hj, .made hf⟩

/-! ### Preparing a variation -/

/-- Whatever is done to a variation, it is done to the variations of its stage. -/
theorem ensures_onVariation {α : Type} {i : Nat} {act : Action Variation α}
    {post : Ending (Option α) → Shader → Journal → Prop}
    (h : ∀ ending cache j', post ending (shader.putVariations stage cache) j') :
    (onVariation stage i act).Ensures services post shader j := by
  rw [onVariation, ensures_focus]
  exact h _ _ _

/-- The outcomes of asking for a compiled variation: after those of asking for it, the variations of
    the stage may have changed. -/
inductive Prepared (stage : Stage) (defines : String) (desk : Desk Shader) :
    Ending Nat → Desk Shader → Prop where
  | mk {first ending : Ending Nat} {mid : Desk Shader} (cache : VariationCache)
    (requested : Requested stage defines desk first mid)
    (goesOn : first.isUnwound = true → ending.isUnwound = true) :
    Prepared stage defines desk ending { mid with item := mid.item.putVariations stage cache }

/-- Preparing is work on the same shader, and its entry in the books is that shader's own. -/
theorem Prepared.continues {ending : Ending Nat} {t : Desk Shader}
    (h : Prepared stage defines desk ending t) : Continues desk t := by
  obtain ⟨cache, hmid, -⟩ := h
  obtain ⟨⟨hid, hname, hcontext⟩, hbooks, hpruned⟩ := hmid.continues
  exact ⟨⟨id_putVariations.trans hid, name_putVariations.trans hname,
    context_putVariations.trans hcontext⟩, hbooks, hpruned⟩

/-- Preparing loads nothing: the texts of the stages and the dependencies stay as they were. -/
theorem Prepared.unloaded {ending : Ending Nat} {t : Desk Shader}
    (h : Prepared stage defines desk ending t) :
    t.item.sources = desk.item.sources ∧ t.books.dependencies = desk.books.dependencies := by
  obtain ⟨cache, hmid, -⟩ := h
  exact ⟨sources_putVariations.trans hmid.unloaded.1, hmid.unloaded.2⟩

/-- **The rule for preparing.**  After the request the variation is looked at, and perhaps compiled
    with the present text of its stage.  What holds of its place after the request and is preserved by
    both holds in the end, and the place is the one that is returned. -/
theorem ensures_prepare_of (inv : Nat → Desk Shader → Journal → Prop)
    {post : Ending Nat → Desk Shader → Journal → Prop}
    (requested : ∀ i mid j', j'.compilations = j.compilations →
      Requested stage defines desk (.done i) mid → inv i mid j')
    (broken : ∀ reason mid j', j'.compilations = j.compilations →
      Requested stage defines desk (.unwound reason) mid → post (.unwound reason) mid j')
    (spoken : ∀ i mid j₁ j₂, j₂.compilations = j₁.compilations → inv i mid j₁ → inv i mid j₂)
    (observed : ∀ i mid j₁, inv i mid j₁ → (onVariation stage i Variation.observe).Ensures services
      (fun _ item j₂ => inv i { mid with item } j₂) mid.item j₁)
    (compiled : ∀ i mid j₁, inv i mid j₁ → (onVariation stage i (Variation.compile
      (mid.item.sources.get stage) mid.item.context.config.dialect)).Ensures services
        (fun _ item j₂ => inv i { mid with item } j₂) mid.item j₁)
    (ends : ∀ i ending t j', (∀ k, ending = .done k → k = i) → inv i t j' → post ending t j') :
    (prepare stage defines).Ensures services post desk j := by
  unfold prepare
  rw [ensures_bind]
  refine ensures_request.mono ?_
  rintro (i | error | reason) mid j₁ ⟨hj, hmid⟩
  rotate_left
  · cases hmid
  · exact broken reason mid j₁ hj hmid
  have hdone {t : Desk Shader} {j' : Journal} (h : inv i t j') : post (.done i) t j' :=
    ends i _ _ _ (fun k hk => by cases hk; rfl) h
  have hfailed {error : Error} {t : Desk Shader} {j' : Journal} (h : inv i t j') :
      post (.failed error) t j' := ends i _ _ _ (fun k hk => by cases hk) h
  have hunwound {reason : String} {t : Desk Shader} {j' : Journal} (h : inv i t j') :
      post (.unwound reason) t j' := ends i _ _ _ (fun k hk => by cases hk) h
  -- First the variation is looked at.
  rw [after_done, ensures_bind, alone, ensures_focus]
  refine (observed i mid j₁ (requested i mid j₁ hj hmid)).mono ?_
  rintro (state | error | reason) seen j₂ hseen
  rotate_left
  · exact hfailed hseen
  · exact hunwound hseen
  rw [after_done]
  split
  · exact hdone hseen
  -- It shows no program, so it is compiled if the graphics subsystem is there.
  rw [ensures_bind]
  refine ensures_requireGraphics.mono ?_
  rintro (_ | error | reason) _ j₃ ⟨rfl, hj₃, -⟩
  rotate_left
  · exact hfailed (spoken _ _ _ _ hj₃ hseen)
  · exact hunwound (spoken _ _ _ _ hj₃ hseen)
  rw [after_done, ensures_bind, ensures_get, after_done, ensures_bind, alone, ensures_focus]
  refine (compiled i _ j₃ (spoken _ _ _ _ hj₃ hseen)).mono ?_
  rintro (_ | error | reason) last j₄ hlast
  · exact hdone hlast
  · exact hfailed hlast
  · exact hunwound hlast

/-- **Preparing.**  A compiled variation is asked for in one of the ways of `Prepared`. -/
theorem ensures_prepare :
    (prepare stage defines).Ensures services
      (fun ending t _ => Prepared stage defines desk ending t) desk j := by
  have hvaried {α : Type} {act : Action Variation α} (i : Nat) (mid : Desk Shader) (j₁ : Journal)
      (h : ∀ ending, Prepared stage defines desk ending mid) :
      (onVariation stage i act).Ensures services
        (fun _ item _ => ∀ ending, Prepared stage defines desk ending { mid with item })
        mid.item j₁ := by
    refine ensures_onVariation fun _ cache _ ending => ?_
    obtain ⟨_, hmid, hgoesOn⟩ := h ending
    rw [putVariations_putVariations]
    exact .mk cache hmid hgoesOn
  -- The request leaves the variations of its stage as they are, so they may be put back.
  have hrequested {first ending : Ending Nat} {mid : Desk Shader}
      (hmid : Requested stage defines desk first mid)
      (hgoesOn : first.isUnwound = true → ending.isUnwound = true) :
      Prepared stage defines desk ending mid := by
    have h := Prepared.mk (mid.item.variations stage) hmid hgoesOn
    rwa [putVariations_variations] at h
  refine ensures_prepare_of (fun _ mid _ => ∀ ending, Prepared stage defines desk ending mid)
    ?_ ?_ ?_ ?_ ?_ ?_
  · exact fun i mid j' _ hmid ending => hrequested hmid fun h => by cases h
  · exact fun reason mid j' _ hmid => hrequested hmid fun _ => rfl
  · exact fun i mid j₁ j₂ _ h => h
  · exact fun i mid j₁ h => hvaried i mid j₁ h
  · exact fun i mid j₁ h => hvaried i mid j₁ h
  · exact fun i ending t j' _ h => h ending

end Shader

end ShaderKit
