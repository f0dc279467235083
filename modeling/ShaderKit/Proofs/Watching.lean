import ShaderKit.Proofs.FileChange

namespace ShaderKit

open ShaderKit.Action

/-!
# Hot reload goes by names

A file is found by a path, to which many names may lead.  A cache knows names and no paths: those under
which it looks up resources, and those under which an expansion opened the files that it read.  A
change that is told under one of these names reloads what was read under it, and one that is told under
another name of the same path does not.

* `Call.Loads`      — a call loads a shader from a file, with success
* `Cache.Watches`   — a change of any of the files that were read concerns the shader
* `Cache.KeepsWatch`, `Faithful.depends_next` — what does not end the watch
* `file_changed_reloads` — the names read by the last successful load of a shader are watched
* `spelling_not_followed` — other names are not, and what else ends the watch

Failed loads do not end the watch: a reload that fails gives the dependencies back, and a failed load by
a holder only adds to them.
-/

/-- The call loads the shader of an id from a file, with success: it is a first request, a reload, a
    change of a file that reloads the shader among others, or a load by someone who holds it. -/
def Call.Loads (call : Call) (cache : Cache) (id : ResourceId) (file : SourceFile) : Prop :=
  match call.op with
  | .request key => cache.find? key = none ∧
    ((Cache.request key).run call.services cache call.journal).ending = .done id ∧
    call.services.files key.name = .ok file
  | .reload other => other = id ∧ (call.outcome cache).ending = .done () ∧
    ∃ entry, cache.table.value[id]? = some entry ∧ call.services.files entry.key.name = .ok file
  | .fileChanged name => (∃ outcomes, (id, .ok ()) ∈ outcomes ∧
      ((Cache.fileChanged name).run call.services cache call.journal).ending = .done outcomes) ∧
    ∃ entry, cache.table.value[id]? = some entry ∧ call.services.files entry.key.name = .ok file
  | .onShader other (.load source) => other = id ∧ source = file ∧
    ((Cache.onShader id (Shader.load source)).run call.services cache call.journal).ending =
      .done (some ())
  | _ => False

/-- What can be seen as a shader is one. -/
theorem Resource.eq_of_shader? {resource : Resource} {shader : Shader}
    (h : resource.shader? = some shader) : resource = .shader shader := by
  cases resource with
  | shader s => exact congrArg Resource.shader (Option.some.inj h)
  | document d => cases h

namespace Cache

variable {cache mid t : Cache} {id other : ResourceId} {key : ResourceKey} {entry : CacheEntry}
  {services : Services} {j : Journal} {files : Provider} {file : SourceFile} {name : String}
  {shader : Shader} {desk desk' : Desk Shader} {call : Call}

/-! ### What stays -/

/-- What is a shader of the table was one before, under the same name and with the same context. -/
theorem Persists.shader_back (h : cache.Persists t) (hdenotes : cache.Denotes id)
    (he : t.table.value[id]? = some entry) (hs : entry.resource.value = .shader shader) :
    ∃ before old, cache.table.value[id]? = some before ∧ before.resource.value = .shader old ∧
      before.key = entry.key ∧ shader.context = old.context := by
  obtain ⟨resource, hr⟩ := hdenotes
  have hkey := h.lasting id entry.key (keyOf?_eq_some.mpr ⟨entry, he, rfl⟩)
    (by rw [hr]; exact Option.some_ne_none _)
  obtain ⟨before, hbefore, hsame⟩ := keyOf?_eq_some.mp hkey
  obtain ⟨found, hfound, hc⟩ := h.resources id _ (resource?_of_entry hbefore)
  cases (resource?_of_entry he).symm.trans hfound
  rw [hs] at hc
  obtain ⟨old, hold, hm⟩ := hc.of_shader
  exact ⟨before, old, hbefore, hold, hsame, hm.context⟩

/-- What an id denotes it goes on denoting. -/
theorem Persists.denotes (h : cache.Persists t) (hdenotes : cache.Denotes id) : t.Denotes id := by
  obtain ⟨resource, hr⟩ := hdenotes
  obtain ⟨resource', hr', -⟩ := h.resources id resource hr
  exact ⟨resource', hr'⟩

/-! ### A successful load -/

/-- A change of any of the files that were read concerns the resource, if it is a shader of the table. -/
def Watches (cache : Cache) (id : ResourceId) (files : Provider) (file : SourceFile) : Prop :=
  ∀ entry shader, cache.table.value[id]? = some entry → entry.resource.value = .shader shader →
    ∀ name ∈ (shader.expansion files file).entered,
      entry.key.name = name ∨ cache.books.dependencies.Depends id name

/-- What a successful load from a file leaves behind: the file could be expanded for the shader, and what
    was read for that is watched. -/
structure Reads (cache : Cache) (id : ResourceId) (files : Provider) (file : SourceFile) : Prop where
  flattens : ∀ entry shader, cache.table.value[id]? = some entry →
    entry.resource.value = .shader shader → (shader.expansion files file).Succeeds
  watches : cache.Watches id files file

/-- What was read for a shader is its own file or one of the others. -/
theorem name_eq_or_mem_others (h : name ∈ (shader.expansion files file).entered) :
    shader.name = name ∨ name ∈ (shader.expansion files file).others shader.name := by
  rw [Include.Expansion.mem_others, and_iff_right h]
  exact (eq_or_ne shader.name name).imp_right Ne.symm

/-- A load succeeds only where the expansion of its file does. -/
theorem succeeds_of_loaded (hl : Shader.Loaded services file desk (.done ()) desk') :
    (desk.item.expansion services.files file).Succeeds := by
  cases hl with
  | loaded _ text => exact Include.Expansion.succeeds_of_text text

/-- A load registers all that it reads besides the own file of the shader, in the shared books if the
    shader keeps its dependencies there. -/
theorem depends_of_loaded (hl : Shader.Loaded services file desk (.done ()) desk')
    (hshared : desk.item.context.tracker = .shared)
    (hname : name ∈ (desk.item.expansion services.files file).entered) :
    desk.item.name = name ∨ desk'.books.dependencies.Depends desk.item.id name := by
  cases hl with
  | loaded _ _ =>
    refine (name_eq_or_mem_others hname).imp_right fun hother => ?_
    rw [Shader.dependencies_renewed hshared]
    exact DependencyMap.depends_registerAll.mpr (Or.inl ⟨rfl, hother⟩)

/-- **A successful reload** watches all that it has read. -/
theorem Renewed.reads (hr : Renewed files cache id (.ok ()) t) (h : cache.Faithful)
    (he : cache.table.value[id]? = some entry) (hopen : files entry.key.name = .ok file) :
    t.Reads id files file := by
  cases hr with
  | @ok _ shader _ _ _ found sound opened text renewed depends =>
    cases he.symm.trans found
    cases hopen.symm.trans opened
    obtain ⟨-, hname, -⟩ := h.entry_shader found (congrArg Guarded.value sound)
    constructor
    · intro entry' shader' he' hs'
      cases he'.symm.trans renewed
      cases hs'
      exact Include.Expansion.succeeds_of_text text
    · intro entry' shader' he' hs' name hread
      cases he'.symm.trans renewed
      cases hs'
      rw [depends, ← hname]
      exact name_eq_or_mem_others hread

/-- What becomes of a document reads nothing. -/
theorem Persists.reads_of_document (h : cache.Persists t) {resource : Guarded Resource}
    (hr : cache.resource? id = some resource) {d : Document} (hd : resource.value = .document d) :
    t.Reads id files file := by
  have hnone : ∀ entry shader, t.table.value[id]? = some entry →
      entry.resource.value ≠ .shader shader := by
    intro entry shader he hs
    obtain ⟨found, hfound, hc⟩ := h.resources id resource hr
    cases (resource?_of_entry he).symm.trans hfound
    rw [hs, hd] at hc
    exact hc.elim
  exact ⟨fun entry shader he hs => (hnone entry shader he hs).elim,
    fun entry shader he hs => (hnone entry shader he hs).elim⟩

/-- The id denotes no shader. -/
def NoShader (id : ResourceId) (cache : Cache) : Prop := ∀ resource shader,
  cache.resource? id = some resource → resource.value ≠ .shader shader

/-- A document stays one, whatever is done to it. -/
theorem closed_noShader (id : ResourceId) : Closed (NoShader id) fun _ => True where
  work := by
    intro cache other old desk h _ hr hwork resource shader hfound hs
    replace hfound : (cache.putResource other desk.item).resource? id = some resource := hfound
    rw [resource?_putResource hr] at hfound
    split at hfound
    · rename_i hid
      cases hfound
      have hc := hwork.continues
      rw [hs] at hc
      obtain ⟨old', hold, -⟩ := hc.of_shader
      exact h old old' (hid ▸ hr) hold
    · exact h resource shader hfound hs
  replaced := fun _ h _ _ => h
  held := fun _ h => h
  retired := fun h _ _ => h
  released := fun h _ _ _ => dropped_of (I := NoShader id) h
    (fun _ he resource shader hfound => h resource shader (by rwa [← resource?_without he]))
    fun h _ _ => h
  without := fun h _ he resource shader hfound => h resource shader (by rwa [← resource?_without he])
  enlist := fun _ h _ _ => h

/-- The first load of a shader. -/
theorem ensures_finish_reads (cache : Cache) (hkeeps : (Resource.shader shader).KeepsTo cache.ids.next)
    (hname : shader.name = key.name) :
    (finish key file cache.ids.next).Ensures services (fun ending t _ => ending = .done id →
      t.Reads id services.files file) (cache.insert key (.shader shader)) j := by
  refine (ensures_finish_of (ensures_loadResource (resource?_of_entry table_insert_self))).mono ?_
  rintro ending t _ ⟨first, mid, hloaded, hfinished⟩ hdone
  cases hfinished with
  | listed => ?_
  | _ => cases hdone
  cases hloaded with | @loaded _ desk outcome => ?_
  cases hdone
  have hentry : ∀ entry, ((cache.insert key (.shader shader)).putShader cache.ids.next desk
      false).table.value[cache.ids.next]? = some entry →
        entry = { key, resource := { value := .shader desk.item } } := by
    intro entry he
    rw [table_putShader, if_pos rfl, table_insert_self] at he
    exact (Option.some.inj he).symm
  have hcontext := outcome.continues.made.context
  constructor
  · intro entry shader' he hs
    cases hentry entry he
    cases hs
    rw [Shader.expansion, hcontext]
    exact succeeds_of_loaded outcome
  · intro entry shader' he hs name hread
    cases hentry entry he
    cases hs
    rw [Shader.expansion, hcontext] at hread
    have hd := depends_of_loaded outcome (hkeeps.shared shader rfl) hread
    rwa [hname, hkeeps.id_eq] at hd

/-- A request returns the id under which it has made the resource. -/
theorem ensures_finish_id : (finish key file other).Ensures services
    (fun ending _ _ => ∀ made, ending = .done made → made = other) cache j := by
  have hload : (loadResource other file).Ensures services (fun _ _ _ => True) cache j := trivial
  refine (ensures_finish_of hload).mono ?_
  rintro _ _ _ ⟨_, _, -, hfinished⟩ made hdone
  cases hfinished with
  | listed => exact (Ending.done.inj hdone).symm
  | _ => cases hdone

/-- **A first load that succeeds** watches all that it has read. -/
theorem ensures_request_reads (hcall : call.Faithful cache) (hop : call.op = .request key)
    (hf : cache.find? key = none) (hopen : services.files key.name = .ok file) :
    (request key).Ensures services (fun ending t _ => ending = .done id →
      t.Reads id services.files file) cache j := by
  unfold Call.Faithful at hcall
  rw [hop] at hcall
  refine ensures_request_of (fun id hid => by rw [hf] at hid; cases hid) fun _ => ?_
  refine ensures_create_of (fun _ h => by cases h) (fun _ _ h => by cases h)
    (fun _ _ _ _ _ _ h => by cases h) fun source factory resource entries j' hsource hfactory _ hm => ?_
  cases hopen.symm.trans hsource
  obtain ⟨resource', entries', hm', -, hkeeps, hshader⟩ := hcall factory hfactory
  cases hm.symm.trans hm'
  cases resource with
  | shader shader =>
    exact ensures_finish_reads (cache.enter entries) hkeeps (hshader shader rfl)
  | document d =>
    have hmade : ((cache.enter entries).insert key (.document d)).resource? cache.ids.next =
        some { value := .document d } := resource?_of_entry table_insert_self
    have hdocument : NoShader cache.ids.next ((cache.enter entries).insert key (.document d)) := by
      intro resource shader hr hs
      cases hmade.symm.trans hr
      cases hs
    have hkeeps : (finish key file cache.ids.next).Ensures services (fun _ t _ => Preserving _
        ((cache.enter entries).insert key (.document d)) t)
        ((cache.enter entries).insert key (.document d)) j' :=
      (closed_noShader cache.ids.next).keeps_finish trivial key file services _ j'
    refine (hkeeps.and ensures_finish_id).mono ?_
    rintro ending t _ ⟨ht, hid⟩ hdone
    obtain rfl := hid id hdone
    have hnone := (ht ⟨hdocument, _, hmade⟩).1
    exact ⟨fun entry shader he hs => (hnone _ shader (resource?_of_entry he) hs).elim,
      fun entry shader he hs => (hnone _ shader (resource?_of_entry he) hs).elim⟩

/-- **A holder's load that succeeds** watches all that it has read, if the shader is in the table. -/
theorem Faithful.ensures_onShader_reads (h : cache.Faithful) :
    (onShader id (Shader.load file)).Ensures services (fun ending t _ => ending = .done (some ()) →
      t.Reads id services.files file ∧ cache.Denotes id) cache j := by
  by_cases hr : ∀ resource, cache.resource? id = some resource → resource.poisoned = true
  · refine ensures_onShader_barred hr fun hdone => ?_
    cases hdone
  · obtain ⟨⟨value, poisoned⟩, hr, hp⟩ : ∃ resource, cache.resource? id = some resource ∧
        resource.poisoned = false := by
      simpa using hr
    cases hp
    cases value with
    | shader shader =>
      have hid : shader.id = id := h.ids id _ shader hr rfl
      have hshared : shader.context.tracker = .shared := (h.keeps id _ hr).shared shader rfl
      refine ensures_onShader hr (Shader.ensures_load.mono ?_)
      rintro (_ | error | reason) desk j' ⟨-, hloaded⟩ hdone
      · refine ⟨⟨fun entry shader' he hs => ?_, fun entry shader' he hs name hread => ?_⟩, _, hr⟩
        all_goals
          rw [table_putShader, if_pos rfl, Option.map_eq_some_iff] at he
          obtain ⟨old, hold, rfl⟩ := he
          cases hs
        · rw [Shader.expansion, hloaded.continues.made.context]
          exact succeeds_of_loaded hloaded
        · have hname : shader.name = old.key.name :=
            h.names id old.key _ shader (keyOf?_eq_some.mpr ⟨old, hold, rfl⟩) hr rfl
          rw [Shader.expansion, hloaded.continues.made.context] at hread
          show old.key.name = name ∨ desk.books.dependencies.Depends id name
          rw [← hname, ← hid]
          exact depends_of_loaded hloaded hshared hread
      · cases hdone
      · cases hdone
    | document d =>
      -- A document is not loaded as a shader.
      rw [onShader, ensures_bind, ensures_focus?_some (by simp [hr]; rfl), ensures_hold,
        Resource.onShader, ensures_focus?_none rfl]
      exact fun hdone => by cases hdone

/-- What a request returns denotes a resource. -/
theorem Asked.denotes (ha : Asked cache key (.done id) t) : t.Denotes id := by
  cases ha with
  | found hf =>
    obtain ⟨-, entry, hentry⟩ := find?_eq_some.mp hf
    exact ⟨_, resource?_of_entry (entry?_eq_some.mp hentry).2⟩
  | created _ creating =>
    cases creating with
    | refused missing => exact (missing id rfl).elim
    | @loaded _ resource _ same ends =>
      obtain rfl : id = cache.ids.next := by
        rcases ends with hdone | hunwound
        · exact Ending.done.inj hdone
        · cases hunwound
      obtain ⟨resource', hr', -⟩ :=
        same.resources cache.ids.next { value := resource } (resource?_of_entry table_insert_self)
      exact ⟨resource', hr'⟩

/-- **After a successful load** the shader watches what was read for it. -/
theorem Faithful.reads_of_loads (h : cache.Faithful) (hknown : cache.Known)
    (hcall : call.Faithful cache) (hloads : call.Loads cache id file) :
    (call.next cache).Reads id call.services.files file ∧ (call.next cache).Denotes id := by
  have hpersists := hknown.persists_next call
  have hstill : cache.Denotes id → (call.next cache).Denotes id := hpersists.denotes
  rcases call with ⟨op, services, j⟩
  cases op with
  | request key =>
    obtain ⟨hf, hdone, hopen⟩ := hloads
    have hasked : Asked cache key ((request key).run services cache j).ending
        ((request key).run services cache j).state :=
      ensures_request_any h.discreet (discreet_of_faithful hcall key rfl)
    have hreads : (request key).Ensures services (fun ending t _ => ending = .done id →
        t.Reads id services.files file) cache j := ensures_request_reads hcall rfl hf hopen
    rw [hdone] at hasked
    have hact : (CacheOp.request key).act.Ensures services (fun _ t _ =>
        t.Reads id services.files file ∧ t.Denotes id) cache j := by
      rw [CacheOp.act, ensures_bind]
      show After _ _ _ ((request key).run services cache j).ending _ _
      rw [hdone]
      exact ⟨⟨(hreads hdone).flattens, (hreads hdone).watches⟩, hasked.denotes⟩
    exact hact
  | reload other =>
    obtain ⟨rfl, hdone, entry, he, hopen⟩ := hloads
    refine ⟨?_, hstill ⟨_, resource?_of_entry he⟩⟩
    cases hvalue : entry.resource.value with
    | document d => exact hpersists.reads_of_document (resource?_of_entry he) hvalue
    | shader shader =>
      have hreloaded : Reloaded services cache other
          ((Call.mk (.reload other) services j).outcome cache).ending
          ((Call.mk (.reload other) services j).next cache) :=
        ensures_reload_of h.pruned (h.ownShader he hvalue)
      rw [hdone] at hreloaded
      exact (hreloaded.renewed h).reads h he hopen
  | fileChanged name =>
    obtain ⟨⟨outcomes, hok, hdone⟩, entry, he, hopen⟩ := hloads
    refine ⟨?_, hstill ⟨_, resource?_of_entry he⟩⟩
    cases hvalue : entry.resource.value with
    | document d => exact hpersists.reads_of_document (resource?_of_entry he) hvalue
    | shader shader =>
      rw [next_fileChanged]
      exact (h.fileChanged_renewed he hvalue hdone hok).reads h he hopen
  | onShader other shaderOp =>
    cases shaderOp with
    | load source =>
      obtain ⟨rfl, rfl, hdone⟩ := hloads
      have hact : (CacheOp.onShader other (.load source)).act.Ensures services (fun _ t _ =>
          t.Reads other services.files source ∧ cache.Denotes other) cache j := by
        rw [CacheOp.act, ensures_discard]
        exact h.ensures_onShader_reads hdone
      exact ⟨hact.1, hstill hact.2⟩
    | _ => exact hloads.elim
  | _ => exact hloads.elim

/-- **A successful load begins a watch**, whichever call it is made by. -/
theorem Faithful.watches_of_loads (h : cache.Faithful) (hknown : cache.Known)
    (hcall : call.Faithful cache) (hloads : call.Loads cache id file) :
    (call.next cache).Watches id call.services.files file ∧ (call.next cache).Denotes id :=
  (h.reads_of_loads hknown hcall hloads).imp_left Reads.watches

/-! ### The watch goes on -/

/-- Work on a shader adds to the dependencies at most. -/
theorem depends_of_outcome {op : ShaderOp} {ending : Ending Unit}
    (ho : op.Outcome services desk ending desk') (hd : desk.books.dependencies.Depends id name) :
    desk'.books.dependencies.Depends id name := by
  have hmore (names : List String) : (Shader.watching desk names).books.dependencies.Depends id name := by
    rw [Shader.watching]
    cases desk.item.context.tracker with
    | shared => exact DependencyMap.depends_registerAll.mpr (Or.inr hd)
    | own => exact hd
  cases op with
  | request stage defines =>
    obtain ⟨first, -, hr⟩ := ho
    rwa [hr.unloaded.2]
  | prepare stage defines =>
    obtain ⟨first, -, hp⟩ := ho
    rwa [hp.unloaded.2]
  | load file =>
    cases ho with
    | refused _ => exact hd
    | unexpanded _ _ => exact hmore _
    | loaded _ _ =>
      rw [Shader.renewed, Shader.dependencies_accounted]
      exact hmore _
    | brokenBefore names => exact hmore names
    | brokenAfter names =>
      rw [Shader.renewed, Shader.dependencies_accounted]
      exact hmore names

/-- Work on the shader itself adds to its dependencies at most. -/
theorem depends_onShader {op : ShaderOp} {poisoned : Bool}
    (hr : cache.resource? id = some { value := .shader shader, poisoned })
    (hd : cache.books.dependencies.Depends other name) : (onShader id op.act).Ensures services
      (fun _ t _ => t.books.dependencies.Depends other name) cache j := by
  cases poisoned with
  | true => exact ensures_onShader_barred (by simp [hr]) hd
  | false =>
    exact ensures_onShader hr (op.ensures_act.mono fun _ _ _ ho => depends_of_outcome ho hd)

/-- Work on a variation leaves the books alone. -/
theorem books_onVariation {α : Type} {act : Action Variation α} {stage : Stage} {i : Nat} :
    (onVariation id stage i act).Ensures services (fun _ t _ => t.books = cache.books) cache j := by
  rw [onVariation]
  cases hv : cache.variation? id stage i with
  | none =>
    rw [ensures_focus?_none (by exact hv)]
  | some v =>
    rw [ensures_focus?_some (by exact hv)]
    show (cache.putVariation id stage i _).books = cache.books
    unfold putVariation
    split
    · exact books_putResource
    · rfl

/-- A call does nothing that may end the watch of a shader. -/
structure KeepsWatch (id : ResourceId) (cache : Cache) (call : Call) : Prop where
  /-- No collaborator breaks down. -/
  calm : call.Calm cache
  /-- Nobody else clears the dependencies of the shader. -/
  kept : call.op ≠ .onBooks (.clear id)
  /-- With a successful load a new watch would begin. -/
  unloaded : ∀ file, ¬ call.Loads cache id file

/-- What was released is not in the table. -/
theorem Released.not_mem (hr : Released cache id t) (hsound : cache.table.poisoned = false) :
    id ∉ t.table.value := by
  cases hr with
  | unknown missing => simpa using missing hsound
  | released _ _ forgotten =>
    rw [forgotten.mem_iff]
    simp [Cache.without, Guarded.put]

/-- A reload, by itself or after a change of a file, gives the dependencies back or is a successful
    load. -/
theorem Renewed.depends {result : Except Error Unit} (hr : Renewed files cache id result t)
    (hok : result ≠ .ok ()) (hd : cache.books.dependencies.Depends id name) :
    t.books.dependencies.Depends id name := by
  cases hr with
  | error same => exact (same.depends name).mpr hd
  | ok _ _ _ _ _ _ => exact (hok rfl).elim

/-- A reload that does not load the shader gives its dependencies back. -/
theorem Faithful.depends_reload (h : cache.Faithful)
    (hkeeps : KeepsWatch id cache (.mk (.reload id) services j))
    (he : cache.table.value[id]? = some entry) (hs : entry.resource.value = .shader shader)
    (hd : cache.books.dependencies.Depends id name) :
    ((Call.mk (.reload id) services j).next cache).books.dependencies.Depends id name := by
  have hreloaded : Reloaded services cache id
      ((Call.mk (.reload id) services j).outcome cache).ending
      ((Call.mk (.reload id) services j).next cache) :=
    ensures_reload_of h.pruned (h.ownShader he hs)
  have hcalm := hkeeps.calm
  unfold Call.Calm at hcalm
  cases hending : ((Call.mk (.reload id) services j).outcome cache).ending with
  | done _ =>
    rw [hending] at hreloaded
    cases hreloaded.renewed h with
    | ok found _ opened _ _ _ => exact (hkeeps.unloaded _ ⟨rfl, hending, _, found, opened⟩).elim
  | failed error =>
    rw [hending] at hreloaded
    rwa [hreloaded.eq_of_failed]
  | unwound reason =>
    rw [hending] at hcalm
    cases hcalm

/-- So does a change of a file, if the shader is among those that it reloads. -/
theorem Faithful.depends_fileChanged (h : cache.Faithful) {file : String}
    (hkeeps : KeepsWatch id cache (.mk (.fileChanged file) services j))
    (he : cache.table.value[id]? = some entry) (hs : entry.resource.value = .shader shader)
    (hop : (CacheOp.fileChanged file).Concerns cache id)
    (hd : cache.books.dependencies.Depends id name) :
    ((Call.mk (.fileChanged file) services j).next cache).books.dependencies.Depends id name := by
  have hcalm : ((fileChanged file).run services cache j).ending.isUnwound = false := by
    have hact : (CacheOp.fileChanged file).act.Ensures services (fun ending _ _ =>
        ending.isUnwound = ((fileChanged file).run services cache j).ending.isUnwound) cache j := by
      rw [CacheOp.act, ensures_discard]
      exact Ending.isUnwound_map _ _
    exact hact.symm.trans hkeeps.calm
  have hid : id ∈ cache.affected file := (mem_affected_iff_concerns h.sound).mpr hop
  obtain ⟨outcomes, hdone, -, result, hresult⟩ := fileChanged_listed hid hcalm
  have hrenewed := h.fileChanged_renewed he hs hdone hresult
  rw [next_fileChanged]
  refine hrenewed.depends ?_ hd
  rintro rfl
  cases hrenewed with
  | ok found _ opened _ _ _ => exact hkeeps.unloaded _ ⟨⟨outcomes, hresult, hdone⟩, _, found, opened⟩

/-- **The step.**  A shader that stays in the table keeps its dependencies until it is loaded with
    success. -/
theorem Faithful.depends_next (h : cache.Faithful) (hknown : cache.Known)
    (hcall : call.Faithful cache) (hkeeps : KeepsWatch id cache call)
    (he : cache.table.value[id]? = some entry) (hs : entry.resource.value = .shader shader)
    (hstill : id ∈ (call.next cache).table.value) (hd : cache.books.dependencies.Depends id name) :
    (call.next cache).books.dependencies.Depends id name := by
  by_cases hop : call.op.Concerns cache id
  · rcases call with ⟨op, services, j⟩
    cases op with
    | reload other =>
      obtain rfl : other = id := hop
      exact h.depends_reload hkeeps he hs hd
    | fileChanged file => exact h.depends_fileChanged hkeeps he hs hop hd
    | release other =>
      obtain rfl : other = id := hop
      have hact : (CacheOp.release other).act.Ensures services
          (fun _ t _ => Released cache other t) cache j := by
        rw [CacheOp.act, ensures_discard]
        exact ensures_release_any
      have hreleased : Released cache other ((Call.mk (.release other) services j).next cache) := hact
      exact (hreleased.not_mem h.sound hstill).elim
    | onShader other op =>
      obtain rfl : other = id := hop
      have hr : cache.resource? other =
          some { value := .shader shader, poisoned := entry.resource.poisoned } := by
        rw [resource?_of_entry he, ← hs]
      have hact : (CacheOp.onShader other op).act.Ensures services
          (fun _ t _ => t.books.dependencies.Depends other name) cache j := by
        rw [CacheOp.act, ensures_discard]
        exact depends_onShader hr hd
      exact hact
    | onVariation other stage i op =>
      have hact : (CacheOp.onVariation other stage i op).act.Ensures services
          (fun _ t _ => t.books = cache.books) cache j := by
        rw [CacheOp.act, ensures_discard]
        exact books_onVariation
      have hbooks : ((Call.mk (.onVariation other stage i op) services j).next cache).books =
        cache.books := hact
      rwa [hbooks]
    | onBooks change =>
      cases change with
      | register owner file => exact DependencyMap.depends_register.mpr (Or.inr hd)
      | clear owner => exact (hkeeps.kept (congrArg (CacheOp.onBooks ∘ BooksOp.clear) hop)).elim
      | report owner bytes => exact hd
      | remove owner => exact hd
    | request _ => exact hop.elim
    | find _ => exact hop.elim
    | byId _ => exact hop.elim
    | letGo _ => exact hop.elim
  · have hfresh : id ≠ cache.ids.next := by
      rintro rfl
      exact hknown.next_not_mem (mem_table_of_entry he)
    exact ((h.next_undisturbed hcall hfresh he hop).depends name).mpr hd

/-- **The run.**  A shader that is still in the table has lost none of its dependencies. -/
theorem Run.depends {events : List Event}
    (later : Run (fun cache call => call.Faithful cache ∧ KeepsWatch id cache call) mid events t)
    (hmid : mid.Faithful) (hknown : mid.Known) (hdenotes : mid.Denotes id)
    (he : t.table.value[id]? = some entry) (hs : entry.resource.value = .shader shader)
    (hd : mid.books.dependencies.Depends id name) : t.books.dependencies.Depends id name := by
  induction later generalizing entry shader with
  | start => exact hd
  | register _ typeName factory ih => exact ih he hs
  | @call events cache before call ok ih =>
    have hcache := before.known hknown
    have hpersists := hcache.persists_next call
    -- What is in the table now has been there all the time.
    obtain ⟨entry₀, shader₀, he₀, hs₀, -, -⟩ :=
      hpersists.shader_back ((before.persists hknown).denotes hdenotes) he hs
    have hfaithful := before.faithful hmid fun _ _ ok => ok.1
    exact hfaithful.depends_next hcache ok.1 ok.2 he₀ hs₀ (mem_table_of_entry he) (ih he₀ hs₀)

/-- It still watches what it watched. -/
theorem Run.watches {events : List Event}
    (later : Run (fun cache call => call.Faithful cache ∧ KeepsWatch id cache call) mid events t)
    (hmid : mid.Faithful) (hknown : mid.Known) (hdenotes : mid.Denotes id)
    (hwatches : mid.Watches id files file) : t.Watches id files file := by
  intro entry shader he hs name hread
  obtain ⟨entry₀, shader₀, he₀, hs₀, hkey, hcontext⟩ :=
    (later.persists hknown).shader_back hdenotes he hs
  rw [Shader.expansion, hcontext] at hread
  rw [← hkey]
  exact (hwatches entry₀ shader₀ he₀ hs₀ name hread).imp_right
    (later.depends hmid hknown hdenotes he hs)

/-- **Hot reload goes by names.**  Take a cache in any state that factories and calls lead to, over a
    directory tree or any other files, where shaders are made under the id, the name and with the
    dependency tracker that their factory was given, among resources of any kind that write under their
    own ids and do not call the cache back, and no factory has broken down.  Take a call that loads a
    shader with success, and any later state in which the shader is still in the table, with no breakdown
    on the way, no successful load of the shader, and nobody else who clears its dependencies.  Then for
    each name under which the load has read a file, at any depth of inclusion, a change of the file of that
    name reloads the shader: it is listed once, and either it has the text of its file as it is now or an
    error has left it as it was. -/
theorem file_changed_reloads {context : Context} {renew : Nat → Nat} (fresh : IdSource.Renews renew)
    {earlier events : List Event}
    (run : Run (fun cache call => call.Faithful cache) { context, ids := { renew } } earlier cache)
    (made : call.Faithful cache) (loads : call.Loads cache id file)
    (later : Run (fun cache call => call.Faithful cache ∧ KeepsWatch id cache call) (call.next cache)
      events t)
    (cached : t.table.value[id]? = some entry) (shown : entry.resource.value = .shader shader)
    (read : name ∈ (shader.expansion call.services.files file).entered)
    (calm : ((fileChanged name).run services t j).ending.isUnwound = false) :
    ∃ outcomes result, ((fileChanged name).run services t j).ending = .done outcomes ∧
      (outcomes.map Prod.fst).count id = 1 ∧ (id, result) ∈ outcomes ∧
      t.Renewed services.files id result ((fileChanged name).run services t j).state := by
  have hknown := run.known (known_start context fresh)
  have hcache := run.faithful (faithful_new context { renew }) fun _ _ ok => ok
  have hnext := hcache.next made
  have hknown' := hknown.next call
  obtain ⟨hwatches, hdenotes⟩ := hcache.watches_of_loads hknown made loads
  have ht := later.faithful hnext fun _ _ ok => ok.1
  -- The change concerns the shader, since it watches the name.
  have hid : id ∈ t.affected name := by
    refine (mem_affected_iff_concerns ht.sound).mpr ?_
    have hconcerns := later.watches hnext hknown' hdenotes hwatches entry shader cached shown name read
    exact hconcerns.imp_left fun hname => ⟨entry, cached, hname⟩
  obtain ⟨outcomes, hdone, hone, result, hresult⟩ := fileChanged_listed hid calm
  exact ⟨outcomes, result, hdone, hone, hresult, ht.fileChanged_renewed cached shown hdone hresult⟩

/-- A directory with two files, the first of which includes the second with a slash too much. -/
def spelledTree : DirectoryTree :=
  (({} : DirectoryTree).insert "Shaders/a" "#include \"/b\"\n".toUTF8).insert
    "Shaders/b" "float x;".toUTF8

/-- The first file, as it is opened. -/
def spelledFile : SourceFile := .ofText "Shaders/a" "#include \"/b\"\n"

/-- The first request for the shader of the first file. -/
def spelledRequest : Call where
  op := .request ⟨Shader.typeName, "Shaders/a"⟩
  services := { files := spelledTree.read }

/-- A cache before the request, and after it. -/
def spelledStart : Cache := ofShaders {} true fun _ => {}

def spelledCache : Cache := spelledRequest.next spelledStart

/-- The request succeeds. -/
theorem spelledRequest_loads : spelledRequest.Loads spelledStart (.slot 1 1) spelledFile := by
  have hbytes : spelledTree.bytesOf "Shaders/a" = some spelledFile.bytes := by decide +kernel
  refine ⟨by decide +kernel, by decide +kernel, ?_⟩
  show spelledTree.read "Shaders/a" = .ok spelledFile
  rw [DirectoryTree.read, hbytes]
  rfl

/-- The second file is read under a name with two slashes. -/
theorem mem_entered_spelledFile :
    "Shaders//b" ∈ (Include.flatten spelledTree.read Include.defaultLimit spelledFile).entered := by
  decide +kernel

/-- A reload for which there is no graphics subsystem. -/
def failingReload : Call where
  op := .reload (.slot 1 1)
  services := { files := spelledTree.read, backend := { availability := .unavailable } }

/-- Such a reload ends no watch. -/
theorem keepsWatch_failingReload : KeepsWatch (.slot 1 1) spelledCache failingReload := by
  have hending : (failingReload.outcome spelledCache).ending = .failed .graphicsUnavailable := by
    decide +kernel
  refine ⟨?_, by simp [failingReload], ?_⟩
  · rw [Call.Calm, hending]
    rfl
  · rintro file ⟨-, hdone, -⟩
    cases hending.symm.trans hdone

/-- After a reload that failed for want of a graphics subsystem, a change of the second file reloads the
    shader under the name by which the first file includes it. -/
theorem file_changed_reloads_included :
    let failed := failingReload.next spelledCache
    let out := (fileChanged "Shaders//b").run { files := spelledTree.read } failed {}
    ∃ outcomes result, out.ending = .done outcomes ∧
      (outcomes.map Prod.fst).count (.slot 1 1) = 1 ∧ (.slot 1 1, result) ∈ outcomes ∧
      failed.Renewed spelledTree.read (.slot 1 1) result out.state := by
  intro failed out
  -- The shader is still there, with the limit of the context.
  have hshader : ((failed.table.value[ResourceId.slot 1 1]?.bind fun entry =>
      entry.resource.value.shader?).map fun shader => shader.context.config.maxIncludeDepth) =
      some Include.defaultLimit := by decide +kernel
  obtain ⟨shader, hfound, hlimit⟩ := Option.map_eq_some_iff.mp hshader
  obtain ⟨entry, he, hs⟩ := Option.bind_eq_some_iff.mp hfound
  have hread : "Shaders//b" ∈ (shader.expansion spelledTree.read spelledFile).entered := by
    rw [Shader.expansion, hlimit]
    exact mem_entered_spelledFile
  have hfaithful := (wellMade_ofShaders {} true fun _ => {}).call_faithful spelledRequest
  exact file_changed_reloads IdSource.renews_add_two (.register .start _ _) hfaithful spelledRequest_loads
    (.call .start _ ⟨trivial, keepsWatch_failingReload⟩) he (Resource.eq_of_shader? hs) hread
    (by decide +kernel)

/-- A factory that makes shaders under another id or another name than it is given. -/
def renamingFactory (id : ResourceId → ResourceId) (name : String → String) : Factory :=
  fun given asked context => .ok (.shader (Shader.unloaded (id given) (name asked) context))

/-- A factory that gives each shader a tracker of its own. -/
def detachingFactory : Factory := fun id name context =>
  .ok (.shader (Shader.unloaded id name { context with tracker := .own }))

/-- The cache after a request, if this is its factory of shaders. -/
def refitted (factory : Factory) (request : Call) : Cache :=
  request.next (({ context := {} } : Cache).register Shader.typeName factory)

/-- The cache after a request for a document, which is loaded from this file.  Over each load it makes
    these entries, and once the text has changed it releases these resources. -/
def invaded (cache : Cache) (files : Provider) (name : String) (entries : List BooksOp)
    (releases : List ResourceId) : Cache :=
  (Call.mk (.request ⟨"Document", name⟩) { files } {}).next
    (cache.register "Document" fun id name _ => .ok (.document
      { typeName := "Document", id, name, parse := SourceFile.text, entries := fun _ => entries
        releases := fun file => match file.text with
          | .ok "float x;" => []
          | _ => releases }))

/-- **What is not followed.**  The load has read the second file under the name by which the first one
    includes it.  A change that is told under the plain name of the same path reloads nothing.  Nor does
    a change that is told under the name by which it was read, if the factory gave the shader the id of
    all standalone resources, or for a name that of the second file, or a tracker of its own; or once a
    reload has been cut short, or somebody else has cleared the dependencies of the shader, a document for
    example, or another shader has ended that was made under the same id.  A document that calls the cache
    back may release the shader before its turn comes.  Once a factory has broken down, not even the own
    file is followed. -/
theorem spelling_not_followed :
    let services : Services := { files := spelledTree.read }
    let edited : Services := { files := (spelledTree.insert "Shaders/b" "float y;".toUTF8).read }
    let nameless := refitted (renamingFactory (fun _ => .standalone) fun asked => asked) spelledRequest
    let misnamed := refitted (renamingFactory (fun given => given) fun _ => "Shaders//b") spelledRequest
    let detached := refitted detachingFactory spelledRequest
    let broken := (Call.mk (.reload (.slot 1 1))
      { services with backend := { availability := .broken "device lost" } } {}).next spelledCache
    let cleared := (Call.mk (.onBooks (.clear (.slot 1 1))) {} {}).next spelledCache
    let meddled := spelledCache.invaded spelledTree.read "Shaders//b" [.clear (.slot 1 1)] []
    let foe := spelledCache.invaded spelledTree.read "Shaders//b" [] [.slot 1 1]
    let intruded := (fileChanged "Shaders//b").run edited foe {}
    let doubled := (Call.mk (.request ⟨"Other", "Shaders/b"⟩) services {}).next
      (spelledCache.register "Other" (renamingFactory (fun _ => .slot 1 1) fun asked => asked))
    let halved := (Call.mk (.letGo (.slot 2 1)) {} {}).next
      ((Call.mk (.release (.slot 2 1)) {} {}).next doubled)
    let trapped := (Call.mk (.request ⟨"Trap", "Shaders/a"⟩) services {}).next
      (spelledCache.register "Trap" fun _ _ _ => .error "broken")
    spelledRequest.Loads spelledStart (.slot 1 1) spelledFile ∧
      "Shaders//b" ∈ (Include.flatten spelledTree.read Include.defaultLimit spelledFile).entered ∧
      DirectoryTree.resolve "Shaders/b" = DirectoryTree.resolve "Shaders//b" ∧
      .slot 1 1 ∈ spelledCache.table.value ∧
      ((fileChanged "Shaders/b").run services spelledCache {}).ending = .done [] ∧
      .slot 1 1 ∈ nameless.table.value ∧
      ((fileChanged "Shaders//b").run services nameless {}).ending =
        .done [(.standalone, .error (.invalidResource "Unknown resource id ResourceId(null)"))] ∧
      .slot 1 1 ∈ misnamed.table.value ∧
      ((fileChanged "Shaders//b").run services misnamed {}).ending = .done [] ∧
      .slot 1 1 ∈ detached.table.value ∧
      ((fileChanged "Shaders//b").run services detached {}).ending = .done [] ∧
      .slot 1 1 ∈ broken.table.value ∧
      ((fileChanged "Shaders//b").run services broken {}).ending = .done [] ∧
      .slot 1 1 ∈ cleared.table.value ∧
      ((fileChanged "Shaders//b").run services cleared {}).ending = .done [] ∧
      .slot 1 1 ∈ meddled.table.value ∧
      ((fileChanged "Shaders//b").run services meddled {}).ending = .done [(.slot 2 1, .ok ())] ∧
      .slot 1 1 ∈ foe.table.value ∧
      intruded.ending = .done [(.slot 2 1, .ok ()),
        (.slot 1 1, .error (.invalidResource "Unknown resource id ResourceId(1v1)"))] ∧
      .slot 1 1 ∉ intruded.state.table.value ∧
      .slot 1 1 ∈ halved.table.value ∧
      ((fileChanged "Shaders//b").run services halved {}).ending = .done [] ∧
      .slot 1 1 ∈ trapped.table.value ∧
      ((fileChanged "Shaders/a").run services trapped {}).ending = .done [] :=
  ⟨spelledRequest_loads, mem_entered_spelledFile, by decide +kernel, by decide +kernel,
    by decide +kernel, by decide +kernel, by decide +kernel, by decide +kernel, by decide +kernel,
    by decide +kernel, by decide +kernel, by decide +kernel, by decide +kernel, by decide +kernel,
    by decide +kernel, by decide +kernel, by decide +kernel, by decide +kernel, by decide +kernel,
    by decide +kernel, by decide +kernel, by decide +kernel, by decide +kernel, by decide +kernel⟩

end Cache

end ShaderKit
