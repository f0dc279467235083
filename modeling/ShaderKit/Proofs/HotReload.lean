import ShaderKit.Proofs.Besides

namespace ShaderKit

open Std (ExtTreeMap)
open Include

/-!
# Hot reload converges

Files are written one after the other, and each write is followed by a reload of what it concerns.
A shader that is not reloaded has to be what its files give all the same.  It is: a file that it did
not enter when it was loaded last has no influence on it, and the dependencies name every other one.

* `Shader.Current`   — the texts and the dependencies of a shader are those that its file gives
* `Cache.Settled`    — every shader of a cache is current, apart from some stale ones
* `Settled.edit`     — after a write, the shaders that the file does not concern are current still
* `Settled.reloadedEach`, `Settled.answered` — reloads make shaders current, other calls leave them so
* `Site`             — a store of files with a cache over it, written and called in any order
-/

/-- The texts and the dependencies of a shader are those that its file gives. -/
def Shader.Current (files : Provider) (deps : DependencyMap) (shader : Shader) : Prop :=
  ∃ file code, files shader.name = .ok file ∧
    (shader.expansion files file).text = .ok code ∧
    shader.sources = split shader.context.config.dialect code ∧
    ∀ name, deps.Depends shader.id name ↔ name ∈ (shader.expansion files file).others shader.name

namespace Shader

variable {services : Services} {files other : Provider} {deps deps' : DependencyMap}
  {shader shader' : Shader} {file : SourceFile} {desk t : Desk Shader}

/-- Nothing else matters to whether a shader is current. -/
theorem Current.congr (h : shader.Current files deps)
    (hm : shader'.MadeAs shader.id shader.name shader.context)
    (hs : shader'.sources = shader.sources)
    (hd : ∀ name, deps'.Depends shader.id name ↔ deps.Depends shader.id name) :
    shader'.Current files deps' := by
  obtain ⟨file, code, hopen, htext, hsources, hdeps⟩ := h
  have hx : shader'.expansion files file = shader.expansion files file := by
    rw [expansion, expansion, hm.context]
  refine ⟨file, code, by rwa [hm.name], by rwa [hx], by rw [hs, hsources, hm.context], ?_⟩
  intro name
  rw [hm.id, hm.name, hx, hd, hdeps]

/-- A shader stays current when files change that it neither is loaded from nor depends on. -/
theorem Current.edit (h : shader.Current files deps) (hnamed : files.Named)
    (hown : other shader.name = files shader.name)
    (hagree : ∀ name, deps.Depends shader.id name → other name = files name) :
    shader.Current other deps := by
  obtain ⟨file, code, hopen, htext, hsources, hdeps⟩ := h
  -- Every file that is entered is the shader's own or one that it depends on.
  have hx : shader.expansion other file = shader.expansion files file := by
    refine flatten_congr hnamed (Expansion.succeeds_of_text htext) fun name hn => ?_
    by_cases hname : name = shader.name
    · rw [hname, hown]
    · exact hagree name ((hdeps name).mpr (Expansion.mem_others.mpr ⟨hn, hname⟩))
  exact ⟨file, code, by rwa [hown], by rwa [hx], hsources, fun name => by rw [hx, hdeps]⟩

/-- A successful load makes a shader current that had no dependencies. -/
theorem Loaded.current (h : Loaded services file desk (.done ()) t)
    (hshared : desk.item.context.tracker = .shared)
    (hopen : services.files desk.item.name = .ok file)
    (hnone : ∀ name, ¬ desk.books.dependencies.Depends desk.item.id name) :
    t.item.Current services.files t.books.dependencies := by
  cases h with
  | @loaded code ready htext =>
    refine ⟨file, code, hopen, htext, rfl, fun name => ?_⟩
    rw [dependencies_renewed hshared]
    exact DependencyMap.depends_registerAll.trans
      ⟨fun h => h.elim And.right fun hd => (hnone name hd).elim, fun hn => .inl ⟨rfl, hn⟩⟩

end Shader

/-- The entry of a shader that is current and sound. -/
def CacheEntry.Current (files : Provider) (deps : DependencyMap) (entry : CacheEntry) : Prop :=
  ∃ shader, entry.resource = { value := .shader shader } ∧ shader.Current files deps

namespace Cache

variable {services : Services} {files other : Provider} {stale stale' : ResourceId → Prop}
  {cache t : Cache} {id : ResourceId}

/-- Every shader of a cache is current, apart from some stale ones, and only shaders of the cache
    have dependencies. -/
structure Settled (files : Provider) (stale : ResourceId → Prop) (cache : Cache) : Prop where
  wellMade : cache.WellMade
  owners : ∀ id name, cache.books.dependencies.Depends id name → id ∈ cache.table.value
  current : ∀ (id : ResourceId) (entry : CacheEntry), cache.table.value[id]? = some entry → ¬ stale id →
    entry.Current files cache.books.dependencies

theorem Settled.mono (h : cache.Settled files stale) (hs : ∀ id, stale id → stale' id) :
    cache.Settled files stale' :=
  { h with current := fun id entry he hn => h.current id entry he fun hstale => hn (hs id hstale) }

/-- A change that concerns one resource leaves the others as current as they were. -/
theorem Settled.of_sameBesides (h : cache.Settled files stale) (ht : t.WellMade)
    (hsame : SameBesides id cache t)
    (howner : ∀ name, t.books.dependencies.Depends id name → id ∈ t.table.value)
    (hcur : ∀ entry, t.table.value[id]? = some entry → entry.Current files t.books.dependencies) :
    t.Settled files fun other => stale other ∧ other ≠ id where
  wellMade := ht
  owners := by
    intro other name hd
    by_cases hid : other = id
    · subst hid
      exact howner name hd
    · rw [hsame.mem_iff hid]
      exact h.owners other name ((hsame.books.depends other hid name).mp hd)
  current := by
    intro other entry he hn
    by_cases hid : other = id
    · subst hid
      exact hcur entry he
    · -- The entry is the same, and so are the dependencies under its id.
      rw [hsame.table other hid] at he
      obtain ⟨shader, hs, hc⟩ := h.current other entry he fun hstale => hn ⟨hstale, hid⟩
      have hmade := h.wellMade.entry_madeAs he hs
      refine ⟨shader, hs, hc.congr ⟨rfl, rfl, rfl⟩ rfl fun name => ?_⟩
      rw [hmade.id]
      exact hsame.books.depends other hid name

/-- Without stale shaders before there are none afterwards, if the concerned one is current. -/
theorem Settled.keep (h : cache.Settled files fun _ => False) (ht : t.WellMade)
    (hsame : SameBesides id cache t)
    (howner : ∀ name, t.books.dependencies.Depends id name → id ∈ t.table.value)
    (hcur : ∀ entry, t.table.value[id]? = some entry → entry.Current files t.books.dependencies) :
    t.Settled files fun _ => False :=
  (h.of_sameBesides ht hsame howner hcur).mono fun _ => And.left

/-! ### Writing a file -/

/-- After a write, the shaders that it does not concern are current still. -/
theorem Settled.edit (h : cache.Settled files fun _ => False) (hnamed : files.Named) {file : String}
    (hother : ∀ name, name ≠ file → other name = files name) :
    cache.Settled other (· ∈ cache.affected file) where
  wellMade := h.wellMade
  owners := h.owners
  current := by
    intro id entry he hn
    obtain ⟨shader, hs, hc⟩ := h.current id entry he (fun hf => hf)
    have hm := h.wellMade.entry_madeAs he hs
    rw [affected, List.mem_append, not_or] at hn
    -- The file is not the one that the shader was loaded from.
    have hown : shader.name ≠ file := by
      rintro rfl
      refine hn.1 ?_
      have hget : cache.table.get? = some cache.table.value := by
        simp [Guarded.get?, h.wellMade.sound]
      simp only [loadedFrom, hget]
      rw [ExtTreeMap.mem_keys, ← ExtTreeMap.isSome_getElem?_iff_mem, ExtTreeMap.getElem?_filter', he]
      simp [Option.filter, hm.name]
    refine ⟨shader, hs, hc.edit hnamed (hother _ hown) fun name hd => hother name ?_⟩
    -- Nor is it one that the shader depends on.
    rintro rfl
    rw [hm.id] at hd
    refine hn.2 (List.mem_filter.mpr ⟨DependencyMap.mem_dependents.mpr hd, ?_⟩)
    simpa using hn.1

/-! ### Reloading -/

/-- A reload that succeeds makes its shader current. -/
theorem Settled.reloaded (h : cache.Settled services.files stale)
    (hr : Reloaded services cache id (.done ()) t) :
    t.Settled services.files fun other => stale other ∧ other ≠ id := by
  refine h.of_sameBesides (hr.wellMade h.wellMade) (hr.sameBesides h.wellMade) ?_ ?_
  all_goals
    cases hr with | @loaded _ entry shader file desk found sound opened outcome _ => ?_
    have htable : (cache.replaceDependencies id []).table = cache.table := rfl
  · intro _ _
    rw [mem_table_putShader, htable]
    exact mem_table_of_entry found
  · intro entry' he
    have hm := h.wellMade.entry_madeAs found sound
    have hshared : shader.context.tracker = .shared := by rw [hm.context, h.wellMade.tracker]
    rw [table_putShader, if_pos rfl, htable, found] at he
    cases he
    refine ⟨desk.item, rfl, outcome.current hshared (by rwa [hm.name]) fun name hd => ?_⟩
    -- The dependencies of the shader are cleared before it is loaded.
    rw [hm.id] at hd
    exact List.not_mem_nil (DependencyMap.depends_registerAll_clear_self.mp hd)

/-- When all reloads succeed, every shader is current that was stale before. -/
theorem Settled.reloadedEach {ids : List ResourceId}
    {outcomes : List (ResourceId × Except Error Unit)}
    (h : cache.Settled services.files (· ∈ ids))
    (hr : ReloadedEach services ids cache (.done outcomes) t)
    (hok : ∀ outcome ∈ outcomes, outcome.2 = .ok ()) :
    t.Settled services.files fun _ => False := by
  -- The stale shaders are those that are still to be reloaded.
  induction ids generalizing cache outcomes with
  | nil =>
    cases hr with
    | nil => exact h.mono fun id hid => List.not_mem_nil hid
  | cons id ids ih =>
    cases hr with
    | ok first rest =>
      have hrest := h.reloaded first
      refine ih (hrest.mono ?_) rest fun outcome ho => hok outcome (List.mem_cons_of_mem _ ho)
      rintro other ⟨hm, hne⟩
      exact (List.mem_cons.mp hm).resolve_left hne
    | error rest => exact absurd (hok _ List.mem_cons_self) (by simp)

/-- Reloads leave current shaders current, whether or not they succeed. -/
theorem Settled.reloadedAny {ids : List ResourceId}
    {outcomes : List (ResourceId × Except Error Unit)}
    (h : cache.Settled services.files fun _ => False)
    (hr : ReloadedEach services ids cache (.done outcomes) t) :
    t.Settled services.files fun _ => False := by
  induction ids generalizing cache outcomes with
  | nil =>
    cases hr with
    | nil => exact h
  | cons id ids ih =>
    cases hr with
    | ok first rest => exact ih ((h.reloaded first).mono fun _ => And.left) rest
    | error rest => exact ih h rest

/-! ### Other calls -/

/-- Making a shader leaves the others current; the new one is current if it stays. -/
theorem Settled.created (h : cache.Settled services.files fun _ => False) {key : ResourceKey}
    {ending : Ending ResourceId} (hc : Created services cache key ending t)
    (hcalm : ending.isUnwound = false) : t.Settled services.files fun _ => False := by
  have hw := hc.wellMade h.wellMade
  have hsame := hc.sameBesides h.wellMade
  cases hc with
  | refused => exact h
  | discarded outcome found =>
    refine h.keep hw hsame ?_ ?_
    · exact fun name hd => (not_depends_without hd).elim
    · intro entry he
      rw [table_without_self] at he
      cases he
  | @loaded file desk _ opened outcome _ =>
    refine h.keep hw hsame ?_ ?_
    · intro name _
      exact mem_table_putShader.mpr (mem_table_of_entry table_joined_self)
    · intro entry he
      have hput := he
      simp only [enlist, table_putShader, if_pos, table_joined_self, Option.map_some] at hput
      cases hput
      refine ⟨desk.item, rfl, outcome.current h.wellMade.tracker opened fun name hd => ?_⟩
      -- The new id was not in use, so nothing depended on a file under it.
      exact h.wellMade.ids.next_not_live (h.owners _ name hd)
  | brokenBefore => cases hcalm
  | brokenLoad => cases hcalm

/-- Work on a shader other than loading leaves it as current as it was. -/
theorem Settled.putShader (h : cache.Settled files fun _ => False)
    {shader : Shader} {poisoned : Bool} {desk : Desk Shader}
    (hr : cache.resource? id = some { value := .shader shader, poisoned })
    (hc : Shader.Continues { item := shader, books := cache.books } desk)
    (hs : desk.item.sources = shader.sources ∧
      desk.books.dependencies = cache.books.dependencies) :
    (cache.putShader id desk poisoned).Settled files fun _ => False := by
  refine h.keep (h.wellMade.continue hr hc poisoned)
    (h.wellMade.sameBesides_continue hr hc poisoned) ?_ ?_
  · intro name hdep
    rw [books_putShader, hs.2] at hdep
    exact mem_table_putShader.mpr (h.owners id name hdep)
  · intro entry he
    rw [table_putShader, if_pos rfl] at he
    obtain ⟨old, hold, rfl⟩ := Option.map_eq_some_iff.mp he
    obtain ⟨shader', hs', hcur⟩ := h.current id old hold fun hf => hf
    rw [resource?_of_entry hold, hs'] at hr
    cases hr
    refine ⟨desk.item, rfl, hcur.congr hc.made hs.1 fun name => ?_⟩
    rw [books_putShader, hs.2]

/-- Taking hold of resources concerns none of them. -/
theorem Settled.held (h : cache.Settled files stale) (held : Std.ExtTreeSet ResourceId) :
    { cache with held }.Settled files stale :=
  ⟨h.wellMade.update _ _ h.wellMade.pruned, h.owners, h.current⟩

/-- Forgetting a resource leaves the others current. -/
theorem Settled.without (h : cache.Settled files fun _ => False) {entry : CacheEntry}
    (he : cache.table.value[id]? = some entry) :
    (cache.without id entry).Settled files fun _ => False := by
  refine h.keep (h.wellMade.without he) sameBesides_without ?_ ?_
  · exact fun name hd => (not_depends_without hd).elim
  · intro entry' he'
    rw [table_without_self] at he'
    cases he'

theorem Settled.letGo (h : cache.Settled files fun _ => False) (id : ResourceId) :
    (cache.letGo id).Settled files fun _ => False := by
  rcases h.wellMade.letGo_eq id with he | ⟨hid, he⟩
  · rw [he]
    exact h.held _
  · refine h.keep (h.wellMade.letGo id) (h.wellMade.sameBesides_letGo id) ?_ ?_
    · rw [he]
      exact fun name hd => ((DependencyMap.depends_clear.mp hd).1 rfl).elim
    · rw [he]
      exact fun entry hentry => (hid (mem_table_of_entry hentry)).elim

end Cache

/-- An operation that leaves loading to the cache, and the books to the cache and its shaders. -/
def CacheOp.Regular : CacheOp → Prop
  | onShader _ (.load _) => False
  | onBooks _ => False
  | _ => True

namespace Cache

variable {services : Services} {cache t : Cache}

/-- **The step.**  Any such call leaves every shader current, unless a collaborator breaks down. -/
theorem Settled.answered (h : cache.Settled services.files fun _ => False) {op : CacheOp}
    {ending : Ending Unit} (hop : op.Regular) (ha : Answered services cache op ending t)
    (hcalm : ending.isUnwound = false) : t.Settled services.files fun _ => False := by
  cases ha with
  | hit _ => exact h.held _
  | made created => exact (h.created created rfl).held _
  | unmade created _ => exact h.created created (by simpa using hcalm)
  | find held => exact h.held held
  | byId held => exact h.held held
  | reload reloaded =>
    rcases ending with (_ | error | reason)
    · exact (h.reloaded reloaded).mono fun _ => And.left
    · -- A reload that fails has changed nothing.
      cases reloaded.eq_of_failed
      exact h
    · cases hcalm
  | @fileChanged file first _ followed =>
    rcases first with (outcomes | error | reason)
    · cases followed with
      | each reloaded => exact h.reloadedAny reloaded
    · cases followed with
      | each reloaded => exact (reloaded.ne_failed error rfl).elim
    · cases hcalm
  | released found _ => exact h.without found
  | unknown _ => exact h
  | letGo => exact h.letGo _
  | @worked id op shader _ desk found outcome =>
    rw [hcalm]
    refine h.putShader found outcome.continues ?_
    -- Asking for variations touches neither the texts nor the dependencies.
    cases op with
    | request stage defines =>
      obtain ⟨first, -, hreq⟩ := outcome
      exact hreq.unloaded
    | prepare stage defines =>
      obtain ⟨first, -, hprep⟩ := outcome
      exact hprep.unloaded
    | load file => exact hop.elim
  | barred _ => exact h
  | varied found variations =>
    exact h.putShader found (Shader.continues_putVariations variations)
      ⟨Shader.sources_putVariations, rfl⟩
  | unvaried _ => exact h
  | onBooks => exact hop.elim

theorem settled_ofShaders (config : Config) (graphics : Bool)
    (fingerprint : String → Fingerprint) (files : Provider) :
    (ofShaders config graphics fingerprint).Settled files fun _ => False where
  wellMade := wellMade_ofShaders config graphics fingerprint
  owners := by
    intro id name hd
    simp [ofShaders, register, DependencyMap.Depends, DependencyMap.ownersOf] at hd
  current := by
    intro id entry he
    simp [ofShaders, register] at he

end Cache

/-! ### Runs -/

/-- A store of files with a cache over it. -/
structure Site where
  store : MemoryStore
  cache : Cache

namespace Site

/-- What may happen at a site without a breakdown. -/
inductive Step : Site → Site → Prop where
  /-- A file is written, and what it concerns is reloaded with success. -/
  | write {site : Site} (name : String) (bytes : ByteArray) (services : Services) (j : Journal)
    {outcomes : List (ResourceId × Except Error Unit)}
    (files : services.files = (site.store.insert name bytes).read)
    (reloads : ((Cache.fileChanged name).run services site.cache j).ending = .done outcomes)
    (succeed : ∀ outcome ∈ outcomes, outcome.2 = .ok ()) :
    Step site
      { store := site.store.insert name bytes
        cache := ((Cache.fileChanged name).run services site.cache j).state }
  /-- The cache is called, or one of its shaders. -/
  | call {site : Site} (call : Call) (files : call.services.files = site.store.read)
    (calm : call.Calm site.cache) (regular : call.op.Regular) :
    Step site { site with cache := call.next site.cache }

/-- The sites that a run leads to. -/
inductive Reached (start : Site) : Site → Prop where
  | start : Reached start start
  | step {site next : Site} (before : Reached start site) (step : Step site next) :
    Reached start next

variable {site next start : Site}

theorem Step.settled (hs : Step site next)
    (h : site.cache.Settled site.store.read fun _ => False) :
    next.cache.Settled next.store.read fun _ => False := by
  cases hs with
  | write name bytes services j files reloads succeed =>
    have hfollowed : Cache.Followed services site.cache name
        ((Cache.fileChanged name).run services site.cache j).ending
        ((Cache.fileChanged name).run services site.cache j).state :=
      Cache.ensures_fileChanged h.wellMade name
    rw [reloads] at hfollowed
    -- The write makes those shaders stale that the change concerns, and all of them are reloaded.
    have hedit : site.cache.Settled services.files (· ∈ site.cache.affected name) :=
      h.edit (fun _ _ => MemoryStore.name_of_read_eq_ok) fun other hne => by
        rw [files, MemoryStore.read_insert_of_ne (Ne.symm hne)]
    cases hfollowed with
    | each reloaded => exact files ▸ hedit.reloadedEach reloaded succeed
  | call call files calm regular =>
    rw [← files] at h ⊢
    exact h.answered regular (Cache.answered_next h.wellMade call) calm

theorem Step.context_eq (hs : Step site next) (h : site.cache.WellMade) :
    next.cache.context = site.cache.context := by
  cases hs with
  | write name bytes services j files reloads succeed =>
    exact Cache.Followed.context_eq (Cache.ensures_fileChanged h name)
  | call call files calm regular => exact (Cache.answered_next h call).context_eq h

/-- All shaders of a site stay current under the context that they were made with. -/
theorem Reached.settled (h : Reached start site)
    (hs : start.cache.Settled start.store.read fun _ => False) :
    site.cache.Settled site.store.read (fun _ => False) ∧
      site.cache.context = start.cache.context := by
  induction h with
  | start => exact ⟨hs, rfl⟩
  | step _ step ih => exact ⟨step.settled ih.1, (step.context_eq ih.1.wellMade).trans ih.2⟩

/-- **Hot reload converges.**  Take an empty cache of shaders over files in memory, and any run in
    which each write of a file is followed by a successful reload of what it concerns, with any other
    calls in between.  Then each shader of the cache has the texts that its file gives now, and
    depends on the files that are read for them, its own apart. -/
theorem hot_reload_converges {store : MemoryStore} {config : Config} {graphics : Bool}
    {fingerprint : String → Fingerprint}
    (h : Reached { store, cache := .ofShaders config graphics fingerprint } site)
    {id : ResourceId} {entry : CacheEntry} (he : site.cache.table.value[id]? = some entry) :
    ∃ shader file code, entry.resource = { value := .shader shader } ∧
      site.store.read entry.key.name = .ok file ∧
      (Include.flatten site.store.read config.maxIncludeDepth file).text = .ok code ∧
      shader.sources = split config.dialect code ∧
      ∀ name, name ∈ site.cache.books.dependencies.dependenciesOf id ↔
        name ∈ (Include.flatten site.store.read config.maxIncludeDepth file).entered ∧
          name ≠ entry.key.name := by
  obtain ⟨hsettled, hcontext⟩ :=
    h.settled (Cache.settled_ofShaders config graphics fingerprint store.read)
  obtain ⟨shader, hs, file, code, hopen, htext, hsources, hdeps⟩ :=
    hsettled.current id entry he fun hf => hf
  have hm := hsettled.wellMade.entry_madeAs he hs
  have hconfig : shader.context.config = config := by rw [hm.context, hcontext]; rfl
  rw [Shader.expansion, hconfig] at htext
  rw [hconfig] at hsources
  refine ⟨shader, file, code, hs, by rwa [← hm.name], htext, hsources, fun name => ?_⟩
  rw [DependencyMap.mem_dependenciesOf, ← hm.id, hdeps, Include.Expansion.mem_others,
    Shader.expansion, hconfig, hm.name]

/-- Two files, one of which includes the other, and no shader. -/
def twoFiles : Site where
  store := (({} : MemoryStore).insert "a" "#include \"b\"\nvoid VS();\nvoid PS();".toUTF8).insert
    "b" "float x;".toUTF8
  cache := .ofShaders {} true fun _ => {}

/-- The first request for a shader over both files. -/
def firstRequest : Call where
  op := .request { typeName := Shader.typeName, name := "a" }
  services := { files := twoFiles.store.read }

/-- The shader is loaded. -/
def twoFilesLoaded : Site := { twoFiles with cache := firstRequest.next twoFiles.cache }

/-- The collaborators after the included file was written. -/
def rewriting : Services :=
  { files := (twoFilesLoaded.store.insert "b" "float y;".toUTF8).read }

/-- The included file is written anew, and the shader is reloaded. -/
def twoFilesRewritten : Site where
  store := twoFilesLoaded.store.insert "b" "float y;".toUTF8
  cache := ((Cache.fileChanged "b").run rewriting twoFilesLoaded.cache {}).state

theorem twoFilesRewritten_reached : Reached twoFiles twoFilesRewritten := by
  have hcalm : firstRequest.Calm twoFiles.cache := by
    unfold Call.Calm
    decide +kernel
  have hreload : (((Cache.fileChanged "b").run rewriting twoFilesLoaded.cache {}).ending.map
      fun outcomes => outcomes.all fun outcome => outcome.2.isOk) = .done true := by
    decide +kernel
  obtain ⟨outcomes, hdone, hall⟩ := Ending.map_eq_done.mp hreload
  have hok : ∀ outcome ∈ outcomes, outcome.2 = .ok () := by
    intro outcome ho
    have hone := List.all_eq_true.mp hall outcome ho
    cases hresult : outcome.2 with
    | ok _ => rfl
    | error error => simp [hresult, Except.isOk, Except.toBool] at hone
  have hfirst : Step twoFiles twoFilesLoaded := .call firstRequest rfl hcalm trivial
  have hsecond : Step twoFilesLoaded twoFilesRewritten :=
    .write "b" "float y;".toUTF8 rewriting {} rfl hdone hok
  exact .step (.step .start hfirst) hsecond

/-- The shader has the new text of the file that it includes. -/
theorem hot_reload_converges_rewritten :
    ∃ entry shader file code,
      twoFilesRewritten.cache.table.value[(.slot 1 1 : ResourceId)]? = some entry ∧
      entry.resource = { value := .shader shader } ∧
      twoFilesRewritten.store.read entry.key.name = .ok file ∧
      (Include.flatten twoFilesRewritten.store.read Include.defaultLimit file).text = .ok code ∧
      shader.sources = split .hlsl code ∧
      "b" ∈ twoFilesRewritten.cache.books.dependencies.dependenciesOf (.slot 1 1) := by
  have hsome : (twoFilesRewritten.cache.table.value[(.slot 1 1 : ResourceId)]?).isSome = true := by
    decide +kernel
  obtain ⟨entry, he⟩ := Option.isSome_iff_exists.mp hsome
  obtain ⟨shader, file, code, hs, hopen, htext, hsources, -⟩ :=
    hot_reload_converges twoFilesRewritten_reached he
  exact ⟨entry, shader, file, code, he, hs, hopen, htext, hsources, by decide +kernel⟩

end Site

end ShaderKit
