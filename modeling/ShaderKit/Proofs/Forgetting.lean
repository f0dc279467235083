import ShaderKit.Proofs.Besides

namespace ShaderKit

open Std (ExtTreeMap)

/-!
# What is released stays forgotten

A released shader is forgotten by the books, but whoever holds it may go on using it, and it still
has the books at hand.  So it may come back into them, and nobody will take it out again.

* `ShaderOp.Publishes` — when work on a shader enters it into the books
* `Call.Late`          — work on a released shader that does so
* `Cache.Accounted`    — the books agree with the table: the invariant of runs without late calls
* `Cache.InOrder`      — what a caller sees of it: whose figures there are, their sum, and which
                         resources a change of a file concerns
* `inOrder_iff`        — a run leaves the books in order at each moment exactly when no call is late
-/

/-! ### What work on a shader does to the books -/

namespace Shader

variable {services : Services} {shader : Shader} {books : Books} {file : SourceFile}
  {desk t : Desk Shader} {stage : Stage} {defines : String}

/-- The ledger has the present memory use of the shader, or neither has changed. -/
def Reported (desk t : Desk Shader) : Prop :=
  t.books.memory.sizes[desk.item.id]? = some t.item.memoryUse ∨
    t.item.memoryUse = desk.item.memoryUse ∧ t.books.memory.sizes = desk.books.memory.sizes

/-- A shader that enters its memory is in the ledger with all that it uses. -/
theorem sizes_accounted (h : shader.context.memory = true) :
    (shader.accounted books).memory.sizes[shader.id]? = some shader.memoryUse := by
  simp [accounted, h, Books.mapMemory, MemoryLedger.report]

/-- So is a shader that was loaded. -/
theorem sizes_renewed {names : List String} {code : String}
    (h : desk.item.context.memory = true) :
    (renewed desk names code).books.memory.sizes[desk.item.id]? =
      some (renewed desk names code).item.memoryUse :=
  sizes_accounted h

/-- So is a shader that has got one more variation. -/
theorem sizes_grown {canonical : String} (h : desk.item.context.memory = true) :
    (grown desk stage canonical).books.memory.sizes[desk.item.id]? =
      some (grown desk stage canonical).item.memoryUse := by
  have hid : (grown desk stage canonical).item.id = desk.item.id := madeAs_grow.id
  rw [← hid]
  refine sizes_accounted ?_
  show (desk.item.grow stage canonical).context.memory = true
  rw [madeAs_grow.context, h]

/-- However a load ends, the ledger has what the shader uses then, or neither has changed. -/
theorem Loaded.reported {ending : Ending Unit} (h : Loaded services file desk ending t)
    (hm : desk.item.context.memory = true) : Reported desk t := by
  cases h with
  | refused _ => exact .inr ⟨rfl, rfl⟩
  | unexpanded _ _ => exact .inr ⟨rfl, congrArg _ memory_watching⟩
  | loaded _ _ => exact .inl (sizes_renewed hm)
  | brokenBefore _ => exact .inr ⟨rfl, congrArg _ memory_watching⟩
  | brokenAfter _ => exact .inl (sizes_renewed hm)

/-- A request for a variation that is there changes nothing. -/
theorem Requested.eq_of_known {ending : Ending Nat} (h : Requested stage defines desk ending t)
    (known : (desk.item.variations stage).find? (Defines.canonicalize defines) ≠ none) :
    t = desk := by
  cases h with
  | found _ => rfl
  | made unknown => exact (known unknown).elim
  | broken unknown => exact (known unknown).elim

/-- A request for another one enters the shader into the ledger. -/
theorem Requested.mem_sizes {ending : Ending Nat} (h : Requested stage defines desk ending t)
    (hcalm : ending.isUnwound = false)
    (unknown : (desk.item.variations stage).find? (Defines.canonicalize defines) = none)
    (hm : desk.item.context.memory = true) : desk.item.id ∈ t.books.memory.sizes := by
  cases h with
  | found known => cases unknown.symm.trans known
  | made _ =>
    rw [← ExtTreeMap.isSome_getElem?_iff_mem, sizes_grown hm]
    rfl
  | broken _ => cases hcalm

/-- So it is after a request, which may have added a variation. -/
theorem Requested.reported {ending : Ending Nat} (h : Requested stage defines desk ending t)
    (hm : desk.item.context.memory = true) : Reported desk t := by
  cases h with
  | found _ => exact .inr ⟨rfl, rfl⟩
  | made _ => exact .inl (sizes_grown hm)
  | broken _ => exact .inr ⟨memoryUse_putVariations, rfl⟩

/-- So it is after a variation has been prepared. -/
theorem Prepared.reported {ending : Ending Nat} (h : Prepared stage defines desk ending t)
    (hm : desk.item.context.memory = true) : Reported desk t := by
  obtain ⟨cache, hmid, -⟩ := h
  rcases hmid.reported hm with hr | ⟨huse, hsizes⟩
  · exact .inl (hr.trans (congrArg some memoryUse_putVariations.symm))
  · exact .inr ⟨memoryUse_putVariations.trans huse, hsizes⟩

end Shader

namespace ShaderOp

variable {services : Services} {shader : Shader} {desk t : Desk Shader} {op : ShaderOp}
  {ending : Ending Unit}

/-- The work enters the shader into the books: it makes a variation, or it loads and gets far enough
    to register a file or to finish. -/
def Publishes (services : Services) (shader : Shader) : ShaderOp → Prop
  | request stage defines | prepare stage defines =>
    (shader.variations stage).find? (Defines.canonicalize defines) = none
  | load file => shader.Ready services ∧
    ((∃ code, (shader.expansion services.files file).text = .ok code) ∨
      (shader.expansion services.files file).others shader.name ≠ [])

/-- So it is whatever is done to the shader. -/
theorem Outcome.reported (h : op.Outcome services desk ending t)
    (hm : desk.item.context.memory = true) : Shader.Reported desk t := by
  cases op with
  | request stage defines =>
    obtain ⟨first, -, h⟩ := h
    exact h.reported hm
  | prepare stage defines =>
    obtain ⟨first, -, h⟩ := h
    exact h.reported hm
  | load file => exact Shader.Loaded.reported h hm

/-- Work that does not publish leaves the books alone. -/
theorem Outcome.books_eq (h : op.Outcome services desk ending t)
    (hcalm : ending.isUnwound = false) (hn : ¬ op.Publishes services desk.item) :
    t.books = desk.books := by
  cases op with
  | request stage defines =>
    obtain ⟨first, -, h⟩ := h
    rw [h.eq_of_known hn]
  | prepare stage defines =>
    obtain ⟨first, -, cache, h, -⟩ := h
    rw [h.eq_of_known hn]
  | load file =>
    cases h with
    | refused _ => rfl
    | unexpanded ready _ =>
      -- The expansion has entered no file besides the shader's own, so none was registered.
      have hnone : (desk.item.expansion services.files file).others desk.item.name = [] :=
        Decidable.byContradiction fun hne => hn ⟨ready, .inr hne⟩
      rw [hnone, Shader.watching_nil]
    | loaded ready text => exact (hn ⟨ready, .inl ⟨_, text⟩⟩).elim
    | brokenBefore _ => cases hcalm
    | brokenAfter _ => cases hcalm

/-- Work that publishes leaves a dependency or a memory figure of the shader in the books. -/
theorem Outcome.published (h : op.Outcome services desk ending t)
    (hcalm : ending.isUnwound = false) (hp : op.Publishes services desk.item)
    (hm : desk.item.context.memory = true) (ht : desk.item.context.tracker = .shared) :
    (∃ name, t.books.dependencies.Depends desk.item.id name) ∨
      desk.item.id ∈ t.books.memory.sizes := by
  cases op with
  | request stage defines =>
    obtain ⟨first, rfl, h⟩ := h
    rw [Ending.isUnwound_map] at hcalm
    exact .inr (h.mem_sizes hcalm hp hm)
  | prepare stage defines =>
    obtain ⟨first, rfl, cache, h, goesOn⟩ := h
    rw [Ending.isUnwound_map] at hcalm
    -- A breakdown over the request would have ended the whole.
    have hfirst := Bool.eq_false_iff.mpr (mt goesOn (Bool.eq_false_iff.mp hcalm))
    exact .inr (h.mem_sizes hfirst hp hm)
  | load file =>
    cases h with
    | refused unready => exact (unready hp.1).elim
    | unexpanded _ text =>
      have hne : (desk.item.expansion services.files file).others desk.item.name ≠ [] := by
        refine hp.2.resolve_left ?_
        rintro ⟨code, h⟩
        cases h.symm.trans text
      obtain ⟨name, hn⟩ := List.exists_mem_of_ne_nil _ hne
      rw [Shader.watching_shared ht]
      exact .inl ⟨name, DependencyMap.depends_registerAll.mpr (.inl ⟨rfl, hn⟩)⟩
    | loaded _ _ =>
      refine .inr ?_
      rw [← ExtTreeMap.isSome_getElem?_iff_mem, Shader.sizes_renewed hm]
      rfl
    | brokenBefore _ => cases hcalm
    | brokenAfter _ => cases hcalm

end ShaderOp

namespace Cache

variable {services : Services} {cache t : Cache} {id : ResourceId}

/-! ### The books and the table -/

/-- The books agree with the table about one resource: if it is in the table, it is sound and its
    memory use is in the ledger; if not, it is not in the books. -/
structure AccountedAt (cache : Cache) (id : ResourceId) : Prop where
  sound : ∀ entry, cache.table.value[id]? = some entry → entry.resource.poisoned = false
  owner : ∀ name, cache.books.dependencies.Depends id name → id ∈ cache.table.value
  size : cache.books.memory.sizes[id]? =
    cache.table.value[id]?.map (·.resource.value.memoryUse)

/-- The books agree with the table about every resource. -/
structure Accounted (cache : Cache) : Prop where
  wellMade : cache.WellMade
  each : ∀ id, cache.AccountedAt id

/-- A new cache is accounted for: it holds nothing. -/
theorem accounted_ofShaders (config : Config) (graphics : Bool)
    (fingerprint : String → Fingerprint) : (ofShaders config graphics fingerprint).Accounted where
  wellMade := wellMade_ofShaders config graphics fingerprint
  each := by
    intro id
    constructor
    · intro entry he
      simp [ofShaders, register] at he
    · intro name hd
      simp [ofShaders, register, DependencyMap.Depends, DependencyMap.ownersOf] at hd
    · simp [ofShaders, register]

/-- Only the resource that a change concerns has to be looked at. -/
theorem Accounted.of_sameBesides (h : cache.Accounted) (ht : t.WellMade)
    (hsame : SameBesides id cache t) (hid : t.AccountedAt id) : t.Accounted where
  wellMade := ht
  each := by
    intro other
    by_cases hne : other = id
    · rw [hne]
      exact hid
    · have hother := h.each other
      constructor
      · rw [hsame.table other hne]
        exact hother.sound
      · intro name hd
        rw [hsame.mem_iff hne]
        exact hother.owner name ((hsame.books.depends other hne name).mp hd)
      · rw [hsame.books.sizes other hne, hsame.table other hne]
        exact hother.size

/-- Who holds what is no business of the books. -/
theorem Accounted.held (h : cache.Accounted) (held : Std.ExtTreeSet ResourceId) :
    { cache with held }.Accounted where
  wellMade := h.wellMade.update _ _ h.wellMade.pruned
  each := by
    intro id
    have hid := h.each id
    exact ⟨hid.sound, hid.owner, hid.size⟩

/-- Of a resource that was forgotten nothing is left to account for. -/
theorem accountedAt_without {entry : CacheEntry} : (cache.without id entry).AccountedAt id where
  sound := by
    intro entry' he
    rw [table_without_self] at he
    cases he
  owner := fun name hd => (not_depends_without hd).elim
  size := by
    rw [table_without_self]
    simp [Cache.without, MemoryLedger.remove]

/-- Forgetting a resource leaves the books in agreement. -/
theorem Accounted.without (h : cache.Accounted) {entry : CacheEntry}
    (he : cache.table.value[id]? = some entry) : (cache.without id entry).Accounted :=
  h.of_sameBesides (h.wellMade.without he) sameBesides_without accountedAt_without

/-- So does the end of a resource that was released before. -/
theorem Accounted.letGo (h : cache.Accounted) (id : ResourceId) : (cache.letGo id).Accounted := by
  rcases h.wellMade.letGo_eq id with he | ⟨hid, he⟩
  · rw [he]
    exact h.held _
  · refine h.of_sameBesides (h.wellMade.letGo id) (h.wellMade.sameBesides_letGo id) ?_
    rw [he]
    exact ⟨(h.each id).sound, fun name hd => ((DependencyMap.depends_clear.mp hd).1 rfl).elim,
      (h.each id).size⟩

/-! ### Work on shaders -/

/-- Loading a shader of the table enters its memory use into the ledger. -/
theorem accountedAt_loaded {shader : Shader} {books : Books} {file : SourceFile} {desk : Desk Shader}
    (hmem : id ∈ cache.table.value) (hid : shader.id = id) (hm : shader.context.memory = true)
    (hl : Shader.Loaded services file { item := shader, books } (.done ()) desk) :
    (cache.putShader id desk false).AccountedAt id := by
  cases hl with | loaded _ _ => ?_
  obtain ⟨entry, he⟩ := exists_entry_of_mem hmem
  constructor
  · intro entry' he'
    rw [table_putShader, if_pos rfl, he] at he'
    cases he'
    rfl
  · exact fun _ _ => mem_table_putShader.mpr hmem
  · rw [table_putShader, if_pos rfl, he, ← hid]
    exact Shader.sizes_renewed hm

/-- So does a first load over which nobody breaks down. -/
theorem Accounted.created (h : cache.Accounted) {key : ResourceKey} {ending : Ending ResourceId}
    (hc : Created services cache key ending t) (hcalm : ending.isUnwound = false) :
    t.Accounted := by
  have hw := hc.wellMade h.wellMade
  have hsame := hc.sameBesides h.wellMade
  cases hc with
  | refused => exact h
  | discarded outcome found => exact h.of_sameBesides hw hsame accountedAt_without
  | loaded _ outcome _ =>
    have hmem : cache.ids.next ∈ (cache.joined key).table.value :=
      mem_table_of_entry table_joined_self
    have hat := accountedAt_loaded hmem rfl h.wellMade.memory outcome
    exact h.of_sameBesides hw hsame ⟨hat.sound, hat.owner, hat.size⟩
  | brokenBefore => cases hcalm
  | brokenLoad => cases hcalm

/-- So does a reload of that kind. -/
theorem Accounted.reloaded (h : cache.Accounted) {ending : Ending Unit}
    (hr : Reloaded services cache id ending t) (hcalm : ending.isUnwound = false) :
    t.Accounted := by
  have hw := hr.wellMade h.wellMade
  have hsame := hr.sameBesides h.wellMade
  cases hr with
  | failed => exact h
  | loaded found sound _ outcome _ =>
    have hm := h.wellMade.entry_madeAs found sound
    have hmem : id ∈ (cache.replaceDependencies id []).table.value := mem_table_of_entry found
    have hmemory : _ = true := (congrArg Context.memory hm.context).trans h.wellMade.memory
    exact h.of_sameBesides hw hsame (accountedAt_loaded hmem hm.id hmemory outcome)
  | brokenBefore => cases hcalm
  | brokenBarred => cases hcalm
  | brokenLoad => cases hcalm

/-- So do reloads one after another. -/
theorem Accounted.reloadedEach {ids : List ResourceId}
    {ending : Ending (List (ResourceId × Except Error Unit))} (h : cache.Accounted)
    (hr : ReloadedEach services ids cache ending t) (hcalm : ending.isUnwound = false) :
    t.Accounted := by
  induction hr with
  | nil => exact h
  | ok first _ ih => exact ih (h.reloaded first rfl) rfl
  | error _ ih => exact ih h rfl
  | brokenFirst => cases hcalm
  | brokenLater => cases hcalm

/-- Work on a shader of the table keeps the books in agreement. -/
theorem Accounted.putShader (h : cache.Accounted) {shader : Shader} {desk : Desk Shader}
    {poisoned : Bool} (hmem : id ∈ cache.table.value)
    (hr : cache.resource? id = some { value := .shader shader, poisoned })
    (hc : Shader.Continues { item := shader, books := cache.books } desk)
    (hreported : Shader.Reported { item := shader, books := cache.books } desk) :
    (cache.putShader id desk poisoned).Accounted := by
  refine h.of_sameBesides (h.wellMade.continue hr hc poisoned)
    (h.wellMade.sameBesides_continue hr hc poisoned) ?_
  obtain ⟨entry, he⟩ := exists_entry_of_mem hmem
  have hentry : entry.resource = { value := .shader shader, poisoned } := by
    rw [resource?_of_entry he] at hr
    exact Option.some.inj hr
  have hm := h.wellMade.entry_madeAs he hentry
  constructor
  · intro entry' he'
    rw [table_putShader, if_pos rfl, he] at he'
    cases he'
    have hsound := (h.each id).sound entry he
    rwa [hentry] at hsound
  · exact fun _ _ => mem_table_putShader.mpr hmem
  · rw [table_putShader, if_pos rfl, he, books_putShader, ← hm.id]
    -- Either the ledger has the new figure, or the figure is the one that it had.
    rcases hreported with hsize | ⟨huse, hsize⟩
    · exact hsize
    · rw [hsize, hm.id, (h.each id).size, he]
      simp [hentry, Resource.memoryUse, huse]

/-- So does work on a released shader that leaves the books alone. -/
theorem Accounted.putDeparted (h : cache.Accounted) {shader : Shader} {desk : Desk Shader}
    {poisoned : Bool} (hmem : id ∉ cache.table.value)
    (hr : cache.resource? id = some { value := .shader shader, poisoned })
    (hc : Shader.Continues { item := shader, books := cache.books } desk)
    (hbooks : desk.books = cache.books) : (cache.putShader id desk poisoned).Accounted := by
  refine h.of_sameBesides (h.wellMade.continue hr hc poisoned)
    (h.wellMade.sameBesides_continue hr hc poisoned) ?_
  have hnone : cache.table.value[id]? = none := by simpa using hmem
  have hput : (cache.putShader id desk poisoned).table.value[id]? = none := by
    rw [table_putShader, if_pos rfl, hnone]
    rfl
  constructor
  · intro entry he
    rw [hput] at he
    cases he
  · intro name hd
    rw [books_putShader, hbooks] at hd
    exact mem_table_putShader.mpr ((h.each id).owner name hd)
  · rw [hput, books_putShader, hbooks, (h.each id).size, hnone]

end Cache

/-! ### Calls -/

/-- An operation that leaves the books to the cache and its shaders. -/
def CacheOp.LeavesBooks : CacheOp → Prop
  | onBooks _ => False
  | _ => True

/-- Work on a shader outside the table that enters it into the books. -/
def Call.Late (call : Call) (cache : Cache) : Prop :=
  ∃ id op shader, call.op = .onShader id op ∧ id ∉ cache.table.value ∧
    cache.resource? id = some { value := .shader shader } ∧ op.Publishes call.services shader

namespace Cache

variable {services : Services} {cache t : Cache} {id : ResourceId} {call : Call}

/-- **The step.**  A call keeps the books in agreement with the table, unless it is late. -/
theorem Accounted.next (h : cache.Accounted) (hop : call.op.LeavesBooks) (hcalm : call.Calm cache)
    (hlate : ¬ call.Late cache) : (call.next cache).Accounted := by
  have ha := answered_next h.wellMade call
  unfold Call.Calm at hcalm
  -- The cases are those of the answer, so the call has to be known by its operation alone.
  generalize hop' : call.op = op at ha hop
  generalize (call.outcome cache).ending = ending at ha hcalm
  generalize call.next cache = t at ha
  cases ha with
  | hit _ => exact h.held _
  | made created => exact (h.created created rfl).held _
  | unmade created _ => exact h.created created (by simpa using hcalm)
  | find held => exact h.held held
  | byId held => exact h.held held
  | reload reloaded => exact h.reloaded reloaded hcalm
  | fileChanged followed =>
    cases followed with
    | each reloaded => exact h.reloadedEach reloaded (by simpa using hcalm)
    | broken => exact h
  | released found _ => exact h.without found
  | unknown _ => exact h
  | letGo => exact h.letGo _
  | @worked id op shader _ desk found outcome =>
    obtain ⟨_, hm⟩ := h.wellMade.madeAs found
    have hmemory : shader.context.memory = true := by rw [hm.context, h.wellMade.memory]
    by_cases hmem : id ∈ cache.table.value
    · rw [hcalm]
      exact h.putShader hmem found outcome.continues (outcome.reported hmemory)
    · rw [hcalm]
      refine h.putDeparted hmem found outcome.continues (outcome.books_eq hcalm fun hp => ?_)
      exact hlate ⟨id, op, shader, hop', hmem, found, hp⟩
  | barred _ => exact h
  | @varied id _ _ _ _ _ _ found variations =>
    by_cases hmem : id ∈ cache.table.value
    · exact h.putShader hmem found (Shader.continues_putVariations variations)
        (.inr ⟨Shader.memoryUse_putVariations, rfl⟩)
    · exact h.putDeparted hmem found (Shader.continues_putVariations variations) rfl
  | unvaried _ => exact h
  | onBooks => exact hop.elim

/-- A late call leaves something in the books that does not belong there. -/
theorem late_next (h : cache.WellMade) (hcalm : call.Calm cache) (hlate : call.Late cache) :
    ∃ id, id ∉ (call.next cache).table.value ∧
      ((∃ name, (call.next cache).books.dependencies.Depends id name) ∨
        id ∈ (call.next cache).books.memory.sizes) := by
  obtain ⟨id, op, shader, hop, hmem, hr, hp⟩ := hlate
  have ha := answered_next h call
  unfold Call.Calm at hcalm
  rw [hop] at ha
  generalize (call.outcome cache).ending = ending at ha hcalm
  generalize call.next cache = t at ha
  refine ⟨id, ?_⟩
  cases ha with
  | @worked _ _ shader' _ desk found outcome =>
    rw [found] at hr
    cases hr
    obtain ⟨_, hm⟩ := h.madeAs found
    refine ⟨fun hin => hmem (mem_table_putShader.mp hin), ?_⟩
    rw [books_putShader, ← hm.id]
    exact outcome.published hcalm hp (by rw [hm.context, h.memory]) (by rw [hm.context, h.tracker])
  | barred poisoned => cases poisoned _ hr

/-! ### What a caller sees -/

/-- The books are in order: every resource with a dependency or a memory figure is in the cache, the
    figures add up to the memory use of the shaders of the cache, and a change of a file concerns
    resources of the cache only. -/
structure InOrder (cache : Cache) : Prop where
  dependencies : ∀ id name, cache.books.dependencies.Depends id name → id ∈ cache.table.value
  memory : ∀ id, id ∈ cache.books.memory.sizes → id ∈ cache.table.value
  total : cache.books.memory.total =
    cache.table.value.foldl (fun sum _ entry => sum + entry.resource.value.memoryUse) 0
  known : ∀ file services j outcomes,
    ((fileChanged file).run services cache j).ending = .done outcomes →
      ∀ outcome ∈ outcomes, outcome.1 ∈ cache.table.value

/-- The total of the ledger is the memory that the resources of the table use together. -/
theorem Accounted.total (h : cache.Accounted) : cache.books.memory.total =
    cache.table.value.foldl (fun sum _ entry => sum + entry.resource.value.memoryUse) 0 := by
  -- The ledger is the table with each entry replaced by its memory use.
  have hsizes : cache.books.memory.sizes =
      cache.table.value.map fun _ entry => entry.resource.value.memoryUse := by
    refine ExtTreeMap.ext_getElem? fun id => ?_
    rw [ExtTreeMap.getElem?_map, (h.each id).size]
  rw [MemoryLedger.total, hsizes, ExtTreeMap.foldl_eq_foldl_toList, ExtTreeMap.toList_map,
    List.foldl_map, ExtTreeMap.foldl_eq_foldl_toList]

/-- Each resource is named once for its outcome. -/
theorem ReloadedEach.ids_eq {ids : List ResourceId}
    {outcomes : List (ResourceId × Except Error Unit)}
    (h : ReloadedEach services ids cache (.done outcomes) t) : outcomes.map Prod.fst = ids := by
  induction ids generalizing cache outcomes with
  | nil =>
    cases h with
    | nil => rfl
  | cons id ids ih =>
    cases h with
    | ok _ rest => exact congrArg (id :: ·) (ih rest)
    | error rest => exact congrArg (id :: ·) (ih rest)

/-- A change of a file concerns resources of the table only, once all that the books name is in it. -/
theorem mem_table_of_affected (hd : ∀ id name, cache.books.dependencies.Depends id name →
    id ∈ cache.table.value) {file : String} (hid : id ∈ cache.affected file) :
    id ∈ cache.table.value := by
  rcases List.mem_append.mp hid with hl | hl
  · unfold loadedFrom at hl
    split at hl
    · rename_i table ht
      unfold Guarded.get? at ht
      split at ht
      · cases ht
      · cases ht
        exact ExtTreeMap.mem_of_mem_filter (ExtTreeMap.mem_keys.mp hl)
    · cases hl
  · exact hd id file (DependencyMap.mem_dependents.mp (List.mem_filter.mp hl).1)

/-- **A cache that is accounted for is in order**, as far as its callers can see. -/
theorem Accounted.inOrder (h : cache.Accounted) : cache.InOrder where
  dependencies := fun id => (h.each id).owner
  memory := by
    intro id hid
    rw [← ExtTreeMap.isSome_getElem?_iff_mem] at hid ⊢
    rwa [(h.each id).size, Option.isSome_map] at hid
  total := h.total
  known := by
    intro file services j outcomes hdone outcome ho
    have hf : Followed services cache file ((fileChanged file).run services cache j).ending
        ((fileChanged file).run services cache j).state := ensures_fileChanged h.wellMade file
    rw [hdone] at hf
    cases hf with
    | each reloaded =>
      have hid : outcome.1 ∈ cache.affected file := by
        rw [← reloaded.ids_eq]
        exact List.mem_map_of_mem ho
      exact mem_table_of_affected (fun id => (h.each id).owner) hid

/-! ### Runs -/

/-- The caches that a run of calls passes through, the first one included. -/
def states (cache : Cache) : List Call → List Cache
  | [] => [cache]
  | call :: calls => cache :: (call.next cache).states calls

/-- Each call of a run is as `p` says, at the cache where it is made. -/
def Along (p : Cache → Call → Prop) (cache : Cache) : List Call → Prop
  | [] => True
  | call :: calls => p cache call ∧ (call.next cache).Along p calls

/-- A call that leaves the books to the cache and its shaders, over which nobody breaks down. -/
def Ordinary (cache : Cache) (call : Call) : Prop := call.op.LeavesBooks ∧ call.Calm cache

/-- A run passes through the cache that it begins with. -/
theorem mem_states_self (cache : Cache) (calls : List Call) : cache ∈ cache.states calls := by
  cases calls <;> simp [states]

/-- Over ordinary calls, the books of such a cache stay in order exactly as long as no call is late. -/
theorem Accounted.inOrder_iff (h : cache.Accounted) (calls : List Call)
    (hrun : cache.Along Ordinary calls) :
    (∀ t ∈ cache.states calls, t.InOrder) ↔ cache.Along (fun t call => ¬ call.Late t) calls := by
  -- The books agree with the table up to the first late call, and so does every cache before it.
  induction calls generalizing cache with
  | nil => simpa [states, Along] using h.inOrder
  | cons call calls ih =>
    obtain ⟨⟨hop, hcalm⟩, hrest⟩ := hrun
    constructor
    · intro horder
      -- What a late call leaves behind would be seen in the cache right after it.
      have hlate : ¬ call.Late cache := by
        intro hlate
        obtain ⟨id, hmem, hbooks⟩ := late_next h.wellMade hcalm hlate
        have hnext := horder _ (List.mem_cons_of_mem _ (mem_states_self _ calls))
        rcases hbooks with ⟨name, hd⟩ | hm
        · exact hmem (hnext.dependencies id name hd)
        · exact hmem (hnext.memory id hm)
      exact ⟨hlate, (ih (h.next hop hcalm hlate) hrest).mp fun t ht =>
        horder t (List.mem_cons_of_mem _ ht)⟩
    · rintro ⟨hlate, hlater⟩ t ht
      rcases List.mem_cons.mp ht with rfl | ht
      · exact h.inOrder
      · exact (ih (h.next hop hcalm hlate) hrest).mpr hlater t ht

/-- **Released resources stay forgotten** as long as nobody enters them again, and no longer.  Take
    any run of calls of a cache of shaders, of its shaders and of their variations, over which nobody
    breaks down.  The books are in order at each moment exactly when no shader that has left the
    cache makes a variation or is loaded. -/
theorem books_in_order_iff {config : Config} {graphics : Bool} {fingerprint : String → Fingerprint}
    (calls : List Call) (hrun : (ofShaders config graphics fingerprint).Along Ordinary calls) :
    (∀ cache ∈ (ofShaders config graphics fingerprint).states calls, cache.InOrder) ↔
      (ofShaders config graphics fingerprint).Along (fun cache call => ¬ call.Late cache) calls :=
  (accounted_ofShaders config graphics fingerprint).inOrder_iff calls hrun

/-- A caller gets a shader over one file. -/
def getting : Call where
  op := .request { typeName := Shader.typeName, name := "a" }
  services := { files := (({} : MemoryStore).insert "a" "float x;".toUTF8).read }

/-- The shader is dropped from the cache. -/
def releasing : Call where
  op := .release (.slot 1 1)

/-- The caller goes on and asks it for a variation. -/
def goingOn : Call where
  op := .onShader (.slot 1 1) (.request .vertex "")

/-- A shader that makes a variation after its release is back in the books. -/
theorem books_in_order_iff_going_on :
    ¬ ∀ cache ∈ (ofShaders {} true fun _ => {}).states [getting, releasing, goingOn],
      cache.InOrder := by
  have hget : getting.Calm (ofShaders {} true fun _ => {}) := by
    unfold Call.Calm
    decide +kernel
  have hrelease : releasing.Calm (getting.next (ofShaders {} true fun _ => {})) := by
    unfold Call.Calm
    decide +kernel
  have hgo : goingOn.Calm (releasing.next (getting.next (ofShaders {} true fun _ => {}))) := by
    unfold Call.Calm
    decide +kernel
  have hgone : (.slot 1 1 : ResourceId) ∉
      (releasing.next (getting.next (ofShaders {} true fun _ => {}))).table.value := by
    decide +kernel
  -- The caller still holds the shader, which has no variation so far.
  have hheld : (((releasing.next (getting.next (ofShaders {} true fun _ => {}))).resource?
      (.slot 1 1)).map fun resource => (resource.poisoned, resource.value.shader?.map fun shader =>
        (shader.vertexVariations.find? (Defines.canonicalize "")).isNone)) =
      some (false, some true) := by
    decide +kernel
  obtain ⟨⟨value, poisoned⟩, hr, hvalue⟩ := Option.map_eq_some_iff.mp hheld
  obtain ⟨rfl, hshader⟩ := Prod.mk.inj hvalue
  obtain ⟨shader, hs, hfree⟩ := Option.map_eq_some_iff.mp hshader
  have hf := Option.isNone_iff_eq_none.mp hfree
  cases value with
  | document document => cases hs
  | shader found =>
    cases hs
    have hlate : goingOn.Late (releasing.next (getting.next (ofShaders {} true fun _ => {}))) :=
      ⟨.slot 1 1, .request .vertex "", shader, rfl, hgone, hr, hf⟩
    rw [books_in_order_iff [getting, releasing, goingOn]
      ⟨⟨trivial, hget⟩, ⟨trivial, hrelease⟩, ⟨trivial, hgo⟩, trivial⟩]
    exact fun h => h.2.2.1 hlate

end Cache

end ShaderKit
