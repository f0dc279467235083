import ShaderKit.Resource.Basic

namespace ShaderKit

/-!
# The resource cache

A `Cache` makes resources by type and name, loads them, and finds them again. It owns the books of
the resources that it makes, and hands a context to each of them.

* `Cache`          — factories, the table of resources, the look-up by type and name, the books
* `find?`, `idOf?` — look-ups
* `onResource`     — runs an action on a resource, in the cache or gone from it
* `release`        — drops a resource from the cache
* `loadResource`   — loads a resource of the table from a file

Callers name a resource by the id that the cache gave it, also when it has left the cache. A
resource that is neither in the table nor held by a caller is retired.

The table is guarded, and so is each resource. A factory that breaks down poisons the table, a load
that unwinds poisons its resource.

A resource may call the cache back while it is loaded. Of all calls that it could make, only releases are
followed here.
-/

open Std (ExtTreeMap ExtTreeSet TransCmp LawfulEqCmp)

/-- The type and the name under which a resource is looked up. -/
structure ResourceKey where
  typeName : String
  name : String
  deriving DecidableEq, Repr

namespace ResourceKey

instance : Ord ResourceKey where
  compare := compareLex (compareOn typeName) (compareOn name)

instance : TransCmp (compare : ResourceKey → ResourceKey → Ordering) :=
  inferInstanceAs (TransCmp (compareLex (compareOn typeName) (compareOn name)))

instance : LawfulEqCmp (compare : ResourceKey → ResourceKey → Ordering) where
  eq_of_compare {a b} h := by
    obtain ⟨ht, hn⟩ := compareLex_eq_eq.mp h
    cases a
    cases b
    exact congr (congrArg _ (LawfulEqCmp.eq_of_compare ht)) (LawfulEqCmp.eq_of_compare hn)

end ResourceKey

/-- A resource in the table, with the type and the name it was made for. -/
structure CacheEntry where
  key : ResourceKey
  resource : Guarded Resource

/-- The table of a cache. -/
abbrev Table := ExtTreeMap ResourceId CacheEntry

/-- A cache of resources. -/
structure Cache where
  /-- The context of the resources that the cache makes. -/
  context : Context := {}
  factories : ExtTreeMap String Factory := ∅
  ids : IdSource := {}
  table : Guarded Table := { value := ∅ }
  /-- The resources that were loaded, by type and name. -/
  lookup : ExtTreeMap ResourceKey ResourceId := ∅
  /-- The resources that callers hold. -/
  held : ExtTreeSet ResourceId := ∅
  /-- The resources that have left the table. -/
  departed : ExtTreeMap ResourceId (Guarded Resource) := ∅
  books : Books := {}

namespace Cache

/-- The component that speaks in the log. -/
def source : String := "galaxy3d::ResourceCache"

/-! ### Looking up -/

/-- Makes a factory the one for its type. -/
def register (cache : Cache) (typeName : String) (factory : Factory) : Cache :=
  { cache with factories := cache.factories.insert typeName factory }

/-- Whether there is a factory for a type. -/
def hasFactory (cache : Cache) (typeName : String) : Bool := cache.factories.contains typeName

/-- The entry of an id. Behind a poisoned guard there is none. -/
def entry? (cache : Cache) (id : ResourceId) : Option CacheEntry := do
  (← cache.table.get?)[id]?

/-- The id of a loaded resource. -/
def idOf? (cache : Cache) (key : ResourceKey) : Option ResourceId := cache.lookup[key]?

/-- The id of a loaded resource that is in the table. -/
def find? (cache : Cache) (key : ResourceKey) : Option ResourceId := do
  let id ← cache.idOf? key
  let _ ← cache.entry? id
  return id

/-- The number of resources in the table. -/
def size (cache : Cache) : Nat := (cache.table.get?.map ExtTreeMap.size).getD 0

/-! ### Resources -/

/-- A resource that the cache has made, in the table or gone from it. -/
def resource? (cache : Cache) (id : ResourceId) : Option (Guarded Resource) :=
  match cache.table.value[id]? with
  | some entry => some entry.resource
  | none => cache.departed[id]?

/-- Replaces a resource. -/
def putResource (cache : Cache) (id : ResourceId) (resource : Guarded Resource) : Cache :=
  match cache.table.value[id]? with
  | some entry =>
    { cache with table := cache.table.put (cache.table.value.insert id { entry with resource }) }
  | none => { cache with departed := cache.departed.insert id resource }

/-- Marks a resource as broken. -/
def poisonResource (cache : Cache) (id : ResourceId) : Cache :=
  match cache.resource? id with
  | some resource => cache.putResource id resource.poison
  | none => cache

/-- Runs an action on a resource, in the table or gone from it, with the books beside it. -/
def onResource {α : Type} (id : ResourceId) (act : Action (Desk (Guarded Resource)) α) :
    Action Cache (Option α) :=
  act.focus?
    (fun cache => (cache.resource? id).map fun item => { item, books := cache.books })
    fun cache desk => { cache.putResource id desk.item with books := desk.books }

/-- Runs an action on the books alone. -/
def onBooks {α : Type} (act : Action Books α) : Action Cache α :=
  act.focus Cache.books fun cache books => { cache with books }

/-- Writes entries into the books. -/
def enter (cache : Cache) (entries : List BooksOp) : Cache :=
  { cache with books := cache.books.enter entries }

/-! ### Holding and letting go -/

/-- A caller holds a resource. -/
def hold (cache : Cache) (id : ResourceId) : Cache := { cache with held := cache.held.insert id }

/-- Ends the life of a resource that is neither in the table nor held. -/
def retireUnused (cache : Cache) (id : ResourceId) : Cache :=
  if cache.table.value.contains id || cache.held.contains id then cache
  else match cache.departed[id]? with
  | some resource => { cache with books := resource.value.retire cache.books }
  | none => cache

/-- The caller lets go of a resource. -/
def letGo (cache : Cache) (id : ResourceId) : Cache :=
  { cache with held := cache.held.erase id }.retireUnused id

/-- Takes a resource out of the table and forgets its name, its dependencies and its memory use. -/
def forget (cache : Cache) (id : ResourceId) : Option (CacheEntry × Cache) := do
  let entry ← cache.entry? id
  let cache := { cache with
    ids := cache.ids.release id
    table := cache.table.put (cache.table.value.erase id)
    lookup := cache.lookup.filter fun _ other => other != id
    departed := cache.departed.insert id entry.resource
    books :=
      { dependencies := cache.books.dependencies.clear id
        memory := cache.books.memory.remove id } }
  return (entry, cache.retireUnused id)

/-- The cache after it has forgotten a resource, if it was in the table. -/
def dropped (cache : Cache) (id : ResourceId) : Cache := (cache.forget id).elim cache (·.2)

/-- Drops a resource from the cache and forgets its dependencies and its memory use: whether the id
    was known. Callers that hold the resource may go on using it. -/
def release (id : ResourceId) : Action Cache Bool := do
  match (← get).forget id with
  | none => pure false
  | some (entry, cache) =>
    set cache
    .say .debug source s!"Released {entry.key.typeName} '{entry.key.name}'"
    pure true

/-! ### Loading -/

/-- What a resource does to the cache over a load from a file: it releases others, or itself, under its own
    guard. Behind a poisoned guard it does nothing. -/
def callBack (id : ResourceId) (file : SourceFile) : Action Cache Unit := do
  let some { value, poisoned := false } := (← get).resource? id
    | pure ()
  ((value.releases file).forM fun other => discard (release other)).onUnwind (·.poisonResource id)

/-- Loads a resource from a file, under its guard. -/
def loadGuarded (id : ResourceId) (file : SourceFile) : Action Cache Unit :=
  discard <| onResource id do
    if (← get).item.poisoned then
      Action.report source (.invalidResource "ResourceCache resource lock poisoned")
    Desk.hold (Resource.load file)

/-- Loads a resource of the table from a file. -/
def loadResource (id : ResourceId) (file : SourceFile) : Action Cache Unit := do
  callBack id file
  loadGuarded id file

end Cache

end ShaderKit
