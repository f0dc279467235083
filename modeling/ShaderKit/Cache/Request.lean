import ShaderKit.Cache.Basic

namespace ShaderKit.Cache

/-!
# Requesting resources

* `make`    — makes a resource and adds it to the table
* `request` — the id of a resource, which is made and loaded on the first request

A resource whose first load fails is discarded as if it had never been made. If a collaborator
breaks down instead, what was done until then stays: a factory leaves the table poisoned and whatever it has
written into the books, a load leaves an entry that no look-up finds.
-/

/-- Adds a resource to the table, under the next id. -/
def insert (cache : Cache) (key : ResourceKey) (resource : Resource) : Cache :=
  { cache with
    ids := cache.ids.take
    table := cache.table.put
      (cache.table.value.insert cache.ids.next { key, resource := { value := resource } }) }

/-- Makes a resource and adds it to the table, whose guard the factory runs under. -/
def make (key : ResourceKey) : Action Cache ResourceId := do
  let cache ← get
  let some factory := cache.factories[key.typeName]?
    | .report source (.unknownResourceType key.typeName)
  if cache.table.poisoned then
    Action.report source (.invalidResource "ResourceCache resource table lock poisoned")
  let id := cache.ids.next
  match factory id key.name cache.context with
  | .ok resource entries =>
    set ((cache.enter entries).insert key resource)
    pure id
  | .error reason entries =>
    set { cache.enter entries with table := cache.table.poison }
    .unwind reason

/-- Discards a resource after its first load has failed. -/
def discardFailed (key : ResourceKey) (id : ResourceId) : Action Cache Unit := do
  .say .warn source s!"Discarding {key.typeName} '{key.name}' after failed load"
  modify (·.dropped id)

/-- Makes and loads a resource. -/
def create (key : ResourceKey) : Action Cache ResourceId := do
  unless (← get).hasFactory key.typeName do
    Action.report source (.unknownResourceType key.typeName)
  let file ← match (← read).files key.name with
    | .ok file => pure file
    | .error error => .report source error
  let id ← make key
  try
    loadResource id file
  catch error =>
    discardFailed key id
    throw error
  modify fun cache => { cache with lookup := cache.lookup.insert key id }
  .say .info source s!"Loaded {key.typeName} '{key.name}'"
  return id

/-- The id of a resource, which is made and loaded on the first request. -/
def request (key : ResourceKey) : Action Cache ResourceId := do
  match (← get).find? key with
  | some id => pure id
  | none => create key

end ShaderKit.Cache
