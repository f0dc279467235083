import ShaderKit.Proofs.Loading
import ShaderKit.Workspace

namespace ShaderKit

open ShaderKit.Action

/-!
# Calls of a cache

Whoever works with a cache calls it in any order, with collaborators that answer differently each
time, and goes on after errors and breakdowns.

* `Cache.onShader`, `Cache.onVariation` — actions on what callers got from a cache
* `CacheOp` — what can be asked of a cache, of its shaders, of their variations and of its books
* `Call`    — an operation with the collaborators it meets
* `Cache.Reached` — the caches that a run of calls leads to
-/

/-! ### Shaders of a cache -/

namespace Cache

variable {cache : Cache} {id : ResourceId} {α : Type}

/-- Runs an action on a shader that the cache has made, under its guard.  With a poisoned guard
    nothing happens. -/
def onShader (id : ResourceId) (act : Action (Desk Shader) α) : Action Cache (Option α) := do
  return (← (Desk.hold (Resource.onShader act)).focus?
    (fun cache => do
      let item ← cache.resource? id
      if item.poisoned then none else some { item, books := cache.books })
    fun cache desk => { cache.putResource id desk.item with books := desk.books }).join

/-- A variation of a shader that the cache has made. -/
def variation? (cache : Cache) (id : ResourceId) (stage : Stage) (i : Nat) : Option Variation := do
  let shader ← (← cache.resource? id).value.shader?
  (shader.variations stage).variations[i]?

/-- Replaces a variation of a shader that the cache has made. -/
def putVariation (cache : Cache) (id : ResourceId) (stage : Stage) (i : Nat) (v : Variation) :
    Cache :=
  match cache.resource? id with
  | some { value := .shader shader, poisoned } =>
    let variations := (shader.variations stage).replace i v
    cache.putResource id { value := .shader (shader.putVariations stage variations), poisoned }
  | _ => cache

/-- Runs an action on a variation of a shader that the cache has made. -/
def onVariation (id : ResourceId) (stage : Stage) (i : Nat) (act : Action Variation α) :
    Action Cache (Option α) :=
  act.focus? (·.variation? id stage i) (·.putVariation id stage i)

end Cache

namespace Workspace

variable {id : ResourceId} {α : Type}

/-- In a workspace, an action on a shader of the cache is an action on the cache. -/
theorem onShader_cached (act : Action (Desk Shader) α) :
    onShader (.cached id) act = Option.join <$> onCache (Cache.onShader id act) := by
  refine ext_ensures fun services post w j h => ?_
  rw [ensures_map, onCache] at h
  rw [onShader, ensures_bind, onResource]
  rcases w with ⟨files, _ | cache, books, shaders, variationCaches, variations⟩
  · exact h
  rw [ensures_focus?_some (by rfl), Cache.onShader, ensures_bind] at h
  -- Both look the shader up, and both do nothing if it is not there or its guard is poisoned.
  cases hr : cache.resource? id with
  | none =>
    rw [ensures_focus?_none (by simp [hr])] at h
    rw [ensures_focus?_none (by simp [resource?, hr])]
    exact h
  | some item =>
    by_cases hp : item.poisoned = true
    · rw [ensures_focus?_none (by simp [hr, hp])] at h
      rw [ensures_focus?_none (by simp [resource?, hr, hp])]
      exact h
    · rw [ensures_focus?_some (by simp [hr, hp]; rfl)] at h
      rw [ensures_focus?_some (by simp [resource?, hr, hp]; rfl)]
      refine Ensures.mono h fun ending t j' ht => ?_
      cases ending <;> exact ht

/-- In a workspace, an action on a variation of a shader of the cache is an action on the cache. -/
theorem onVariation_cached (stage : Stage) (i : Nat) (act : Action Variation α) :
    onVariation (.ofShader (.cached id) stage i) act =
      Option.join <$> onCache (Cache.onVariation id stage i act) := by
  refine ext_ensures fun services post w j h => ?_
  rw [ensures_map, onCache] at h
  rw [onVariation]
  rcases w with ⟨files, _ | cache, books, shaders, variationCaches, variations⟩
  · exact h
  rw [ensures_focus?_some (by rfl), Cache.onVariation] at h
  cases hv : cache.variation? id stage i with
  | none =>
    rw [ensures_focus?_none (by exact hv)] at h
    rw [ensures_focus?_none (by exact hv)]
    exact h
  | some v =>
    rw [ensures_focus?_some (by exact hv)] at h
    rw [ensures_focus?_some (by exact hv)]
    refine Ensures.mono h fun ending t j' ht => ?_
    have hput : putVariation ⟨files, some cache, books, shaders, variationCaches, variations⟩
        (.ofShader (.cached id) stage i) t =
        ⟨files, some (cache.putVariation id stage i t), books, shaders, variationCaches,
          variations⟩ := by
      simp only [putVariation, Cache.putVariation, resource?, Option.bind_some]
      rcases cache.resource? id with _ | ⟨shader | document, poisoned⟩ <;> rfl
    rw [hput]
    cases ending <;> exact ht

end Workspace

/-! ### Operations -/

/-- What can be asked of a shader. -/
inductive ShaderOp where
  | request (stage : Stage) (defines : String)
  | prepare (stage : Stage) (defines : String)
  | load (file : SourceFile)

/-- Carries out what a shader is asked for. -/
def ShaderOp.act : ShaderOp → Action (Desk Shader) Unit
  | request stage defines => discard (Shader.request stage defines)
  | prepare stage defines => discard (Shader.prepare stage defines)
  | load file => Shader.load file

/-- What can be asked of a variation. -/
inductive VariationOp where
  | compile (text : String) (dialect : Dialect)
  | release

/-- Carries out what a variation is asked for. -/
def VariationOp.act : VariationOp → Action Variation Unit
  | compile text dialect => discard (Variation.compile text dialect)
  | release => modify Variation.release

/-- What can be asked of a cache and of what it has handed out. -/
inductive CacheOp where
  /-- A caller takes hold of a resource, which is made and loaded on the first request. -/
  | request (key : ResourceKey)
  /-- A caller takes hold of a loaded resource. -/
  | find (key : ResourceKey)
  /-- A caller takes hold of a resource of the table by its id. -/
  | byId (id : ResourceId)
  | reload (id : ResourceId)
  | fileChanged (file : String)
  | release (id : ResourceId)
  /-- A caller lets go of a resource. -/
  | letGo (id : ResourceId)
  | onShader (id : ResourceId) (op : ShaderOp)
  | onVariation (id : ResourceId) (stage : Stage) (i : Nat) (op : VariationOp)
  /-- Somebody writes into the books that a cache shares with others. -/
  | onBooks (op : BooksOp)

/-- Carries out what a cache is asked for. -/
def CacheOp.act : CacheOp → Action Cache Unit
  | request key => do
    let id ← Cache.request key
    modify (·.hold id)
  | find key => modify fun cache => (cache.find? key).elim cache cache.hold
  | byId id => modify fun cache => match cache.entry? id with
    | some _ => cache.hold id
    | none => cache
  | reload id => Cache.reload id
  | fileChanged file => discard (Cache.fileChanged file)
  | release id => discard (Cache.release id)
  | letGo id => modify (·.letGo id)
  | onShader id op => discard (Cache.onShader id op.act)
  | onVariation id stage i op => discard (Cache.onVariation id stage i op.act)
  | onBooks op => modify fun cache => { cache with books := op.change cache.books }

/-! ### Runs -/

/-- An operation with the collaborators that it meets and the journal that it continues. -/
structure Call where
  op : CacheOp
  services : Services := {}
  journal : Journal := {}

namespace Call

/-- How a call of a cache ends. -/
def outcome (call : Call) (cache : Cache) : Outcome Cache Unit :=
  call.op.act.run call.services cache call.journal

/-- The cache after a call. -/
def next (call : Call) (cache : Cache) : Cache := (call.outcome cache).state

/-- No collaborator breaks down over the call. -/
def Calm (call : Call) (cache : Cache) : Prop := (call.outcome cache).ending.isUnwound = false

end Call

/-- The caches that a run of allowed calls leads to. -/
inductive Cache.Reached (allowed : Cache → Call → Prop) (start : Cache) : Cache → Prop where
  | start : Reached allowed start start
  | call {cache : Cache} (before : Reached allowed start cache) (call : Call)
    (ok : allowed cache call) : Reached allowed start (call.next cache)

/-- An empty cache that makes shaders and nothing else, as it is before the first call. -/
def Cache.ofShaders (config : Config) (graphics : Bool) (fingerprint : String → Fingerprint) :
    Cache :=
  ({ context := { config, graphics, fingerprint } } : Cache).register Shader.typeName Shader.factory

end ShaderKit
