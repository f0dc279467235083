import ShaderKit.Include.Resolution
import ShaderKit.Shader.Context
import ShaderKit.Stage.Split
import ShaderKit.Variation.Cache

namespace ShaderKit

/-!
# Shaders

A shader is loaded from one file that describes both stages. It keeps the texts of the stages and,
for each stage, the variations that were asked for. Loading releases the variations but keeps them,
so whoever holds one sees it go stale; nothing is compiled before it is needed.

* `Shader.load`     — expands a file, splits it and takes over the texts
* `Shader.request`  — the variation for a define string
* `Shader.prepare`  — the same, compiled
* `Shader.retire`   — what the end of a shader does to the books

Each action works on a `Desk`: the shader with the books beside it.
-/

/-- A shader with its variations. -/
structure Shader where
  id : ResourceId
  name : String
  context : Context
  sources : StageSources := {}
  vertexVariations : VariationCache
  pixelVariations : VariationCache
  /-- The memory use, as last worked out. -/
  memoryUse : Nat

namespace Shader

/-- The component that speaks in the log. -/
def source : String := "galaxy3d::Shader"

/-- The type under which shaders are made by a cache. -/
def typeName : String := "Shader"

/-- The memory that a shader takes without its texts and variations, in bytes. -/
def baseSize : Nat := 192

/-- The memory that a variation takes, in bytes. -/
def variationSize : Nat := 96

/-- A shader that has not been loaded. -/
def unloaded (id : ResourceId) (name : String) (context : Context) : Shader where
  id
  name
  context
  vertexVariations := { stage := .vertex, fingerprint := context.fingerprint }
  pixelVariations := { stage := .pixel, fingerprint := context.fingerprint }
  memoryUse := baseSize

/-- The variations of a stage. -/
def variations (shader : Shader) : Stage → VariationCache
  | .vertex => shader.vertexVariations
  | .pixel => shader.pixelVariations

/-- Replaces the variations of a stage. -/
def putVariations (shader : Shader) (stage : Stage) (cache : VariationCache) : Shader :=
  match stage with
  | .vertex => { shader with vertexVariations := cache }
  | .pixel => { shader with pixelVariations := cache }

/-- The number of variations in both stages. -/
def variationCount (shader : Shader) : Nat :=
  shader.vertexVariations.size + shader.pixelVariations.size

/-- The memory that a shader takes with its texts and variations, in bytes. -/
def measure (shader : Shader) : Nat :=
  baseSize + shader.sources.size + shader.variationCount * variationSize

/-- Takes over the texts of the stages: every variation is released, and the memory use is worked
    out anew. -/
def takeOver (shader : Shader) (sources : StageSources) : Shader :=
  let renewed := { shader with
    sources
    vertexVariations := shader.vertexVariations.releaseAll
    pixelVariations := shader.pixelVariations.releaseAll }
  { renewed with memoryUse := renewed.measure }

/-- What the end of a shader does to the books: its dependencies are forgotten. -/
def retire (shader : Shader) (books : Books) : Books :=
  if shader.context.dependencies then shader.context.tracker.map (·.clear shader.id) books else books

/-! ### Actions -/

/-- Runs an action on the shader alone. -/
def alone {α : Type} (act : Action Shader α) : Action (Desk Shader) α :=
  act.focus Desk.item fun desk item => { desk with item }

/-- Runs an action on the dependencies alone, where the shader keeps them. -/
def onDependencies {α : Type} (act : Action DependencyMap α) : Action (Desk Shader) α :=
  act.focus (fun desk => desk.item.context.tracker.dependencies desk.books) fun desk dependencies =>
    { desk with books := desk.item.context.tracker.keep dependencies desk.books }

/-- Runs an action on a variation, if it exists. -/
def onVariation {α : Type} (stage : Stage) (i : Nat) (act : Action Variation α) :
    Action Shader (Option α) :=
  (VariationCache.onVariation i act).focus (·.variations stage) (·.putVariations stage)

/-- Enters the memory use into the ledger, if the shader was given one. -/
def reportMemory : Action (Desk Shader) Unit :=
  modify fun desk =>
    if desk.item.context.memory then
      { desk with books := desk.books.mapMemory (·.report desk.item.id desk.item.memoryUse) }
    else desk

/-- Fails unless the shader was given a graphics subsystem that is there. -/
def requireGraphics : Action (Desk Shader) Unit := do
  if (← get).item.context.graphics then
    match (← read).backend.availability with
    | .available => pure ()
    | .unavailable => .report source .graphicsUnavailable
    | .broken reason => .unwind reason
  else .report source .graphicsUnavailable

/-- The place of the variation of a stage for a define string, which is made if it is missing.
    Making it does not compile it. -/
def request (stage : Stage) (defines : String) : Action (Desk Shader) Nat := do
  let shader := (← get).item
  let canonical := Defines.canonicalize defines
  let cache := shader.variations stage
  match cache.find? canonical with
  | some i => pure i
  | none =>
    let v := cache.fresh shader.id shader.name canonical
    alone (modify (·.putVariations stage (cache.push v)))
    .say .trace source s!"Created {stage.label} variation '{v.name}'"
    alone (modify fun shader => { shader with memoryUse := shader.memoryUse + variationSize })
    reportMemory
    pure cache.size

/-- The place of the variation of a stage for a define string, compiled from the current text of the
    stage. -/
def prepare (stage : Stage) (defines : String) : Action (Desk Shader) Nat := do
  let i ← request stage defines
  match ← alone (onVariation stage i Variation.observe) with
  | some (.compiled _) => pure i
  | _ =>
    requireGraphics
    let shader := (← get).item
    let _ ← alone (onVariation stage i
      (Variation.compile (shader.sources.get stage) shader.context.config.dialect))
    pure i

/-- Loads the shader from a file. An error leaves texts and variations as they were; the files read
    until then are dependencies all the same. -/
def load (file : SourceFile) : Action (Desk Shader) Unit := do
  let shader := (← get).item
  requireGraphics
  unless shader.context.files do
    Action.report source (.missingSubsystem "FileProvider")
  unless shader.context.dependencies do
    Action.report source (.missingSubsystem "DependencyTracker")
  let config := shader.context.config
  let code ← onDependencies
    (Include.resolveFor shader.id shader.name config.maxIncludeDepth file)
  alone (modify (·.takeOver (split config.dialect code)))
  reportMemory
  let loaded := (← get).item
  .say .debug source
    s!"Loaded '{loaded.name}' ({loaded.memoryUse} bytes, {loaded.variationCount} variations)"

end Shader

end ShaderKit
