import ShaderKit.Guarded

namespace ShaderKit

/-!
# The engine

The engine holds the one resource cache that a program shares, and the logger. It has to be started
before it can hold a cache.

* `Engine.start`, `Engine.shutdown`
* `Engine.createCache`, `Engine.cache`, `Engine.destroyCache`

The engine never looks into a cache, so it may be any type `κ`. The cell of the cache is guarded for
writing: a logger that breaks down while the cell is changed poisons it. A reader leaves no mark.
-/

/-- The shared state of a program. -/
structure Engine (κ : Type) where
  started : Bool := false
  cell : Guarded (Option κ) := { value := none }
  logger : Logger := .console {} ""

namespace Engine

variable {κ α : Type}

/-- The component that speaks in the log. -/
def source : String := "galaxy3d::Engine"

/-- Makes the engine ready to hold a cache. Doing so again changes nothing. -/
def start (engine : Engine κ) : Engine κ := { engine with started := true }

/-- Drops the cache, if there is one. The logger stays, and a poisoned cell is left alone. -/
def shutdown (engine : Engine κ) : Engine κ :=
  if engine.started && !engine.cell.poisoned then
    { engine with cell := engine.cell.put none }
  else engine

/-- Replaces the logger. -/
def setLogger (engine : Engine κ) (logger : Logger) : Engine κ := { engine with logger }

/-- Goes back to a console that prints everything. -/
def resetLogger (engine : Engine κ) (time : String) : Engine κ :=
  engine.setLogger (.console {} time)

/-- Fails unless the engine is started and the cell of the cache is sound. -/
def requireCell : Action (Engine κ) Unit := do
  let engine ← get
  unless engine.started do
    Action.report source
      (.missingSubsystem "Engine not initialized. Call Engine::initialize() first.")
  if engine.cell.poisoned then
    Action.report source (.invalidResource "ResourceCache lock poisoned")

/-- Runs an action on the cell, under its guard. -/
def holdCell (act : Action (Option κ) α) : Action (Engine κ) α :=
  (Guarded.hold act).focus Engine.cell fun engine cell => { engine with cell }

/-- Shares a cache, unless there is one already. -/
def createCache (cache : κ) : Action (Engine κ) κ := do
  requireCell
  holdCell do
    if (← get).isSome then
      Action.report source (.invalidResource
        "ResourceCache already exists. Call Engine::destroy_resource_cache() first.")
    set (some cache)
    .say .info source "ResourceCache singleton created successfully"
    pure cache

/-- The shared cache. -/
def cache : Action (Engine κ) κ := do
  requireCell
  match (← get).cell.value with
  | some cache => pure cache
  | none =>
    .report source (.missingSubsystem
      "ResourceCache not created. Call Engine::create_resource_cache() first.")

/-- Drops the shared cache. Whoever holds it may go on using it. -/
def destroyCache : Action (Engine κ) Unit := do
  requireCell
  holdCell do
    set (none : Option κ)
    .say .info source "ResourceCache singleton destroyed"

end Engine

end ShaderKit
