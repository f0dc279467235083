namespace ShaderKit

/-!
# Stages and dialects

* `Stage`   — the two programs that one shader file describes
* `Dialect` — the shading language, which fixes the names of the entry points
-/

/-- A stage of the graphics pipeline. -/
inductive Stage where
  | vertex
  | pixel
  deriving DecidableEq, Repr

namespace Stage

/-- Both stages, in pipeline order. -/
def all : List Stage := [vertex, pixel]

/-- The short form used in messages. -/
def label : Stage → String
  | vertex => "VS"
  | pixel => "PS"

/-- The name of the stage. -/
def name : Stage → String
  | vertex => "Vertex"
  | pixel => "Pixel"

theorem mem_all (stage : Stage) : stage ∈ all := by
  cases stage <;> decide

end Stage

/-- A shading language. -/
inductive Dialect where
  | glsl
  | hlsl
  deriving DecidableEq, Repr

namespace Dialect

/-- The name of the dialect. -/
def name : Dialect → String
  | glsl => "Glsl"
  | hlsl => "Hlsl"

/-- The function at which a stage starts: Glsl calls it `main` in either stage. -/
def entryPoint : Dialect → Stage → String
  | glsl, _ => "main"
  | hlsl, .vertex => "VS"
  | hlsl, .pixel => "PS"

end Dialect

end ShaderKit
