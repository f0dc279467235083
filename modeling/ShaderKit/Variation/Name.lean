import ShaderKit.File.Path

namespace ShaderKit

/-!
# Display names of variations

The name of a variation is the name of its shader without the extension, and the defines behind an
underscore, with underscores for spaces.
-/

/-- The display name of the variation of the shader `owner` for canonical `defines`. -/
def variationName (owner defines : String) : String :=
  if defines.isEmpty then Path.stemOf owner
  else
    let joined := defines.toList.map fun c => if c = ' ' then '_' else c
    Path.stemOf owner ++ "_" ++ String.ofList joined

example : variationName "Shaders/Basic.glsl" "LIGHT FOG" = "Shaders/Basic_LIGHT_FOG" := by
  decide +kernel

end ShaderKit
