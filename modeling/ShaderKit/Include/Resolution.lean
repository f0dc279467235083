import ShaderKit.Action.Basic
import ShaderKit.Include.Expansion
import ShaderKit.Resource.DependencyMap

namespace ShaderKit.Include

/-!
# Resolving includes for an owner

The owner of an expansion has to be reloaded when any file of it changes. So each file that is read
becomes a dependency of the owner, its own file apart, at the moment it is read: an expansion that
fails has registered what it had read until then.
-/

/-- The component that speaks in the log. -/
def source : String := "galaxy3d::IncludeResolver"

/-- Carries out one step of an expansion for an owner and its own file. -/
def perform (owner : ResourceId) (ownerName : String) : Step → Action DependencyMap Unit
  | .entered name => unless name = ownerName do modify (·.register owner name)
  | .followed includer name => .say .trace source s!"'{includer}' includes '{name}'"

/-- Expands a file for an owner: the text, with every file that was read registered for the owner. -/
def resolveFor (owner : ResourceId) (ownerName : String) (limit : Nat) (file : SourceFile) :
    Action DependencyMap String := do
  let expansion := flatten (← read).files limit file
  expansion.steps.forM (perform owner ownerName)
  match expansion.text with
  | .ok text => pure text
  | .error error => .report source error

end ShaderKit.Include
