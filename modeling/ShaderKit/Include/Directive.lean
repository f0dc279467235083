import ShaderKit.Text.Blank

namespace ShaderKit.Include

/-!
# Include directives

A line that begins with the word `#include` names another file. The name may stand in quotes, in
angle brackets or bare, and may have white space around it and around its decoration.

* `directive?` — the name in a directive line, or `none` for any other line
-/

open Text (isBlank trimBy)

/-- The word that begins a directive line. -/
def keyword : List Char := "#include".toList

/-- The characters that decorate the name in a directive. -/
def isDecoration (c : Char) : Bool := c == '"' || c == '<' || c == '>'

/-- Whether the word of a directive may end before this character: `#included` is another word. -/
def endsKeyword (c : Char) : Bool := isBlank c || c == '"' || c == '<'

/-- The name behind the keyword, without white space and decoration. -/
def target (rest : List Char) : List Char :=
  trimBy isBlank (trimBy isDecoration (trimBy isBlank rest))

/-- The name in a directive line. -/
def directive? (line : List Char) : Option (List Char) :=
  if keyword.isPrefixOf line then
    let rest := line.drop keyword.length
    if rest.head?.all endsKeyword then some (target rest) else none
  else none

/-- The name in a directive line. -/
def directiveOf? (line : String) : Option String :=
  (directive? line.toList).map String.ofList

example : directiveOf? "#include <Common.hlsl>  // x" = some "Common.hlsl>  // x" := by decide +kernel

example : directiveOf? "#included" = none := by decide +kernel

end ShaderKit.Include
