import ShaderKit.Stage.Basic
import ShaderKit.Text.Replace

namespace ShaderKit

/-!
# Splitting a combined shader into its stages

One file holds the entry points of both stages. The text of a stage is the combined text in which
the other stage's entry point is put inside a block comment, so what both stages share stays active
in each.

* `vertexText` — a comment opens before the pixel entry point and closes at the end
* `pixelText`  — a comment opens before the vertex entry point and closes before the pixel entry point
* `split`      — both texts

In Glsl the entry point of the stage is renamed to `main`, and the pixel stage has no attributes.
-/

/-- The texts of the two stages. -/
structure StageSources where
  vertex : String := ""
  pixel : String := ""
  deriving DecidableEq, Repr

namespace StageSources

/-- The text of one stage. -/
def get (sources : StageSources) : Stage → String
  | .vertex => sources.vertex
  | .pixel => sources.pixel

/-- The length of both texts together, in bytes. -/
def size (sources : StageSources) : Nat :=
  sources.vertex.utf8ByteSize + sources.pixel.utf8ByteSize

end StageSources

namespace Split

open Text (replaceAll)

/-- The start of the vertex entry point in a combined text. -/
def vertexEntry : List Char := "void VS(".toList

/-- The start of the pixel entry point in a combined text. -/
def pixelEntry : List Char := "void PS(".toList

/-- The start of the renamed entry point in Glsl. -/
def mainEntry : List Char := "void main(".toList

/-- The qualifier of a vertex attribute in Glsl. -/
def attributeWord : List Char := "attribute ".toList

/-- Opens a block comment. -/
def opening : List Char := "/* ".toList

/-- Closes a block comment and the line. -/
def closing : List Char := "*/\n".toList

/-- The vertex stage of a combined text. -/
def vertexText (dialect : Dialect) (combined : List Char) : List Char :=
  let active := match dialect with
    | .glsl => replaceAll vertexEntry mainEntry combined
    | .hlsl => combined
  replaceAll pixelEntry (opening ++ pixelEntry) active ++ closing

/-- The pixel stage of a combined text. -/
def pixelText (dialect : Dialect) (combined : List Char) : List Char :=
  let (shared, entry) := match dialect with
    | .glsl => (replaceAll attributeWord ("// ".toList ++ attributeWord) combined, mainEntry)
    | .hlsl => (combined, pixelEntry)
  replaceAll pixelEntry (closing ++ entry) (replaceAll vertexEntry (opening ++ vertexEntry) shared)

end Split

/-- The texts of both stages of a combined text. -/
def split (dialect : Dialect) (combined : String) : StageSources where
  vertex := String.ofList (Split.vertexText dialect combined.toList)
  pixel := String.ofList (Split.pixelText dialect combined.toList)

end ShaderKit
