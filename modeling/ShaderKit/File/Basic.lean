import ShaderKit.Error
import ShaderKit.Text.Utf8

namespace ShaderKit

/-!
# Files and providers

* `SourceFile` — bytes under the logical name they were opened by
* `Provider`   — what opening each logical name gives
-/

/-- The bytes of a file, under the logical name by which it was opened. -/
structure SourceFile where
  name : String
  bytes : ByteArray

namespace SourceFile

/-- The file that holds a text. -/
def ofText (name text : String) : SourceFile := { name, bytes := text.toUTF8 }

/-- The number of bytes. -/
def size (file : SourceFile) : Nat := file.bytes.size

/-- The text of the file, if its bytes are the UTF-8 form of one. -/
def text (file : SourceFile) : Except Error String :=
  match Text.decodeUtf8 file.bytes with
  | .ok text => .ok text
  | .error fault => .error (.invalidSource file.name fault.message)

@[simp] theorem text_ofText (name text : String) : (ofText name text).text = .ok text := by
  simp [ofText, SourceFile.text]

end SourceFile

/-- What opening each logical name gives. -/
abbrev Provider := String → Except Error SourceFile

end ShaderKit
