import ShaderKit.Text.Blank

namespace ShaderKit.Defines

/-!
# Define strings

A define string selects a specialization of a shader: define names set apart by spaces.

* `tokens`    — the names, in order
* `canonical` — the spelling under which a variation is kept: no space at either end, one space
                between two names

Only the plain space separates. A tab or any other white space is part of a name, and neither the
order of the names nor a repetition is touched.
-/

/-- The words of a text whose current word has been read, backwards, as far as `word`. -/
def tokensFrom (word : List Char) : List Char → List (List Char)
  | [] => if word.isEmpty then [] else [word.reverse]
  | ' ' :: s => if word.isEmpty then tokensFrom [] s else word.reverse :: tokensFrom [] s
  | c :: s => tokensFrom (c :: word) s

/-- The define names of a text, in order. -/
def tokens (s : List Char) : List (List Char) :=
  tokensFrom [] s

/-- Copies a text with each run of spaces written as one space. `afterSpace` says whether the run
    that is being read has been written. -/
def squeeze (afterSpace : Bool) : List Char → List Char
  | [] => []
  | ' ' :: s => if afterSpace then squeeze true s else ' ' :: squeeze true s
  | c :: s => c :: squeeze false s

/-- The text without spaces at its ends and with one space for every run of spaces. -/
def canonical (s : List Char) : List Char :=
  squeeze false (Text.trimBy (· == ' ') s)

/-! ### On strings -/

/-- The define names of a define string, in order. -/
def names (defines : String) : List String :=
  (tokens defines.toList).map String.ofList

/-- The canonical spelling of a define string. -/
def canonicalize (raw : String) : String :=
  String.ofList (canonical raw.toList)

@[simp] theorem tokens_nil : tokens [] = [] := rfl

@[simp] theorem canonical_nil : canonical [] = [] := rfl

@[simp] theorem toList_canonicalize (raw : String) :
    (canonicalize raw).toList = canonical raw.toList := by
  simp [canonicalize]

example : canonicalize "  LIGHT   FOG " = "LIGHT FOG" := by decide +kernel

example : names "  LIGHT   FOG " = ["LIGHT", "FOG"] := by decide +kernel

end ShaderKit.Defines
