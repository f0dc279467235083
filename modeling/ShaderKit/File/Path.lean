namespace ShaderKit.Path

/-!
# Logical file names

A logical name is a text whose parts are set apart by slashes.

* `parent`     — everything up to the last slash, that slash included
* `stem`       — the name without the extension of its last part
* `components` — the parts that are not empty
-/

/-- The name up to its last slash, that slash included; empty when there is none. -/
def parent (name : List Char) : List Char :=
  (name.reverse.dropWhile (· != '/')).reverse

/-- The name without the last dot of its last part and what follows it. A last part without a dot
    is kept. -/
def stem (name : List Char) : List Char :=
  let backwards := name.reverse
  if (backwards.takeWhile (· != '/')).contains '.' then
    ((backwards.dropWhile (· != '.')).drop 1).reverse
  else name

/-- The parts of a name whose current part has been read, backwards, as far as `part`. -/
def componentsFrom (part : List Char) : List Char → List (List Char)
  | [] => if part.isEmpty then [] else [part.reverse]
  | '/' :: s => if part.isEmpty then componentsFrom [] s else part.reverse :: componentsFrom [] s
  | c :: s => componentsFrom (c :: part) s

/-- The parts of a name that are not empty, in order. -/
def components (name : List Char) : List (List Char) :=
  componentsFrom [] name

/-! ### On strings -/

/-- The directory part of a logical name, to which the name of a sibling is appended. -/
def parentOf (name : String) : String := String.ofList (parent name.toList)

/-- The logical name without the extension of its last part. -/
def stemOf (name : String) : String := String.ofList (stem name.toList)

/-- The non-empty parts of a logical name, in order. -/
def componentsOf (name : String) : List String := (components name.toList).map String.ofList

example : parentOf "Shaders/Basic.glsl" = "Shaders/" := by decide +kernel

example : stemOf "a.b/Basic.pp.glsl" = "a.b/Basic.pp" := by decide +kernel

end ShaderKit.Path
