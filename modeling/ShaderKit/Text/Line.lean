namespace ShaderKit.Text

/-!
# Lines

How a text falls into lines and how lines are put together again.

* `lines`     — a line ends at a line feed, and one carriage return right before it belongs to the
                line end; what follows the last line feed is a line too, unless it is empty
* `joinLines` — each line followed by a line feed
-/

/-- A line without the carriage return that belongs to its line end. The line is read backwards. -/
def dropReturn : List Char → List Char
  | '\r' :: line => line
  | line => line

/-- The lines of a text whose current line has been read, backwards, as far as `line`. -/
def linesFrom (line : List Char) : List Char → List (List Char)
  | [] => if line.isEmpty then [] else [line.reverse]
  | '\n' :: s => (dropReturn line).reverse :: linesFrom [] s
  | c :: s => linesFrom (c :: line) s

/-- The lines of a text, without their line ends. -/
def lines (s : List Char) : List (List Char) :=
  linesFrom [] s

/-- Each line followed by a line feed. -/
def joinLines (ls : List (List Char)) : List Char :=
  ls.flatMap fun line => line ++ ['\n']

@[simp] theorem lines_nil : lines [] = [] := rfl

@[simp] theorem joinLines_nil : joinLines [] = [] := rfl

@[simp] theorem joinLines_cons (l : List Char) (ls : List (List Char)) :
    joinLines (l :: ls) = l ++ '\n' :: joinLines ls := by
  simp [joinLines]

theorem joinLines_append (ls ms : List (List Char)) :
    joinLines (ls ++ ms) = joinLines ls ++ joinLines ms := by
  simp [joinLines]

/-- Up to its first line feed a text is one line. -/
theorem linesFrom_append_newline {l : List Char} (h : '\n' ∉ l) (line s : List Char) :
    linesFrom line (l ++ '\n' :: s) = (dropReturn (l.reverse ++ line)).reverse :: lines s := by
  induction l generalizing line with
  | nil => rfl
  | cons c l ih =>
    have hc : c ≠ '\n' := by rintro rfl; simp at h
    have hl : '\n' ∉ l := fun hm => h (by simp [hm])
    simp [linesFrom, ih hl]

end ShaderKit.Text
