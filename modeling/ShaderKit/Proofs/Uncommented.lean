import ShaderKit.Proofs.Comments

namespace ShaderKit.Text

/-!
# Texts without their comments

What is left of a text when its comments are taken out: a line comment goes from `//` up to the end of the
line, a block comment from `/*` up to and with the next `*/`, or else up to the end of the text.

* `uncommented`        — a text without its comments
* `uncommentedInLine`, `uncommentedInBlock` — the same for a text that begins within a comment
* `uncommentedFrom`    — the same for a text that a reader comes to
* `Mode.kept`          — what a reader keeps at a character
* `uncommentedFrom_append` — two parts of a text, one after the other
* `uncommentedInBlock_of_not_infix`, `uncommentedInBlock_append` — a block comment ends at the first `*/`, and
                         nowhere else
-/

variable {m : Mode} {a b s u w : List Char} {c : Char}

mutual

/-- A text without its comments. -/
def uncommented : List Char → List Char
  | [] => []
  | '/' :: '/' :: s => uncommentedInLine s
  | '/' :: '*' :: s => uncommentedInBlock s
  | c :: s => c :: uncommented s

/-- What is left of a text that begins within a line comment.  The line feed behind the comment is left. -/
def uncommentedInLine : List Char → List Char
  | [] => []
  | '\n' :: s => '\n' :: uncommented s
  | _ :: s => uncommentedInLine s

/-- What is left of a text that begins within a block comment. -/
def uncommentedInBlock : List Char → List Char
  | [] => []
  | '*' :: '/' :: s => uncommented s
  | _ :: s => uncommentedInBlock s

end

/-- What is left of a text for a reader who comes to it.  What the reader holds back is read again. -/
def uncommentedFrom : Mode → List Char → List Char
  | .code, s => uncommented s
  | .slash, s => uncommented ('/' :: s)
  | .line, s => uncommentedInLine s
  | .block, s => uncommentedInBlock s
  | .star, s => uncommentedInBlock ('*' :: s)

/-- What a reader keeps at a character.  A slash is kept as soon as it is known to begin no comment. -/
def Mode.kept : Mode → Char → List Char
  | code, c => if c = '/' then [] else [c]
  | slash, c => if c = '/' ∨ c = '*' then [] else ['/', c]
  | line, c => if c = '\n' then [c] else []
  | block, _ => []
  | star, _ => []

/-! ### Character by character -/

theorem uncommented_cons (h : c ≠ '/') : uncommented (c :: s) = c :: uncommented s := by
  rw [uncommented] <;> exact fun _ hc => (h hc).elim

theorem uncommented_slash_cons (hslash : c ≠ '/') (hstar : c ≠ '*') :
    uncommented ('/' :: c :: s) = '/' :: c :: uncommented s := by
  rw [uncommented, uncommented_cons hslash] <;> simp [hslash, hstar]

theorem uncommentedInLine_cons (h : c ≠ '\n') : uncommentedInLine (c :: s) = uncommentedInLine s := by
  rw [uncommentedInLine]
  exact h

theorem uncommentedInBlock_cons (h : ¬ ['*', '/'] <+: c :: s) :
    uncommentedInBlock (c :: s) = uncommentedInBlock s := by
  rw [uncommentedInBlock]
  rintro t rfl rfl
  exact h (List.prefix_append ['*', '/'] t)

theorem uncommentedInBlock_star_cons (h : c ≠ '/') :
    uncommentedInBlock ('*' :: c :: s) = uncommentedInBlock (c :: s) :=
  uncommentedInBlock_cons (by simp [h.symm])

theorem uncommentedInBlock_cons_of_ne (h : c ≠ '*') :
    uncommentedInBlock (c :: s) = uncommentedInBlock s :=
  uncommentedInBlock_cons (by simp [h.symm])

@[simp] theorem uncommentedFrom_nil (h : m ≠ .slash) : uncommentedFrom m [] = [] := by
  cases m with
  | slash => exact (h rfl).elim
  | code | line | block | star => rfl

theorem uncommentedFrom_cons : uncommentedFrom m (c :: s) = m.kept c ++ uncommentedFrom (m.next c) s := by
  cases m with
  | code =>
    by_cases hc : c = '/'
    · simp [Mode.kept, Mode.next, uncommentedFrom, hc]
    · simp [Mode.kept, Mode.next, uncommentedFrom, hc, uncommented_cons hc]
  | slash =>
    by_cases hslash : c = '/'
    · simp [Mode.kept, Mode.next, uncommentedFrom, hslash, uncommented]
    · by_cases hstar : c = '*'
      · simp [Mode.kept, Mode.next, uncommentedFrom, hstar, uncommented]
      · simp [Mode.kept, Mode.next, uncommentedFrom, hslash, hstar, uncommented_slash_cons hslash hstar]
  | line =>
    by_cases hc : c = '\n'
    · simp [Mode.kept, Mode.next, uncommentedFrom, hc, uncommentedInLine]
    · simp [Mode.kept, Mode.next, uncommentedFrom, hc, uncommentedInLine_cons hc]
  | block =>
    by_cases hc : c = '*'
    · simp [Mode.kept, Mode.next, uncommentedFrom, hc]
    · simp [Mode.kept, Mode.next, uncommentedFrom, hc, uncommentedInBlock_cons_of_ne hc]
  | star =>
    by_cases hslash : c = '/'
    · simp [Mode.kept, Mode.next, uncommentedFrom, hslash, uncommentedInBlock]
    · rw [uncommentedFrom, uncommentedInBlock_star_cons hslash]
      by_cases hstar : c = '*'
      · simp [Mode.kept, Mode.next, uncommentedFrom, hstar]
      · simp [Mode.kept, Mode.next, uncommentedFrom, hslash, hstar, uncommentedInBlock_cons_of_ne hstar]

/-! ### Part by part -/

/-- Two parts of a text, unless the first one ends with a slash that may begin a comment. -/
theorem uncommentedFrom_append (h : scan m a ≠ .slash) :
    uncommentedFrom m (a ++ b) = uncommentedFrom m a ++ uncommentedFrom (scan m a) b := by
  induction a generalizing m with
  | nil => rw [scan_nil] at h; simp [h]
  | cons c a ih =>
    rw [List.cons_append, uncommentedFrom_cons, uncommentedFrom_cons, ih h, scan_cons, List.append_assoc]

/-- Code in front of a text. -/
theorem uncommented_append (h : scan .code a = .code) :
    uncommented (a ++ b) = uncommented a ++ uncommented b := by
  have hne : scan .code a ≠ .slash := by rw [h]; decide
  have happend := uncommentedFrom_append (b := b) hne
  rwa [h] at happend

/-- A block comment lasts as long as no `*/` comes. -/
theorem uncommentedInBlock_of_not_infix (h : ¬ ['*', '/'] <:+: s) : uncommentedInBlock s = [] := by
  induction s with
  | nil => rfl
  | cons c s ih =>
    rw [List.infix_cons_iff, not_or] at h
    rw [uncommentedInBlock_cons h.1, ih h.2]

/-- What comes behind a text without `*/` is still in the block comment. -/
theorem uncommentedInBlock_append (h : ¬ ['*', '/'] <:+: u) :
    uncommentedInBlock (u ++ s) = uncommentedFrom (scan .block u) s := by
  have hblock : (scan .block u).inBlock = true := scan_inBlock h rfl (by simp)
  have hne : scan .block u ≠ .slash := by
    intro hslash
    rw [hslash] at hblock
    cases hblock
  have happend := uncommentedFrom_append (m := .block) (b := s) hne
  rwa [uncommentedFrom, uncommentedFrom, uncommentedInBlock_of_not_infix h, List.nil_append] at happend

/-- A block comment ends at the first `*/`. -/
theorem uncommentedInBlock_append_end (h : ¬ ['*', '/'] <:+: u) :
    uncommentedInBlock (u ++ '*' :: '/' :: w) = uncommented w := by
  have hblock : (scan .block u).inBlock = true := scan_inBlock h rfl (by simp)
  rw [uncommentedInBlock_append h]
  cases hscan : scan .block u with
  | block => rw [uncommentedFrom, uncommentedInBlock]
  -- A star is there already, and one more changes nothing.
  | star => rw [uncommentedFrom, uncommentedInBlock_star_cons (by decide), uncommentedInBlock]
  | code | slash | line =>
    rw [hscan] at hblock
    cases hblock

end ShaderKit.Text
