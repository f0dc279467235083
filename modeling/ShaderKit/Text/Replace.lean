namespace ShaderKit.Text

/-!
# Replacing every occurrence of a pattern

* `replaceAll` — occurrences are found from left to right and never overlap; what is written in
                 their place is not searched again
-/

/-- Copies a text with the occurrences of `pat` written as `rep`. The first argument counts the
    characters that still belong to an occurrence already written. -/
def replaceFrom (pat rep : List Char) : Nat → List Char → List Char
  | _, [] => []
  | skip + 1, _ :: s => replaceFrom pat rep skip s
  | 0, c :: s =>
    if pat.isPrefixOf (c :: s) then rep ++ replaceFrom pat rep (pat.length - 1) s
    else c :: replaceFrom pat rep 0 s

/-- The text with every occurrence of `pat` written as `rep`. The empty pattern is never found. -/
def replaceAll (pat rep s : List Char) : List Char :=
  if pat.isEmpty then s else replaceFrom pat rep 0 s

theorem replaceFrom_eq_drop (pat rep : List Char) (n : Nat) (s : List Char) :
    replaceFrom pat rep n s = replaceFrom pat rep 0 (s.drop n) := by
  induction n generalizing s with
  | zero => rfl
  | succ n ih =>
    cases s with
    | nil => rfl
    | cons c s => simpa [replaceFrom] using ih s

@[simp] theorem replaceAll_nil (pat rep : List Char) : replaceAll pat rep [] = [] := by
  simp [replaceAll, replaceFrom]

/-- An occurrence at the front is written as `rep`. -/
theorem replaceAll_append_self {pat : List Char} (h : pat ≠ []) (rep s : List Char) :
    replaceAll pat rep (pat ++ s) = rep ++ replaceAll pat rep s := by
  cases pat with
  | nil => exact absurd rfl h
  | cons c p =>
    have hp : (c :: p).isPrefixOf (c :: (p ++ s)) = true := by
      rw [List.isPrefixOf_iff_prefix]
      exact ⟨s, by simp⟩
    simp only [replaceAll, List.isEmpty_cons, Bool.false_eq_true, if_false, List.cons_append,
      replaceFrom, hp, if_true]
    rw [replaceFrom_eq_drop]
    simp

/-- A character at which no occurrence starts is kept. -/
theorem replaceAll_cons_of_not_prefix {pat : List Char} {c : Char} {s : List Char}
    (h : ¬ pat <+: c :: s) (rep : List Char) :
    replaceAll pat rep (c :: s) = c :: replaceAll pat rep s := by
  have hp : pat.isPrefixOf (c :: s) = false := by
    rw [Bool.eq_false_iff]
    exact fun hm => h (List.isPrefixOf_iff_prefix.mp hm)
  cases pat with
  | nil => exact absurd List.nil_prefix h
  | cons d p => simp [replaceAll, replaceFrom, hp]

end ShaderKit.Text
