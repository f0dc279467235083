import ShaderKit.Proofs.Closure

namespace ShaderKit

/-!
# The written forms of a directive

The name in a directive may stand in quotes, in angle brackets or bare, with white space wherever it may
stand.  It is found by trimming three times, and that takes away all there is around the name and nothing of
the name itself, which may have white space, quotes and brackets inside:

* `Text.Bare`                 — a text that has no character of a class at either end
* `Text.trimBy_append`        — trimming takes away what is around such a text
* `target_decorated`, `target_undecorated` — the name is found in each of its forms
* `directive?_eq_none_iff`    — which lines are no directives
* `directives_in_every_form`  — the forms of a directive, and the lines that have none of them
-/

namespace Text

variable {p q : Char → Bool} {s front back : List Char} {c d : Char}

/-- The text has no character of the class at either end. -/
structure Bare (p : Char → Bool) (s : List Char) : Prop where
  first : ∀ c ∈ s.head?, p c = false
  last : ∀ c ∈ s.getLast?, p c = false

/-- Bareness can be checked at both ends. -/
theorem bare_iff : Bare p s ↔ s.head?.all (!p ·) = true ∧ s.getLast?.all (!p ·) = true := by
  simp only [Option.all_eq_true, Bool.not_eq_true']
  exact ⟨fun h => ⟨h.first, h.last⟩, fun h => ⟨h.1, h.2⟩⟩

instance : Decidable (Bare p s) := decidable_of_iff' _ bare_iff

/-- A text that is bare of a class is bare of every smaller one. -/
theorem Bare.mono (h : Bare p s) (hpq : ∀ c, q c = true → p c = true) : Bare q s where
  first c hc := Bool.eq_false_iff.mpr fun hq => Bool.eq_false_iff.mp (h.first c hc) (hpq c hq)
  last c hc := Bool.eq_false_iff.mpr fun hq => Bool.eq_false_iff.mp (h.last c hc) (hpq c hq)

/-- A text between two characters of another class. -/
theorem bare_between (hc : p c = false) (hd : p d = false) (s : List Char) :
    Bare p (c :: (s ++ [d])) where
  first := by simpa using hc
  last := by
    rw [← List.cons_append, List.getLast?_concat]
    simpa using hd

/-- What is put around a bare text leaves it bare if it is of another class. -/
theorem Bare.append (h : Bare p s) (hfront : ∀ c ∈ front, p c = false)
    (hback : ∀ c ∈ back, p c = false) : Bare p (front ++ (s ++ back)) where
  first c hc := by
    rw [List.head?_append, List.head?_append, Option.mem_def, Option.or_eq_some_iff,
      Option.or_eq_some_iff] at hc
    rcases hc with hc | ⟨-, hc | ⟨-, hc⟩⟩
    · exact hfront c (List.mem_of_mem_head? hc)
    · exact h.first c hc
    · exact hback c (List.mem_of_mem_head? hc)
  last c hc := by
    rw [List.getLast?_append, List.getLast?_append, Option.mem_def, Option.or_eq_some_iff,
      Option.or_eq_some_iff] at hc
    rcases hc with (hc | ⟨-, hc⟩) | ⟨-, hc⟩
    · exact hback c (List.mem_of_mem_getLast? hc)
    · exact h.last c hc
    · exact hfront c (List.mem_of_mem_getLast? hc)

/-- Nothing is dropped from a text that does not begin with the class. -/
theorem dropWhile_eq_self (h : ∀ c ∈ s.head?, p c = false) : s.dropWhile p = s := by
  cases s with
  | nil => rfl
  | cons c s => rw [List.dropWhile_cons_of_neg (Bool.eq_false_iff.mp (h c rfl))]

/-- **Trimming** takes away what is of the class around a bare text, and nothing of the text. -/
theorem trimBy_append (h : Bare p s) (hfront : ∀ c ∈ front, p c = true)
    (hback : ∀ c ∈ back, p c = true) : trimBy p (front ++ (s ++ back)) = s := by
  have hlast : trimEndBy p (s ++ back) = s := by
    rw [trimEndBy, List.reverse_append, List.dropWhile_append_of_pos (by simpa using hback),
      dropWhile_eq_self (by simpa using h.last), List.reverse_reverse]
  rw [trimBy, List.dropWhile_append_of_pos hfront]
  cases s with
  | nil =>
    -- All that is there goes from the front already.
    rw [List.nil_append, ← List.append_nil back, List.dropWhile_append_of_pos hback]
    rfl
  | cons c s =>
    rw [dropWhile_eq_self (by simpa using h.first), hlast]

/-- Nothing is trimmed from a bare text. -/
theorem trimBy_eq_self (h : Bare p s) : trimBy p s = s := by
  have hnothing : trimBy p ([] ++ (s ++ [])) = s := trimBy_append h (by simp) (by simp)
  rwa [List.append_nil, List.nil_append] at hnothing

end Text

namespace Include

open Text (isBlank trimBy Bare)

/-! ### The name behind the keyword -/

variable {name rest front back left right : List Char} {opening closing : Char}

/-- What a name has around it: white space and decoration. -/
def isPadding (c : Char) : Bool := isBlank c || isDecoration c

/-- Quotes and brackets are no white space. -/
theorem isBlank_of_isDecoration {c : Char} (h : isDecoration c = true) : isBlank c = false := by
  simp only [isDecoration, Bool.or_eq_true, beq_iff_eq] at h
  rcases h with (rfl | rfl) | rfl <;> decide

/-- White space is no decoration. -/
theorem isDecoration_of_isBlank {c : Char} (h : isBlank c = true) : isDecoration c = false := by
  rw [Bool.eq_false_iff]
  intro hdecoration
  rw [isBlank_of_isDecoration hdecoration] at h
  cases h

/-- A name may stand bare, with white space around it. -/
theorem target_undecorated (hname : Bare isPadding name) (hfront : ∀ c ∈ front, isBlank c = true)
    (hback : ∀ c ∈ back, isBlank c = true) : target (front ++ (name ++ back)) = name := by
  have hblank : Bare isBlank name := hname.mono fun c hc => by rw [isPadding, hc, Bool.true_or]
  have hdecoration : Bare isDecoration name :=
    hname.mono fun c hc => by rw [isPadding, hc, Bool.or_true]
  rw [target, Text.trimBy_append hblank hfront hback, Text.trimBy_eq_self hdecoration,
    Text.trimBy_eq_self hblank]

/-- A name may be decorated, with white space inside and outside of the decoration.  The first trim ends at the
    decoration.  The second one takes it away, and nothing else, as white space comes next or the name itself. -/
theorem target_decorated (hname : Bare isPadding name) (hopening : isDecoration opening = true)
    (hclosing : isDecoration closing = true) (hfront : ∀ c ∈ front, isBlank c = true)
    (hleft : ∀ c ∈ left, isBlank c = true) (hright : ∀ c ∈ right, isBlank c = true)
    (hback : ∀ c ∈ back, isBlank c = true) :
    target (front ++ (opening :: (left ++ (name ++ right) ++ [closing]) ++ back)) = name := by
  have hblank : Bare isBlank name := hname.mono fun c hc => by rw [isPadding, hc, Bool.true_or]
  have hdecoration : Bare isDecoration name :=
    hname.mono fun c hc => by rw [isPadding, hc, Bool.or_true]
  have hdecorated : Bare isBlank (opening :: (left ++ (name ++ right) ++ [closing])) :=
    Text.bare_between (isBlank_of_isDecoration hopening) (isBlank_of_isDecoration hclosing) _
  have hinside : Bare isDecoration (left ++ (name ++ right)) :=
    hdecoration.append (fun c hc => isDecoration_of_isBlank (hleft c hc))
      fun c hc => isDecoration_of_isBlank (hright c hc)
  calc target (front ++ (opening :: (left ++ (name ++ right) ++ [closing]) ++ back))
      = trimBy isBlank (trimBy isDecoration (opening :: (left ++ (name ++ right) ++ [closing]))) := by
        rw [target, Text.trimBy_append hdecorated hfront hback]
    _ = trimBy isBlank (left ++ (name ++ right)) := by
        rw [← List.singleton_append,
          Text.trimBy_append hinside (by simpa using hopening) (by simpa using hclosing)]
    _ = name := Text.trimBy_append hblank hleft hright

/-! ### Whole lines -/

/-- Behind the keyword comes the name, if the keyword ends there. -/
theorem directive?_append (hrest : ∀ c ∈ rest.head?, endsKeyword c = true) :
    directive? (keyword ++ rest) = some (target rest) := by
  have hword : keyword.isPrefixOf (keyword ++ rest) = true :=
    List.isPrefixOf_iff_prefix.mpr (List.prefix_append _ _)
  have hends : rest.head?.all endsKeyword = true := by
    cases rest with
    | nil => rfl
    | cons c rest => exact hrest c rfl
  rw [directive?, if_pos hword, List.drop_left, if_pos hends]

/-- **A directive with a bare name**: white space has to stand behind the keyword. -/
theorem directive?_undecorated (hname : Bare isPadding name) (hspaced : front ≠ [])
    (hfront : ∀ c ∈ front, isBlank c = true) (hback : ∀ c ∈ back, isBlank c = true) :
    directive? (keyword ++ (front ++ (name ++ back))) = some name := by
  rw [directive?_append, target_undecorated hname hfront hback]
  intro c hc
  have hblank : isBlank c = true := by
    cases front with
    | nil => exact absurd rfl hspaced
    | cons d front => exact hfront c (Option.some.inj hc ▸ List.mem_cons_self)
  rw [endsKeyword, hblank, Bool.true_or, Bool.true_or]

/-- **A directive with a decorated name**: quotes or brackets may follow the keyword at once. -/
theorem directive?_decorated (hname : Bare isPadding name) (hopening : isDecoration opening = true)
    (hends : endsKeyword opening = true) (hclosing : isDecoration closing = true)
    (hfront : ∀ c ∈ front, isBlank c = true) (hleft : ∀ c ∈ left, isBlank c = true)
    (hright : ∀ c ∈ right, isBlank c = true) (hback : ∀ c ∈ back, isBlank c = true) :
    directive? (keyword ++ (front ++ (opening :: (left ++ (name ++ right) ++ [closing]) ++ back))) =
      some name := by
  rw [directive?_append, target_decorated hname hopening hclosing hfront hleft hright hback]
  intro c hc
  cases front with
  | nil => rwa [← Option.some.inj hc]
  | cons d front =>
    rw [← Option.some.inj hc, endsKeyword, hfront d List.mem_cons_self, Bool.true_or, Bool.true_or]

/-- A line is no directive if the keyword is not there, or goes on as another word. -/
theorem directive?_eq_none_iff {line : List Char} : directive? line = none ↔
    ∀ rest, line = keyword ++ rest → ∃ c ∈ rest.head?, endsKeyword c = false := by
  rw [← Option.not_isSome_iff_eq_none, isSome_directive?]
  constructor
  · rintro h rest rfl
    rw [List.drop_left] at h
    cases rest with
    | nil => exact absurd ⟨List.prefix_append _ _, rfl⟩ h
    | cons c rest => exact ⟨c, rfl, Bool.eq_false_iff.mpr fun hends => h ⟨List.prefix_append _ _, hends⟩⟩
  · rintro h ⟨⟨rest, rfl⟩, hends⟩
    obtain ⟨c, hc, hgoes⟩ := h rest rfl
    rw [List.drop_left, Option.mem_def.mp hc, Option.all_some, hgoes] at hends
    cases hends

/-- A line is the same directive as its characters are. -/
theorem directiveOf?_eq_some_iff {line name : String} :
    directiveOf? line = some name ↔ directive? line.toList = some name.toList := by
  rw [directiveOf?, Option.map_eq_some_iff]
  constructor
  · rintro ⟨_, h, rfl⟩
    rw [h, String.toList_ofList]
  · exact fun h => ⟨_, h, String.ofList_toList⟩

/-- What goes on with a word behind the keyword: all but white space, a quote and an opening bracket. -/
theorem endsKeyword_eq_false_iff {c : Char} :
    endsKeyword c = false ↔ isBlank c = false ∧ c ≠ '"' ∧ c ≠ '<' := by
  simp [endsKeyword, and_assoc]

/-- **The lines that are no directives** do not begin with the keyword, or go on with it as a longer
    word. -/
theorem directiveOf?_eq_none_iff {line : String} :
    directiveOf? line = none ↔ (¬ ∃ rest, line = "#include" ++ rest) ∨
      ∃ c rest, line = "#include" ++ String.singleton c ++ rest ∧
        isBlank c = false ∧ c ≠ '"' ∧ c ≠ '<' := by
  have hword (rest : String) : ("#include" ++ rest).toList = keyword ++ rest.toList :=
    String.toList_append
  rw [directiveOf?, Option.map_eq_none_iff, directive?_eq_none_iff]
  constructor
  · intro h
    by_cases hline : ∃ rest, line = "#include" ++ rest
    · obtain ⟨rest, rfl⟩ := hline
      obtain ⟨c, hc, hgoes⟩ := h rest.toList (hword rest)
      obtain ⟨tail, htail⟩ := List.head?_eq_some_iff.mp hc
      refine .inr ⟨c, String.ofList tail, ?_, endsKeyword_eq_false_iff.mp hgoes⟩
      rw [String.append_assoc, ← String.toList_inj, hword, hword, htail]
      simp
    · exact .inl hline
  · rintro (h | ⟨c, tail, rfl, hgoes⟩) rest hrest
    · refine absurd ⟨String.ofList rest, ?_⟩ h
      rw [← String.toList_inj, hword, hrest, String.toList_ofList]
    · rw [String.append_assoc, hword] at hrest
      have hc : rest.head? = some c := by
        rw [← List.append_cancel_left hrest]
        simp
      exact ⟨c, hc, endsKeyword_eq_false_iff.mpr hgoes⟩

/-- **Directives are recognised in every written form.**  Take a name with neither white space nor decoration at
    its ends, whatever it has inside.  It is found in quotes, in angle brackets and bare, with any white space
    in between; only a bare name has to be kept apart from the keyword.  A line is no directive exactly if it does
    not begin with the keyword, or the keyword goes on with a character that is no white space and opens
    nothing.  The keyword alone names the empty text. -/
theorem directives_in_every_form (name w₁ w₂ w₃ w₄ : String) (hname : Bare isPadding name.toList)
    (h₁ : ∀ c ∈ w₁.toList, isBlank c = true) (h₂ : ∀ c ∈ w₂.toList, isBlank c = true)
    (h₃ : ∀ c ∈ w₃.toList, isBlank c = true) (h₄ : ∀ c ∈ w₄.toList, isBlank c = true) :
    directiveOf? ("#include" ++ w₁ ++ "\"" ++ w₂ ++ name ++ w₃ ++ "\"" ++ w₄) = some name ∧
      directiveOf? ("#include" ++ w₁ ++ "<" ++ w₂ ++ name ++ w₃ ++ ">" ++ w₄) = some name ∧
      (w₁ ≠ "" → directiveOf? ("#include" ++ w₁ ++ name ++ w₄) = some name) ∧
      (∀ line : String, directiveOf? line = none ↔ (¬ ∃ rest, line = "#include" ++ rest) ∨
        ∃ c rest, line = "#include" ++ String.singleton c ++ rest ∧
          isBlank c = false ∧ c ≠ '"' ∧ c ≠ '<') ∧
      directiveOf? "#include" = some "" := by
  have hdecorated (opening closing : Char) (hopening : isDecoration opening = true)
      (hends : endsKeyword opening = true) (hclosing : isDecoration closing = true) :
      directiveOf? ("#include" ++ w₁ ++ String.singleton opening ++ w₂ ++ name ++ w₃ ++
        String.singleton closing ++ w₄) = some name := by
    rw [directiveOf?_eq_some_iff, ← directive?_decorated hname hopening hends hclosing h₁ h₂ h₃ h₄]
    simp only [String.toList_append, String.toList_singleton, List.append_assoc, List.cons_append]
    rfl
  refine ⟨hdecorated '"' '"' rfl rfl rfl, hdecorated '<' '>' rfl rfl rfl, fun hspaced => ?_,
    fun line => directiveOf?_eq_none_iff, by decide⟩
  · rw [directiveOf?_eq_some_iff, ← directive?_undecorated hname (by simpa using hspaced) h₁ h₄]
    simp only [String.toList_append, List.append_assoc]
    rfl

/-- A name with spaces, quotes and a bracket inside, and white space of four other kinds around it. -/
theorem directives_in_every_form_inside :
    let name := "Lib/a \"b\" <c"
    directiveOf? "#include\u2003\"\u00a0Lib/a \"b\" <c\t\"\u3000" = some name ∧
      directiveOf? "#include\u2003<\u00a0Lib/a \"b\" <c\t>\u3000" = some name ∧
      directiveOf? "#include\u2003Lib/a \"b\" <c\u3000" = some name := by
  have h := directives_in_every_form "Lib/a \"b\" <c" "\u2003" "\u00a0" "\t" "\u3000" (by decide)
    (List.all_eq_true.mp rfl) (List.all_eq_true.mp rfl) (List.all_eq_true.mp rfl) (List.all_eq_true.mp rfl)
  exact ⟨h.1, h.2.1, h.2.2.1 (by decide)⟩

end Include

end ShaderKit
