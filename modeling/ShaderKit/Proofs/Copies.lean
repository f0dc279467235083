import ShaderKit.Proofs.Occurrences

namespace ShaderKit.Text

/-!
# Where the characters of a text come from

A text that was made from another one by replacing has characters that were copied and characters that were
not.  Here the characters take along the place that they were copied from, while patterns are replaced as
they are in a text of plain characters.

* `Glyph`, `spell`      — a character with its origin, and the plain text
* `original`, `fresh`   — a text that was not changed yet, and one that is new
* `editAll`             — replacing every occurrence of a pattern; `spell_editAll` says that this is
                          `replaceAll` for the plain text
* `Copies`              — an edit that brings in nothing from elsewhere
* `begun`               — how often a pattern has begun up to a place
* `Counted`             — at each copied character, a pattern has begun as often as expected of its origin
* `Counted.editAll`     — an edit that leaves a pattern alone keeps the count
* `Counted.editAll_add` — an edit that brings in one more occurrence adds the edits made so far
-/

/-- A character of a text, and the place that it was copied from, if it was. -/
structure Glyph where
  char : Char
  origin : Option Nat
  deriving DecidableEq, Repr

variable {p pat rep a s : List Char} {c : Char} {g : Glyph} {l t : List Glyph}
  {edit : List Glyph → List Glyph} {count rank : Nat → Nat} {i j k n : Nat}

/-- The plain text. -/
def spell (t : List Glyph) : List Char := t.map Glyph.char

/-- A text that is not copied from anywhere. -/
def fresh (s : List Char) : List Glyph := s.map fun c => ⟨c, none⟩

/-- A text whose first character is at place `n`, each character being where it comes from. -/
def original (n : Nat) : List Char → List Glyph
  | [] => []
  | c :: s => ⟨c, some n⟩ :: original (n + 1) s

/-- Copies glyphs with the occurrences of `pat` written as `edit` says.  The first argument counts the glyphs
    that still belong to an occurrence already written. -/
def editFrom (pat : List Char) (edit : List Glyph → List Glyph) : Nat → List Glyph → List Glyph
  | _, [] => []
  | skip + 1, _ :: t => editFrom pat edit skip t
  | 0, g :: t =>
    if pat.isPrefixOf (spell (g :: t)) then
      edit ((g :: t).take pat.length) ++ editFrom pat edit (pat.length - 1) t
    else g :: editFrom pat edit 0 t

/-- The glyphs with every occurrence of `pat` written as `edit` says. -/
def editAll (pat : List Char) (edit : List Glyph → List Glyph) (t : List Glyph) : List Glyph :=
  if pat.isEmpty then t else editFrom pat edit 0 t

/-- No glyphs, no text. -/
@[simp] theorem spell_nil : spell [] = [] := rfl

/-- Glyphs are spelled one by one. -/
@[simp] theorem spell_cons : spell (g :: t) = g.char :: spell t := rfl

/-- Texts are spelled one behind the other. -/
@[simp] theorem spell_append : spell (l ++ t) = spell l ++ spell t := List.map_append

/-- A new text is spelled as it was written. -/
@[simp] theorem spell_fresh : spell (fresh s) = s := by
  rw [spell, fresh, List.map_map]
  exact List.map_id s

/-- So is one that was not changed. -/
@[simp] theorem spell_original : spell (original n s) = s := by
  induction s generalizing n with
  | nil => rfl
  | cons c s ih => rw [original, spell_cons, ih]

/-- Each glyph is one character. -/
theorem length_spell : (spell t).length = t.length := List.length_map _

/-- New characters come from nowhere. -/
theorem origin_of_mem_fresh (h : g ∈ fresh s) : g.origin = none := by
  obtain ⟨c, -, rfl⟩ := List.mem_map.mp h
  rfl

/-- The glyphs of an unchanged text are its characters with their places. -/
theorem mem_original : g ∈ original n s ↔ ∃ i, s[i]? = some g.char ∧ g.origin = some (n + i) := by
  induction s generalizing n with
  | nil => simp [original]
  | cons c s ih =>
    rw [original, List.mem_cons, ih]
    constructor
    · rintro (rfl | ⟨i, hchar, horigin⟩)
      · exact ⟨0, rfl, rfl⟩
      · exact ⟨i + 1, hchar, by rw [horigin, Nat.add_right_comm, Nat.add_assoc]⟩
    · rintro ⟨_ | i, hchar, horigin⟩
      · rw [List.getElem?_cons_zero, Option.some.injEq] at hchar
        exact .inl (by cases g; simp_all)
      · exact .inr ⟨i, hchar, by rw [horigin, Nat.add_right_comm, Nat.add_assoc]⟩

/-! ### Edits, one by one -/

/-- Glyphs of an occurrence that was already written are skipped. -/
theorem editFrom_eq_drop : editFrom pat edit n t = editFrom pat edit 0 (t.drop n) := by
  induction n generalizing t with
  | zero => rfl
  | succ n ih =>
    cases t with
    | nil => rfl
    | cons g t => simpa [editFrom] using ih

/-- An occurrence at the front is edited. -/
theorem editAll_append_self (hpat : pat ≠ []) (hl : spell l = pat) :
    editAll pat edit (l ++ t) = edit l ++ editAll pat edit t := by
  have hempty : pat.isEmpty = false := by simpa using hpat
  have hlength : l.length = pat.length := by rw [← hl, length_spell]
  cases l with
  | nil => exact absurd hl.symm hpat
  | cons g l =>
    have hprefix : pat.isPrefixOf (spell (g :: (l ++ t))) = true := by
      rw [List.isPrefixOf_iff_prefix, ← hl, ← List.cons_append, spell_append]
      exact List.prefix_append _ _
    have htake : (g :: (l ++ t)).take pat.length = g :: l := by
      rw [← hlength, ← List.cons_append, List.take_left]
    have hdrop : (l ++ t).drop (pat.length - 1) = t := by
      rw [← hlength, List.length_cons, Nat.add_sub_cancel, List.drop_left]
    simp only [editAll, hempty, List.cons_append, editFrom, hprefix, htake, if_true, Bool.false_eq_true,
      if_false]
    rw [editFrom_eq_drop, hdrop]

/-- A glyph at which no occurrence starts is kept. -/
theorem editAll_cons (h : ¬ pat <+: spell (g :: t)) :
    editAll pat edit (g :: t) = g :: editAll pat edit t := by
  have hprefix : pat.isPrefixOf (spell (g :: t)) = false := by
    rw [Bool.eq_false_iff]
    exact fun hm => h (List.isPrefixOf_iff_prefix.mp hm)
  have hempty : pat.isEmpty = false := by
    rw [Bool.eq_false_iff]
    intro hempty
    exact h (List.isEmpty_iff.mp hempty ▸ List.nil_prefix)
  simp only [editAll, hempty, editFrom, hprefix, Bool.false_eq_true, if_false]

/-- Glyphs and what editing makes of them: an occurrence in front is edited, and a glyph at which none starts
    is kept. -/
theorem editAll_induction (hpat : pat ≠ []) {P : List Glyph → List Glyph → Prop} (nil : P [] [])
    (hit : ∀ l t, spell l = pat → P t (editAll pat edit t) → P (l ++ t) (edit l ++ editAll pat edit t))
    (miss : ∀ g t, ¬ pat <+: spell (g :: t) → P t (editAll pat edit t) →
      P (g :: t) (g :: editAll pat edit t)) (t : List Glyph) : P t (editAll pat edit t) := by
  -- What comes after an occurrence is shorter.
  induction hlength : t.length using Nat.strongRecOn generalizing t with
  | ind n ih =>
    subst hlength
    cases t with
    | nil => simpa [editAll, editFrom] using nil
    | cons g t =>
      by_cases hprefix : pat <+: spell (g :: t)
      · obtain ⟨rest, hrest⟩ := hprefix
        obtain ⟨l, t', ht, hl, -⟩ := List.append_eq_map_iff.mp hrest
        rw [ht, editAll_append_self hpat hl]
        refine hit l t' hl (ih t'.length ?_ t' rfl)
        have hpos := List.length_pos_iff.mpr hpat
        rw [ht, List.length_append, ← length_spell (t := l), spell, hl]
        omega
      · rw [editAll_cons hprefix]
        exact miss g t hprefix (ih t.length (by simp) t rfl)

/-- The plain text is replaced as plain texts are. -/
theorem spell_editAll (hpat : pat ≠ []) (hedit : ∀ l, spell l = pat → spell (edit l) = rep)
    (t : List Glyph) : spell (editAll pat edit t) = replaceAll pat rep (spell t) := by
  refine editAll_induction hpat (P := fun t t' => spell t' = replaceAll pat rep (spell t)) ?_ ?_ ?_ t
  · rw [spell_nil, replaceAll_nil]
  · intro l t hl ih
    rw [spell_append, spell_append, hl, hedit l hl, replaceAll_append_self hpat, ih]
  · intro g t hmiss ih
    rw [spell_cons] at hmiss ⊢
    rw [spell_cons, ih, replaceAll_cons_of_not_prefix hmiss]

/-- An edit that brings in no glyph from elsewhere. -/
def Copies (pat : List Char) (edit : List Glyph → List Glyph) : Prop :=
  ∀ l, spell l = pat → ∀ g ∈ edit l, g ∈ l ∨ g.origin = none

/-- To leave an occurrence as it is brings in nothing. -/
theorem copies_id (pat : List Char) : Copies pat id := fun _ _ _ hg => .inl hg

/-- Putting a new text in front of what is copied. -/
theorem Copies.fresh_append (h : Copies pat edit) (s : List Char) :
    Copies pat (fun l => fresh s ++ edit l) := by
  intro l hl g hg
  rcases List.mem_append.mp hg with hg | hg
  · exact .inr (origin_of_mem_fresh hg)
  · exact h l hl g hg

/-- What was copied is a glyph of the text that was edited. -/
theorem mem_of_mem_editAll (hpat : pat ≠ []) (hedit : Copies pat edit) (h : g ∈ editAll pat edit t) :
    g ∈ t ∨ g.origin = none := by
  revert h
  refine editAll_induction hpat (P := fun t t' => g ∈ t' → g ∈ t ∨ g.origin = none) ?_ ?_ ?_ t
  · exact fun h => .inl h
  · intro l t hl ih h
    rcases List.mem_append.mp h with h | h
    · exact (hedit l hl g h).imp_left (List.mem_append_left t)
    · exact (ih h).imp_left (List.mem_append_right l)
  · intro g' t _ ih h
    rcases List.mem_cons.mp h with rfl | h
    · exact .inl List.mem_cons_self
    · exact (ih h).imp_left (List.mem_cons_of_mem g')

/-- What is lost is lost in an occurrence. -/
theorem mem_editAll (hpat : pat ≠ []) (h : g ∈ t) :
    g ∈ editAll pat edit t ∨ ∃ l, spell l = pat ∧ g ∈ l ∧ g ∉ edit l := by
  revert h
  refine editAll_induction hpat
    (P := fun t t' => g ∈ t → g ∈ t' ∨ ∃ l, spell l = pat ∧ g ∈ l ∧ g ∉ edit l) ?_ ?_ ?_ t
  · exact fun h => .inl h
  · intro l t hl ih h
    rcases List.mem_append.mp h with h | h
    · by_cases hkept : g ∈ edit l
      · exact .inl (List.mem_append_left _ hkept)
      · exact .inr ⟨l, hl, h, hkept⟩
    · exact (ih h).imp_left (List.mem_append_right _)
  · intro g' t _ ih h
    rcases List.mem_cons.mp h with rfl | h
    · exact .inl List.mem_cons_self
    · exact (ih h).imp_left (List.mem_cons_of_mem g')

/-! ### Counting -/

/-- One where the pattern begins, and else zero. -/
def starts (p s : List Char) : Nat := if p.isPrefixOf s then 1 else 0

/-- The number of places at which a pattern begins, up to place `i` and with it. -/
def begun (p : List Char) : Nat → List Char → Nat
  | _, [] => 0
  | 0, c :: s => starts p (c :: s)
  | i + 1, c :: s => starts p (c :: s) + begun p i s

/-- Where a copied character stands, a pattern has begun as often as `count` says for its origin.  In front of
    the glyphs it has begun `k` times. -/
def Counted (p : List Char) (count : Nat → Nat) : Nat → List Glyph → Prop
  | _, [] => True
  | k, g :: t =>
    (∀ i, g.origin = some i → count i = k + starts p (spell (g :: t))) ∧
      Counted p count (k + starts p (spell (g :: t))) t

/-- A text that was not changed is counted at its own places. -/
theorem counted_original (h : ∀ i, count (n + i) = k + begun p i s) : Counted p count k (original n s) := by
  induction s generalizing n k with
  | nil => trivial
  | cons c s ih =>
    rw [original, Counted, spell_cons, spell_original]
    constructor
    · rintro i ⟨⟩
      exact h 0
    · refine ih fun i => ?_
      rw [Nat.add_right_comm, Nat.add_assoc, h (i + 1), begun, Nat.add_assoc]

/-- At a place of the plain text, the pattern has begun as often as `count` says. -/
theorem Counted.count_eq (h : Counted p count k t) (hj : t[j]? = some g) (hi : g.origin = some i) :
    count i = k + begun p j (spell t) := by
  induction t generalizing j k with
  | nil => cases hj
  | cons g' t ih =>
    cases j with
    | zero =>
      cases hj
      exact h.1 i hi
    | succ j => rw [ih h.2 hj, spell_cons, begun, Nat.add_assoc]

/-- As long as no occurrence lies across the seam, two parts are counted one after the other. -/
theorem counted_append (h : Apart p (spell l) (spell t)) : Counted p count k (l ++ t) ↔
    Counted p count k l ∧ Counted p count (k + occurrences p (spell l)) t := by
  induction l generalizing k with
  | nil => simp [Counted, occurrences]
  | cons g l ih =>
    rw [spell_cons] at h
    have hstarts : starts p (spell (g :: (l ++ t))) = starts p (spell (g :: l)) := by
      rw [starts, starts, spell_cons, spell_append, h.isPrefixOf_eq, spell_cons]
    rw [List.cons_append, Counted, Counted, hstarts, ih h.of_cons, and_assoc, spell_cons, occurrences,
      ← Nat.add_assoc]
    rfl

/-- Where no occurrence begins, the count does not change. -/
theorem counted_of_not_infix (h : ¬ p <:+: spell l) :
    Counted p count k l ↔ ∀ g ∈ l, ∀ i, g.origin = some i → count i = k := by
  induction l with
  | nil => simp [Counted]
  | cons g l ih =>
    rw [spell_cons, List.infix_cons_iff, not_or] at h
    have hstarts : starts p (spell (g :: l)) = 0 := by
      rw [starts, spell_cons, if_neg]
      exact fun hprefix => h.1 (List.isPrefixOf_iff_prefix.mp hprefix)
    rw [Counted, hstarts, Nat.add_zero, ih h.2, List.forall_mem_cons]

/-- In a new text there is no copied character at which to count. -/
theorem counted_fresh : Counted p count k (fresh s) := by
  induction s generalizing k with
  | nil => trivial
  | cons c s ih =>
    refine ⟨?_, ih⟩
    rintro i ⟨⟩

/-- An edit that leaves a pattern alone keeps its count. -/
theorem Counted.editAll (h : Counted p count k t) (hleaves : Leaves p pat rep) (hself : Leaves p pat pat)
    (hedit : ∀ l, spell l = pat → spell (edit l) = rep) (hcopies : Copies pat edit) :
    Counted p count k (editAll pat edit t) := by
  have hpat := hleaves.ne_nil.2
  have hnone : ∀ {r}, ¬ p <:+: r → occurrences p r = 0 := (occurrences_eq_zero_iff hleaves.ne_nil.1).mpr
  revert h
  refine editAll_induction hpat (P := fun t t' => ∀ k, Counted p count k t → Counted p count k t') ?_ ?_ ?_
    t k
  · exact fun k h => h
  · intro l t hl ih k h
    rw [counted_append (hl ▸ hself.apart _), hl, hnone hself.not_infix,
      counted_of_not_infix (hl ▸ hself.not_infix)] at h
    rw [counted_append (hedit l hl ▸ hleaves.apart _), hedit l hl, hnone hleaves.not_infix,
      counted_of_not_infix (hedit l hl ▸ hleaves.not_infix)]
    refine ⟨fun g hg i hi => ?_, ih _ h.2⟩
    rcases hcopies l hl g hg with hmem | hnew
    · exact h.1 g hmem i hi
    · rw [hnew] at hi
      cases hi
  · intro g t hmiss ih k h
    have hstarts : starts p (spell (g :: Text.editAll pat edit t)) = starts p (spell (g :: t)) := by
      rw [starts, starts, spell_cons, spell_cons, spell_editAll hpat hedit, hleaves.isPrefixOf_eq hself]
    rw [Counted, hstarts]
    exact ⟨h.1, ih _ h.2⟩

/-- At every glyph of an occurrence, the pattern has begun once more. -/
theorem Counted.of_spell_eq (h : Counted pat rank k l) (hsharp : Sharp pat) (hl : spell l = pat)
    (hg : g ∈ l) (hi : g.origin = some i) : rank i = k + 1 := by
  obtain ⟨c, q, rfl, hc⟩ := hsharp
  cases l with
  | nil => cases hg
  | cons g' l =>
    have hstarts : starts (c :: q) (spell (g' :: l)) = 1 := by
      rw [starts, hl, List.isPrefixOf_iff_prefix.mpr List.prefix_rfl, if_pos rfl]
    have hrest : spell l = q := (List.cons_eq_cons.mp hl).2
    have hnot : ¬ c :: q <:+: spell l := fun hin => hc (hrest ▸ hin.mem List.mem_cons_self)
    rw [Counted, hstarts, counted_of_not_infix hnot] at h
    rcases List.mem_cons.mp hg with rfl | hg
    · exact h.1 i hi
    · exact h.2 g hg i hi

/-- Where an edit writes one more `c` in front of each occurrence, every `c` is counted and every occurrence
    that has begun. -/
theorem Counted.editAll_add {x : List Char} {kept : List Glyph → List Glyph} (h : Counted [c] count n t)
    (hrank : Counted pat rank k t) (hsharp : Sharp pat) (hpat : c ∉ pat) (hx : occurrences [c] x = 1)
    (hkept : ∀ l, spell l = pat → c ∉ spell (kept l)) (hcopies : Copies pat kept) :
    Counted [c] (fun i => count i + rank i) (n + k)
      (Text.editAll pat (fun l => fresh x ++ kept l) t) := by
  have hnot : ∀ {s}, c ∉ s → ¬ [c] <:+: s := fun hs hin => hs (hin.mem List.mem_cons_self)
  revert h hrank
  refine editAll_induction hsharp.ne_nil (P := fun t t' => ∀ n k, Counted [c] count n t →
    Counted pat rank k t → Counted [c] (fun i => count i + rank i) (n + k) t') ?_ ?_ ?_ t n k
  · exact fun n k _ _ => trivial
  · intro l t hl ih n k h hrank
    rw [counted_append apart_singleton, hl, occurrences_of_not_mem hpat,
      counted_of_not_infix (hl ▸ hnot hpat)] at h
    rw [counted_append (hl ▸ hsharp.apart_right), hl, hsharp.occurrences_self] at hrank
    rw [counted_append apart_singleton, counted_append apart_singleton, spell_append, spell_fresh,
      occurrences_append apart_singleton, hx, occurrences_of_not_mem (hkept l hl),
      counted_of_not_infix (hnot (hkept l hl))]
    refine ⟨⟨counted_fresh, fun g hg i hi => ?_⟩, ?_⟩
    · rcases hcopies l hl g hg with hmem | hnew
      · rw [h.1 g hmem i hi, hrank.1.of_spell_eq hsharp hl hmem hi, Nat.add_assoc]
      · rw [hnew] at hi
        cases hi
    · have hrest := ih n (k + 1) h.2 hrank.2
      rwa [← Nat.add_assoc] at hrest
  · intro g t hmiss ih n k h hrank
    have hstarts : starts pat (spell (g :: t)) = 0 := by
      rw [starts, if_neg]
      exact fun hprefix => hmiss (List.isPrefixOf_iff_prefix.mp hprefix)
    -- Whether a single character is there does not depend on what follows.
    have hsame : ∀ t', starts [c] (spell (g :: t')) = starts [c] [g.char] := fun t' => by
      simp [starts, List.isPrefixOf]
    rw [Counted, hsame] at h ⊢
    rw [Counted, hstarts, Nat.add_zero] at hrank
    refine ⟨fun i hi => ?_, ?_⟩
    · simp only [h.1 i hi, hrank.1 i hi]
      omega
    · have hrest := ih _ k h.2 hrank.2
      rwa [Nat.add_right_comm] at hrest

end ShaderKit.Text
