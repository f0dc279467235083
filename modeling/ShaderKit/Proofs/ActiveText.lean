import ShaderKit.Proofs.EntryPoints
import ShaderKit.Proofs.Uncommented

namespace ShaderKit.Split

open Text

/-!
# The active text of a stage

What a stage's compiler sees is the text of the stage without its comments.  Here the combined text may
hold comments, as long as both entry points are outside of them, and the vertex entry point comes first.

* `Sections`            — a combined text, cut at its entry points
* `uncommentedBehind`   — what is left of a text that stands behind another one
* `Sections.vertexText_eq`, `Sections.pixelText_eq` — the texts of the stages, section by section
* `split_active_text`   — the active text of both stages, if the section that is suppressed holds no `*/`
* `Suppressed`          — what becomes of a section in a block comment
* `suppressed_sections` — the section that is suppressed comes alive behind its first `*/`
-/

variable {dialect : Dialect} {a b c s u w : List Char}

/-- A combined text, cut at its entry points.  Each of them is there once, outside comments and not right
    behind a slash, and the vertex entry point comes first. -/
structure Sections (s a b c : List Char) : Prop where
  eq : s = a ++ (mark .vertex ++ (b ++ (mark .pixel ++ c)))
  once : ∀ stage, occurrences (mark stage) s = 1
  vertex_outside : (scan .code a).outside = true
  vertex_seam : a.getLast? ≠ some '/'
  pixel_outside : (scan .code (a ++ (mark .vertex ++ b))).outside = true
  pixel_seam : (a ++ (mark .vertex ++ b)).getLast? ≠ some '/'

instance : Decidable (Sections s a b c) :=
  decidable_of_iff (s = a ++ (mark .vertex ++ (b ++ (mark .pixel ++ c))) ∧
      (∀ stage ∈ Stage.all, occurrences (mark stage) s = 1) ∧
      ((scan .code a).outside = true ∧ a.getLast? ≠ some '/') ∧
      (scan .code (a ++ (mark .vertex ++ b))).outside = true ∧
      (a ++ (mark .vertex ++ b)).getLast? ≠ some '/')
    ⟨fun ⟨heq, honce, hvertex, hpixel⟩ =>
        ⟨heq, fun stage => honce stage stage.mem_all, hvertex.1, hvertex.2, hpixel.1, hpixel.2⟩,
      fun h => ⟨h.eq, fun stage _ => h.once stage, ⟨h.vertex_outside, h.vertex_seam⟩, h.pixel_outside,
        h.pixel_seam⟩⟩

/-- What is left of a text that stands behind another one. -/
def uncommentedBehind (front s : List Char) : List Char := uncommentedFrom (scan .code front) s

namespace Sections

/-! ### The texts of the stages -/

theorem unmarked (h : Sections s a b c) : Unmarked a ∧ Unmarked b ∧ Unmarked c := by
  have hcount : ∀ stage, occurrences (mark stage) a = 0 ∧ occurrences (mark stage) b = 0 ∧
      occurrences (mark stage) c = 0 := by
    intro stage
    have hmark := mark_mem_entries .hlsl stage
    have hone := h.once stage
    rw [h.eq, (piece_mark _).occurrences_eq hmark, (piece_mark _).occurrences_eq hmark] at hone
    have hpair : occurrences (mark stage) (mark .vertex) + occurrences (mark stage) (mark .pixel) = 1 := by
      cases stage <;> decide
    omega
  have hne : ∀ stage, mark stage ≠ [] := fun stage => ne_nil_of_mem (mark_mem_entries .hlsl stage)
  exact ⟨fun stage => (occurrences_eq_zero_iff (hne stage)).mp (hcount stage).1,
    fun stage => (occurrences_eq_zero_iff (hne stage)).mp (hcount stage).2.1,
    fun stage => (occurrences_eq_zero_iff (hne stage)).mp (hcount stage).2.2⟩

theorem vertexText_eq (h : Sections s a b c) : vertexText dialect s =
    (a ++ (entry dialect .vertex ++ b)) ++ (opening ++ (mark .pixel ++ (c ++ closing))) := by
  obtain ⟨ha, hb, hc⟩ := h.unmarked
  rw [Split.vertexText_eq, h.eq, replaceAll_marks .vertex (by decide) ha hb hc]
  simp only [written, mark, List.append_assoc]

theorem pixelText_eq (h : Sections s a b c) (hshared : shared dialect s = s) : pixelText dialect s =
    a ++ (opening ++ (mark .vertex ++ (b ++ (closing ++ (entry dialect .pixel ++ c))))) := by
  obtain ⟨ha, hb, hc⟩ := h.unmarked
  rw [Split.pixelText_eq, hshared, h.eq, replaceAll_marks .pixel (by decide) ha hb hc]
  simp only [written, mark, List.append_assoc]

/-! ### Where the reader is -/

theorem scan_front (h : Sections s a b c) : scan .code a = .code :=
  Mode.eq_code h.vertex_outside (scan_ne_slash (by decide) h.vertex_seam)

theorem scan_active (h : Sections s a b c) : scan .code (a ++ (entry dialect .vertex ++ b)) = .code := by
  have hmiddle : scan .code (a ++ (mark .vertex ++ b)) = .code :=
    Mode.eq_code h.pixel_outside (scan_ne_slash (by decide) h.pixel_seam)
  have hmark : scan .code (mark .vertex) = .code := by decide
  have hentry : scan .code (entry dialect .vertex) = .code := by cases dialect <;> decide
  rw [scan_append, scan_append, h.scan_front, hmark] at hmiddle
  rw [scan_append, scan_append, h.scan_front, hentry, hmiddle]

end Sections

/-! ### In a block comment -/

theorem uncommented_opening (stage : Stage) (s : List Char) :
    uncommented (opening ++ (mark stage ++ s)) = uncommentedInBlock s := by
  cases stage <;> rfl

theorem uncommentedInBlock_closing (h : ¬ ['*', '/'] <:+: u) :
    uncommentedInBlock (u ++ (closing ++ s)) = '\n' :: uncommented s := by
  rw [show closing ++ s = '*' :: '/' :: '\n' :: s from rfl, uncommentedInBlock_append_end h,
    uncommented_cons (by decide)]

/-- **The active text of both stages.**  If the section of the pixel stage holds no `*/`, the vertex stage
    sees what comes in front of it, with its own entry point.  If the section of the vertex stage holds
    none, the pixel stage sees what comes in front of that and what comes behind it. -/
theorem split_active_text (combined : String) (h : Sections combined.toList a b c) :
    (¬ ['*', '/'] <:+: c → uncommented (split dialect combined).vertex.toList =
      uncommented (a ++ (entry dialect .vertex ++ b)) ++ ['\n']) ∧
    (¬ ['*', '/'] <:+: b → (dialect = .glsl → ¬ attributeWord <:+: combined.toList) →
      uncommented (split dialect combined).pixel.toList =
        uncommented a ++ '\n' :: uncommented (entry dialect .pixel ++ c)) := by
  constructor
  · intro hc
    have hclosing := uncommentedInBlock_closing (s := []) hc
    rw [List.append_nil] at hclosing
    rw [toList_vertex, h.vertexText_eq, uncommented_append h.scan_active, uncommented_opening, hclosing]
    rfl
  · intro hb hattribute
    have hshared : shared dialect combined.toList = combined.toList := by
      cases dialect with
      | glsl => exact replaceAll_of_not_infix (hattribute rfl)
      | hlsl => rfl
    rw [toList_pixel, h.pixelText_eq hshared, uncommented_append h.scan_front, uncommented_opening,
      uncommentedInBlock_closing hb]

/-- A combined text with a comment in each of its sections. -/
def commented : String := "/* both */ float x;\nvoid VS(); // v\nvoid PS(); // p\n"

/-- What this text has in front of the vertex entry point, and behind either entry point. -/
def commentedFront : List Char := "/* both */ float x;\n".toList
def commentedVertex : List Char := "); // v\n".toList
def commentedPixel : List Char := "); // p\n".toList

/-- Comments may stand in every section, as long as the one that is suppressed holds no `*/`. -/
theorem split_active_text_commented :
    Sections commented.toList commentedFront commentedVertex commentedPixel ∧
      uncommented (split .glsl commented).vertex.toList = " float x;\nvoid main(); \n\n".toList ∧
      uncommented (split .hlsl commented).pixel.toList = " float x;\n\nvoid PS(); \n".toList := by
  have h : Sections commented.toList commentedFront commentedVertex commentedPixel := by decide
  have hvertex : ¬ ['*', '/'] <:+: commentedVertex := by decide
  have hpixel : ¬ ['*', '/'] <:+: commentedPixel := by decide
  refine ⟨h, ?_, ?_⟩
  · rw [(split_active_text commented h).1 hpixel]
    decide
  · rw [(split_active_text commented h).2 hvertex (by decide)]
    decide

/-! ### Comments in the section that is suppressed -/

/-- What is left of a section that stands behind the beginning of a block comment, and of what should end
    this comment: if the section holds no `*/`, just the line feed, and else all that is outside comments
    behind the first one. -/
structure Suppressed (front s : List Char) : Prop where
  inert : ¬ ['*', '/'] <:+: s → uncommentedBehind front (s ++ closing) = ['\n']
  alive : ∀ u w, s = u ++ '*' :: '/' :: w → ¬ ['*', '/'] <:+: u →
    uncommentedBehind front (s ++ closing) = uncommented (w ++ closing)

theorem suppressed_of_scan {front : List Char} (h : scan .code front = .block) : Suppressed front s := by
  have hleft : ∀ t, uncommentedBehind front t = uncommentedInBlock t := by
    intro t
    rw [uncommentedBehind, h, uncommentedFrom]
  constructor
  · intro hs
    have hclosing := uncommentedInBlock_closing (s := []) hs
    rwa [List.append_nil, ← hleft] at hclosing
  · rintro u w rfl hu
    rw [hleft, List.append_assoc]
    exact uncommentedInBlock_append_end hu

/-- **The suppressed section.**  In the text of either stage, the section of the other one stands behind the
    beginning of a block comment and in front of what should end it.  If it holds no `*/`, nothing of it is
    left.  But block comments do not nest: behind the first `*/` it comes alive. -/
theorem suppressed_sections (combined : String) (h : Sections combined.toList a b c) :
    ((split .hlsl combined).vertex.toList =
        (a ++ (mark .vertex ++ (b ++ opening))) ++ ((mark .pixel ++ c) ++ closing) ∧
      Suppressed (a ++ (mark .vertex ++ (b ++ opening))) (mark .pixel ++ c)) ∧
    ((split .hlsl combined).pixel.toList =
        (a ++ opening) ++ ((mark .vertex ++ b) ++ (closing ++ (mark .pixel ++ c))) ∧
      Suppressed (a ++ opening) (mark .vertex ++ b)) := by
  have hopening : scan .code opening = .block := by decide
  refine ⟨⟨?_, suppressed_of_scan ?_⟩, ?_, suppressed_of_scan ?_⟩
  · rw [toList_vertex, h.vertexText_eq, entry_hlsl]
    simp only [List.append_assoc]
  · have hactive : scan .code (a ++ (entry .hlsl .vertex ++ b)) = .code := h.scan_active
    rw [entry_hlsl] at hactive
    have hassoc : a ++ (mark .vertex ++ (b ++ opening)) = (a ++ (mark .vertex ++ b)) ++ opening := by simp
    rw [hassoc, scan_append, hactive, hopening]
  · rw [toList_pixel, h.pixelText_eq rfl, entry_hlsl]
    simp only [List.append_assoc]
  · rw [scan_append, h.scan_front, hopening]

/-- A combined text with a block comment in the section of the pixel stage. -/
def commentedInPixel : String := "void VS() \x7b \x7d\nvoid PS() \x7b /* c */ float y; \x7d\n"

/-- The end of this comment ends the comment around it, and the rest of the pixel stage is left in the text
    of the vertex stage. -/
theorem suppressed_sections_comment :
    Sections commentedInPixel.toList [] ") \x7b \x7d\n".toList ") \x7b /* c */ float y; \x7d\n".toList ∧
      Closed commentedInPixel.toList ∧
      uncommentedBehind "void VS() \x7b \x7d\n/* ".toList "void PS() \x7b /* c */ float y; \x7d\n*/\n".toList =
        " float y; \x7d\n*/\n".toList := by
  have h : Sections commentedInPixel.toList [] ") \x7b \x7d\n".toList
      ") \x7b /* c */ float y; \x7d\n".toList := by
    decide
  have hu : ¬ ['*', '/'] <:+: "void PS() \x7b /* c ".toList := by decide
  have hleft := (suppressed_sections commentedInPixel h).1.2.alive "void PS() \x7b /* c ".toList
    " float y; \x7d\n".toList (by decide) hu
  refine ⟨h, by decide, ?_⟩
  have hrest : uncommented (" float y; \x7d\n".toList ++ closing) = " float y; \x7d\n*/\n".toList := by
    decide
  rw [hrest] at hleft
  exact hleft

end ShaderKit.Split
