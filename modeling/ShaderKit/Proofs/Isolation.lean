import ShaderKit.Proofs.EntryPoints

namespace ShaderKit.Split

open Text

/-!
# Isolation of the stages

Whatever a combined text looks like, the entry points of the other stage are in comments in the text of a
stage, and in the pixel stage of Glsl the attributes are.  The texts of the stages begin a comment in front
of each of them, and a reader takes that for the beginning of a comment or is in one already: except right
behind a star, where a slash may end a comment.

* `Hidden`           — a pattern is in comments wherever it occurs
* `Behind`           — wherever a pattern occurs, another text stands in front of it, not behind a star
* `Behind.hidden`    — a pattern behind the beginning of a comment is hidden
* `Behind.replaceAll`, `Behind.replaceAll_self` — what stands in front of a pattern after replacing
* `stages_isolated`  — the isolation of the stages
-/

variable {dialect : Dialect} {stage i : Stage} {b o p pat rep s : List Char}

/-- Every occurrence of the pattern is in comments, from its beginning to its end. -/
def Hidden (p s : List Char) : Prop :=
  ∀ u w, s = u ++ (p ++ w) → ∀ x, x <+: p → (scan .code (u ++ x)).outside = false

/-- Every occurrence of the pattern stands right behind this text, which in turn is not right behind a
    star. -/
def Behind (o p s : List Char) : Prop :=
  ∀ u w, s = u ++ (p ++ w) → ∃ v, u = v ++ o ∧ v.getLast? ≠ some '*'

/-- Where no star stands right before the pattern, nothing need stand there. -/
theorem behind_nil (h : ¬ '*' :: p <:+: s) : Behind [] p s := by
  rintro u w rfl
  exact ⟨u, by simp, getLast?_ne_of_not_infix h⟩

/-- Behind a text that leads into a comment from wherever the reader comes, unless a star is pending. -/
theorem Behind.hidden (h : Behind o p s) (ho : ∀ m, m ≠ .star → (scan m o).outside = false)
    (hfeed : '\n' ∉ p) (hslash : '/' ∉ p) : Hidden p s := by
  intro u w heq x hx
  obtain ⟨v, rfl, hlast⟩ := h u w heq
  have hcomment := ho _ (scan_ne_star (m := .code) (by decide) hlast)
  rw [scan_append, scan_append]
  exact scan_outside_eq_false hcomment (fun hmem => hfeed (hx.mem hmem)) (fun hmem => hslash (hx.mem hmem))

/-- A text without the pattern may follow. -/
theorem Behind.append (h : Behind o p s) (hapart : Apart p s b) (hb : ¬ p <:+: b) :
    Behind o p (s ++ b) := by
  intro u w heq
  rcases hapart.eq_or_eq heq with ⟨v, hs, -⟩ | ⟨v, -, hin⟩
  · exact h u v hs
  · exact (hb ⟨v, w, by rw [hin, List.append_assoc]⟩).elim

/-! ### Replacing -/

/-- A replacement that leaves a pattern alone leaves alone what stands in front of it. -/
theorem Behind.replaceAll (h : Behind o p s) (hleaves : Leaves p pat rep)
    (ho : ∀ v, Text.replaceAll pat rep (v ++ o) = Text.replaceAll pat rep v ++ o) :
    Behind o p (Text.replaceAll pat rep s) := by
  intro u w heq
  obtain ⟨hp, hpat⟩ := hleaves.ne_nil
  obtain ⟨c, hhead, hc⟩ := hleaves.head
  rcases replaceAll_eq_append hpat hp hhead hc hleaves.apart heq with
    ⟨u', w', hs, rfl, -⟩ | ⟨-, -, x, y, -, hin, -⟩
  · obtain ⟨v, rfl, hlast⟩ := h u' w' hs
    exact ⟨_, ho v, by rwa [getLast?_replaceAll hpat hleaves.last]⟩
  · exact (hleaves.not_infix ⟨x, y, by rw [hin, List.append_assoc]⟩).elim

/-- A text that can be put in front of a pattern: the pattern does not have its first character, and occurs
    in both together just behind it. -/
structure Opens (o p : List Char) : Prop where
  head : ∃ c, o.head? = some c ∧ c ∉ p.tail
  first : ∃ d, p.head? = some d ∧ d ∉ o
  last : ∃ e, p.getLast? = some e ∧ e ∉ p.dropLast

/-- Where a pattern is written with another text in front, it stands behind that text. -/
theorem Behind.replaceAll_self (h : Behind [] p s) (hopens : Opens o p) :
    Behind o p (Text.replaceAll p (o ++ p) s) := by
  intro u w heq
  obtain ⟨c, hc, htail⟩ := hopens.head
  obtain ⟨d, hd, hnot⟩ := hopens.first
  obtain ⟨e, he, hdrop⟩ := hopens.last
  have hp : p ≠ [] := by
    rintro rfl
    cases hd
  have hhead : (o ++ p).head? = some c := by rw [List.head?_append, hc, Option.some_or]
  have hlast : (o ++ p).getLast? = some e := by rw [List.getLast?_append, he, Option.some_or]
  rcases replaceAll_eq_append hp hp hhead htail (fun _ => apart_of_last hlast hdrop) heq with
    ⟨u', w', -, -, hmiss⟩ | ⟨u', w', x, y, hs, hin, rfl⟩
  · exact (hmiss (List.prefix_append p w')).elim
  · obtain ⟨v, rfl, hstar⟩ := h u' w' hs
    rw [List.append_nil, eq_of_append_eq_append hd hnot hin]
    exact ⟨_, rfl, by rwa [getLast?_replaceAll hp (hlast.trans he.symm)]⟩

/-! ### The words of a combined text -/

/-- An entry point is replaced as it was when a text without the characters of entry points follows. -/
theorem replaceAll_mark_append (ho : o = [] ∨ o.head? = some '/') (hnot : ¬ mark i <:+: o) (v : List Char) :
    Text.replaceAll (mark i) rep (v ++ o) = Text.replaceAll (mark i) rep v ++ o := by
  have hapart : Apart (mark i) v o := by
    rcases ho with rfl | ho
    · exact fun x y _ _ hy _ hnil => hy (List.prefix_nil.mp hnil)
    · obtain ⟨o, rfl⟩ := List.head?_eq_some_iff.mp ho
      exact apart_of_head (not_mem_tail (mark_mem_entries .hlsl i)).2.1
  rw [replaceAll_append hapart, replaceAll_of_not_infix hnot]

/-- The beginning of a block comment may be put before an entry point. -/
theorem opens_mark (stage : Stage) : Opens opening (mark stage) where
  head := ⟨'/', rfl, by cases stage <;> decide⟩
  first := ⟨'v', by cases stage <;> rfl, by decide⟩
  last := ⟨'(', by cases stage <;> rfl, by cases stage <;> decide⟩

/-- The beginning of a line comment may be put before an attribute. -/
theorem opens_attribute : Opens "// ".toList attributeWord where
  head := ⟨'/', rfl, by decide⟩
  first := ⟨'a', rfl, by decide⟩
  last := ⟨' ', rfl, by decide⟩

/-- The beginning of a block comment leads into a comment. -/
theorem scan_opening_outside (m : Mode) (hm : m ≠ .star) : (scan m opening).outside = false := by
  cases m with
  | star => exact (hm rfl).elim
  | code | slash | line | block => decide

/-- The beginning of a line comment leads into a comment. -/
theorem scan_slashes_outside (m : Mode) (hm : m ≠ .star) : (scan m "// ".toList).outside = false := by
  cases m with
  | star => exact (hm rfl).elim
  | code | slash | line | block => decide

/-- An entry point behind the beginning of a block comment is hidden. -/
theorem hidden_mark {stage : Stage} (h : Behind opening (mark stage) s) : Hidden (mark stage) s :=
  h.hidden scan_opening_outside (by cases stage <;> decide) (by cases stage <;> decide)

/-! ### The texts of the stages -/

/-- **The vertex text hides the pixel entry points.** -/
theorem hidden_pixel_vertexText (h : ¬ '*' :: pixelEntry <:+: s) :
    Hidden pixelEntry (vertexText dialect s) := by
  have hrename : Leaves pixelEntry (mark .vertex) (written dialect .vertex .vertex) :=
    (piece_written _ _).leaves .vertex (by decide) (by decide) (by cases dialect <;> decide)
  have hrenamed := (behind_nil h).replaceAll hrename (fun v => by simp)
  have hopened := hrenamed.replaceAll_self (opens_mark .pixel)
  have htext : Behind opening (mark .pixel) (vertexText dialect s) := by
    rw [vertexText_eq]
    exact hopened.append (apart_of_head (by decide)) (by decide)
  exact hidden_mark htext

/-- **The pixel text hides the vertex entry points.** -/
theorem hidden_vertex_pixelText (h : ¬ '*' :: vertexEntry <:+: s) :
    Hidden vertexEntry (pixelText dialect s) := by
  have hclose : Leaves vertexEntry (mark .pixel) (written dialect .pixel .pixel) :=
    (piece_written _ _).leaves .pixel (by decide) (by decide) (by cases dialect <;> decide)
  have hshared : Behind [] (mark .vertex) (shared dialect s) := by
    cases dialect with
    | glsl =>
      have hattribute := leaves_attribute_entry (mark_mem_entries .glsl .vertex)
      exact (behind_nil h).replaceAll hattribute (fun v => by simp)
    | hlsl => exact behind_nil h
  have hopened := hshared.replaceAll_self (opens_mark .vertex)
  have hclosed := hopened.replaceAll hclose (replaceAll_mark_append (.inr rfl) (by decide))
  have htext : Behind opening (mark .vertex) (pixelText dialect s) := by
    rw [pixelText_eq]
    exact hclosed
  exact hidden_mark htext

/-- **The pixel text of Glsl hides the attributes.** -/
theorem hidden_attribute_pixelText (h : ¬ '*' :: attributeWord <:+: s) :
    Hidden attributeWord (pixelText .glsl s) := by
  have hleaves : ∀ i, Leaves attributeWord (mark i) (written .glsl .pixel i) := fun i =>
    (piece_written _ i).leaves i (by decide) (by decide) (by cases i <;> decide)
  have hshared := (behind_nil h).replaceAll_self opens_attribute
  have hopened := hshared.replaceAll (hleaves .vertex)
    (replaceAll_mark_append (.inr rfl) (by decide))
  have hclosed := hopened.replaceAll (hleaves .pixel)
    (replaceAll_mark_append (.inr rfl) (by decide))
  have htext : Behind "// ".toList attributeWord (pixelText .glsl s) := by
    rw [pixelText_eq]
    exact hclosed
  exact htext.hidden scan_slashes_outside (by decide) (by decide)

/-- **Isolation of the stages.**  In a combined text in which no star stands right in front of an entry point
    or an attribute, however often these occur and wherever comments begin and end, the pixel entry points
    are in comments in the text of the vertex stage, the vertex entry points are in the text of the pixel
    stage, and in Glsl the attributes are in the text of the pixel stage. -/
theorem stages_isolated (dialect : Dialect) (combined : String)
    (h : ∀ p ∈ [vertexEntry, pixelEntry, attributeWord], ¬ '*' :: p <:+: combined.toList) :
    Hidden pixelEntry (split dialect combined).vertex.toList ∧
      Hidden vertexEntry (split dialect combined).pixel.toList ∧
      (dialect = .glsl → Hidden attributeWord (split dialect combined).pixel.toList) := by
  rw [toList_vertex, toList_pixel]
  refine ⟨hidden_pixel_vertexText (h _ (by simp)), hidden_vertex_pixelText (h _ (by simp)), ?_⟩
  rintro rfl
  exact hidden_attribute_pixelText (h _ (by simp))

/-- A combined text with its words in any order, in comments and right behind a slash, the last comment
    being open. -/
def unruly : String := "/void PS( // void VS(\nattribute void VS( /* void PS( */ attribute void PS( /* void VS("

/-- So all of it is isolated, in both dialects. -/
theorem stages_isolated_unruly :
    (∀ p ∈ [vertexEntry, pixelEntry, attributeWord], ¬ '*' :: p <:+: unruly.toList) ∧
      Hidden pixelEntry (split .hlsl unruly).vertex.toList ∧
      Hidden vertexEntry (split .glsl unruly).pixel.toList ∧
      Hidden attributeWord (split .glsl unruly).pixel.toList := by
  have h : ∀ p ∈ [vertexEntry, pixelEntry, attributeWord], ¬ '*' :: p <:+: unruly.toList := by
    decide +kernel
  obtain ⟨hpixel, -, -⟩ := stages_isolated .hlsl unruly h
  obtain ⟨-, hvertex, hattribute⟩ := stages_isolated .glsl unruly h
  exact ⟨h, hpixel, hvertex, hattribute rfl⟩

end ShaderKit.Split
