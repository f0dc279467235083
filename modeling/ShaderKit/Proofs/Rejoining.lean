import ShaderKit.Proofs.EntryPoints

namespace ShaderKit.Split

open Text

/-!
# Splitting loses nothing

The texts of the stages are made by replacing alone.  Where what is written for an entry point or an
attribute is nowhere in the text that it is written into, it can be found again and taken back, and then the
text of either stage gives back the combined text.

* `rejoined`            — the combined text that the text of a stage comes from
* `replaceAll_written`  — what was written for an entry point is taken back
* `split_loses_nothing` — the text of each stage gives back the combined text

Only the name that entry points have in Glsl may stand in a combined text without being written there, so a
combined text for Glsl must not hold it.
-/

variable {dialect : Dialect} {stage i : Stage} {s : List Char}

/-- The combined text that a text of the vertex stage comes from: the comment at its end loses its closer and
    its openers, and in Glsl the entry point gets its own name back. -/
def joinedVertex (dialect : Dialect) (text : List Char) : List Char :=
  let active := replaceAll (opening ++ pixelEntry) pixelEntry (text.take (text.length - closing.length))
  match dialect with
  | .glsl => replaceAll mainEntry vertexEntry active
  | .hlsl => active

/-- The combined text that a text of the pixel stage comes from: the comments lose their closers and then their
    openers, and in Glsl the attributes lose the slashes in front of them. -/
def joinedPixel (dialect : Dialect) (text : List Char) : List Char :=
  match dialect with
  | .glsl =>
    let opened := replaceAll (closing ++ mainEntry) pixelEntry text
    replaceAll ("// ".toList ++ attributeWord) attributeWord
      (replaceAll (opening ++ vertexEntry) vertexEntry opened)
  | .hlsl =>
    let opened := replaceAll (closing ++ pixelEntry) pixelEntry text
    replaceAll (opening ++ vertexEntry) vertexEntry opened

/-- The combined text that the text of a stage comes from. -/
def rejoined (dialect : Dialect) (stage : Stage) (text : String) : String :=
  String.ofList (match stage with
    | .vertex => joinedVertex dialect text.toList
    | .pixel => joinedPixel dialect text.toList)

/-! ### What was written is taken back -/

/-- An entry point behind a text that opens or closes a comment, or behind nothing. -/
theorem replaceAll_behind {a p : List Char} (ha : a = [] ∨ a = opening ∨ a = closing)
    (hp : p ∈ entries dialect) (honly : p = mark i ∨ ¬ p <:+: s) :
    replaceAll (a ++ p) (mark i) (replaceAll (mark i) (a ++ p) s) = s := by
  have hfirst : p.head? = some 'v' := by
    rw [eq_cons_tail hp]
    rfl
  obtain ⟨hentry, hslash, hstar⟩ := not_mem_tail hp
  have hapart : ∀ b, Apart p (a ++ p) b := fun b => by
    refine apart_of_last ?_ (not_mem_dropLast hp)
    rw [List.getLast?_append, getLast?_of_mem hp, Option.some_or]
  have hbefore : ∀ u w, s = u ++ (p ++ w) → mark i <+: p ++ w := by
    rintro u w rfl
    rcases honly with rfl | hnot
    · exact List.prefix_append _ w
    · exact (hnot ⟨u, w, List.append_assoc u p w⟩).elim
  have hmark := ne_nil_of_mem (mark_mem_entries .hlsl i)
  rcases ha with rfl | rfl | rfl
  · exact replaceAll_undo hmark hfirst hentry hfirst List.not_mem_nil hapart hbefore
  · exact replaceAll_undo hmark rfl hslash hfirst (by decide) hapart hbefore
  · exact replaceAll_undo hmark rfl hstar hfirst (by decide) hapart hbefore

/-- **What was written for an entry point is taken back.**  In its own stage the entry point may have got
    another name, which must not have stood in the text before. -/
theorem replaceAll_written (h : stage = i → dialect = .glsl → ¬ mainEntry <:+: s) :
    replaceAll (written dialect stage i) (mark i) (replaceAll (mark i) (written dialect stage i) s) = s := by
  have hmark := mark_mem_entries dialect i
  have hentry : entry dialect i ∈ entries dialect :=
    List.mem_append_right _ (List.mem_map_of_mem i.mem_all)
  have hown (hi : stage = i) : entry dialect i = mark i ∨ ¬ entry dialect i <:+: s := by
    cases dialect with
    | hlsl => exact .inl (entry_hlsl i)
    | glsl =>
      rw [entry_glsl]
      exact .inr (h hi rfl)
  cases stage <;> cases i
  case vertex.vertex => exact replaceAll_behind (a := []) (.inl rfl) hentry (hown rfl)
  case vertex.pixel => exact replaceAll_behind (.inr (.inl rfl)) hmark (.inl rfl)
  case pixel.vertex => exact replaceAll_behind (.inr (.inl rfl)) hmark (.inl rfl)
  case pixel.pixel => exact replaceAll_behind (.inr (.inr rfl)) hentry (hown rfl)

/-- The slashes in front of the attributes are taken back. -/
theorem replaceAll_attribute (s : List Char) : replaceAll ("// ".toList ++ attributeWord) attributeWord
    (replaceAll attributeWord ("// ".toList ++ attributeWord) s) = s := by
  refine replaceAll_undo attribute_ne_nil (c := '/') rfl (by decide) (d := 'a') rfl (by decide) ?_ ?_
  · exact fun b => apart_of_last (c := ' ') rfl (by decide)
  · exact fun u w _ => List.prefix_append attributeWord w

/-! ### The texts of the stages -/

theorem joinedVertex_eq (body : List Char) : joinedVertex dialect (body ++ closing) =
    replaceAll (written dialect .vertex .vertex) (mark .vertex)
      (replaceAll (written dialect .vertex .pixel) (mark .pixel) body) := by
  have htake : (body ++ closing).take ((body ++ closing).length - closing.length) = body := by simp
  cases dialect with
  | glsl => simp only [joinedVertex, htake, mark, written, entry_glsl]
  | hlsl =>
    have hself := replaceAll_self (ne_nil_of_mem (mark_mem_entries .hlsl .vertex))
    simp only [mark] at hself
    simp only [joinedVertex, htake, mark, written, entry_hlsl, hself]

theorem joinedVertex_vertexText (h : dialect = .glsl → ¬ mainEntry <:+: s) :
    joinedVertex dialect (vertexText dialect s) = s := by
  rw [vertexText_eq, joinedVertex_eq, replaceAll_written (fun hne => by cases hne),
    replaceAll_written fun _ => h]

/-- What the pixel stage takes over from a combined text gives it back. -/
theorem joinedPixel_pixelText (h : dialect = .glsl → ¬ mainEntry <:+: s) :
    joinedPixel dialect (pixelText dialect s) = s := by
  have hopened : dialect = .glsl → ¬ mainEntry <:+:
      replaceAll (mark .vertex) (written dialect .pixel .vertex) (shared dialect s) := by
    rintro rfl
    have hmain : mainEntry ∈ entries .glsl := by decide
    have hleaves : Leaves mainEntry (mark .vertex) (written .glsl .pixel .vertex) :=
      (piece_written _ _).leaves .vertex (not_mem_tail hmain) (not_mem_dropLast hmain) (by decide)
    exact hleaves.not_infix_replaceAll ((leaves_attribute_entry hmain).not_infix_replaceAll (h rfl))
  have hpixel : replaceAll (written dialect .pixel .pixel) (mark .pixel) (replaceAll (mark .pixel)
      (written dialect .pixel .pixel) _) = _ := replaceAll_written fun _ => hopened
  have hvertex : replaceAll (written dialect .pixel .vertex) (mark .vertex) (replaceAll (mark .vertex)
      (written dialect .pixel .vertex) (shared dialect s)) = _ :=
    replaceAll_written fun hne => by cases hne
  rw [pixelText_eq]
  cases dialect with
  | glsl =>
    simp only [written, mark, entry_glsl, shared] at hpixel hvertex
    simp only [joinedPixel, written, mark, entry_glsl, shared, hpixel, hvertex, replaceAll_attribute]
  | hlsl =>
    simp only [written, mark, entry_hlsl, shared] at hpixel hvertex
    simp only [joinedPixel, written, mark, entry_hlsl, shared, hpixel, hvertex]

theorem rejoined_split (stage : Stage) (combined : String)
    (h : dialect = .glsl → ¬ mainEntry <:+: combined.toList) :
    rejoined dialect stage ((split dialect combined).get stage) = combined := by
  cases stage with
  | vertex => rw [rejoined, StageSources.get, toList_vertex, joinedVertex_vertexText h, String.ofList_toList]
  | pixel => rw [rejoined, StageSources.get, toList_pixel, joinedPixel_pixelText h, String.ofList_toList]

/-- **Splitting loses nothing.**  The text of the vertex stage ends with the closer of a comment.  Without it,
    and with what was written for entry points and attributes taken back, the text of either stage is the
    combined text, whatever that is in Hlsl, and as long as it does not hold `void main(` in Glsl.  So no two
    such combined texts have the same text for a stage. -/
theorem split_loses_nothing (dialect : Dialect) (stage : Stage) (combined : String)
    (h : dialect = .glsl → ¬ mainEntry <:+: combined.toList) :
    closing <:+ (split dialect combined).vertex.toList ∧
      rejoined dialect stage ((split dialect combined).get stage) = combined ∧
      ∀ other : String, (dialect = .glsl → ¬ mainEntry <:+: other.toList) →
        (split dialect other).get stage = (split dialect combined).get stage → other = combined := by
  have hback := rejoined_split stage combined h
  refine ⟨?_, hback, fun other hother heq => ?_⟩
  · rw [toList_vertex, vertexText_eq]
    exact List.suffix_append _ closing
  · calc other = rejoined dialect stage ((split dialect other).get stage) :=
          (rejoined_split stage other hother).symm
      _ = rejoined dialect stage ((split dialect combined).get stage) := by rw [heq]
      _ = combined := hback

/-- A combined text that already holds what is written for entry points and attributes, and parts of it. -/
def alreadySplit : String := "/* void PS(*/\nvoid PS(/* /* void VS(void VS(// attribute /attribute "

theorem split_loses_nothing_already :
    ¬ mainEntry <:+: alreadySplit.toList ∧
      rejoined .glsl .vertex (split .glsl alreadySplit).vertex = alreadySplit ∧
      rejoined .glsl .pixel (split .glsl alreadySplit).pixel = alreadySplit := by
  have h : ¬ mainEntry <:+: alreadySplit.toList := by decide +kernel
  obtain ⟨-, hvertex, -⟩ := split_loses_nothing .glsl .vertex alreadySplit fun _ => h
  obtain ⟨-, hpixel, -⟩ := split_loses_nothing .glsl .pixel alreadySplit fun _ => h
  exact ⟨h, hvertex, hpixel⟩

/-- The name of the entry points in Glsl is taken for what was written. -/
example : rejoined .glsl .vertex (split .glsl "void main()").vertex = "void VS()" := by
  decide

end ShaderKit.Split
