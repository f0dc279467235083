import ShaderKit.Proofs.Copies
import ShaderKit.Proofs.EntryPoints

namespace ShaderKit.Split

open Text

/-!
# Line numbers in the texts of the stages

A compiler reports the lines of the text that it is given, and an author looks for them in the combined
text.  The text of the vertex stage has every character on the line where the author wrote it.  In the text
of the pixel stage a line feed is put in front of each pixel entry point.

* `lineOf`          — the line on which a character stands
* `own`, `writtenCopy`, `sharedCopy` — what is written for an entry point and shared by the stages, with the
                      origin of each character
* `copied`          — the text of a stage, with the origin of each character
* `spell_copied`    — this is the text of the stage
* `shift`           — how many lines lower a character stands
* `stage_lines`     — on which line each character of a combined text stands
-/

variable {dialect : Dialect} {stage i : Stage} {p s : List Char} {c : Char} {j k : Nat} {g : Glyph}
  {l t : List Glyph}

/-- The number of the line on which the character at a place stands, from zero. -/
def lineOf (s : List Char) (j : Nat) : Nat := (s.take j).count '\n'

/-! ### The texts with their origins -/

/-- The entry point of a stage in its own text.  In Glsl, its name is not copied. -/
def own : Dialect → List Glyph → List Glyph
  | .glsl, l => l.take "void ".length ++ fresh "main".toList ++ l.drop "void VS".length
  | .hlsl, l => l

/-- What the text of a stage has in place of an entry point, with the origin of each character. -/
def writtenCopy (dialect : Dialect) : Stage → Stage → List Glyph → List Glyph
  | .vertex, .vertex => own dialect
  | .vertex, .pixel => fun l => fresh opening ++ l
  | .pixel, .vertex => fun l => fresh opening ++ l
  | .pixel, .pixel => fun l => fresh closing ++ own dialect l

/-- What the pixel stage takes over from a combined text, with the origin of each character. -/
def sharedCopy : Dialect → List Glyph → List Glyph
  | .glsl, t => editAll attributeWord (fun l => fresh "// ".toList ++ l) t
  | .hlsl, t => t

/-- The text of a stage, with the origin of each character. -/
def copied (dialect : Dialect) : Stage → List Char → List Glyph
  | .vertex, s =>
    editAll (mark .pixel) (writtenCopy dialect .vertex .pixel)
      (editAll (mark .vertex) (writtenCopy dialect .vertex .vertex) (original 0 s)) ++ fresh closing
  | .pixel, s =>
    editAll (mark .pixel) (writtenCopy dialect .pixel .pixel)
      (editAll (mark .vertex) (writtenCopy dialect .pixel .vertex) (sharedCopy dialect (original 0 s)))

/-- An entry point is not empty. -/
theorem mark_ne_nil (i : Stage) : mark i ≠ [] := ne_nil_of_mem (mark_mem_entries .hlsl i)

/-- Without the origins, this is the entry point of the stage. -/
theorem spell_own (hl : spell l = mark stage) : spell (own dialect l) = entry dialect stage := by
  cases dialect with
  | hlsl => rw [own, hl, entry_hlsl]
  | glsl =>
    have htake : spell (l.take "void ".length) = (mark stage).take "void ".length := by
      rw [← hl, spell, spell, List.map_take]
    have hdrop : spell (l.drop "void VS".length) = (mark stage).drop "void VS".length := by
      rw [← hl, spell, spell, List.map_drop]
    rw [own, spell_append, spell_append, htake, hdrop, spell_fresh]
    cases stage <;> decide

/-- Without the origins, this is what is written in place of an entry point. -/
theorem spell_writtenCopy (hl : spell l = mark i) :
    spell (writtenCopy dialect stage i l) = written dialect stage i := by
  cases stage <;> cases i
  case vertex.vertex => exact spell_own hl
  case vertex.pixel => rw [writtenCopy, spell_append, spell_fresh, hl]; rfl
  case pixel.vertex => rw [writtenCopy, spell_append, spell_fresh, hl]; rfl
  case pixel.pixel => rw [writtenCopy, spell_append, spell_fresh, spell_own hl]; rfl

/-- Without the origins, this is an attribute behind two slashes. -/
theorem spell_comment (hl : spell l = attributeWord) :
    spell (fresh "// ".toList ++ l) = "// ".toList ++ attributeWord := by
  rw [spell_append, spell_fresh, hl]

/-- Without the origins, entry points are replaced as they are in plain texts. -/
theorem spell_editAll_mark (t : List Glyph) :
    spell (editAll (mark i) (writtenCopy dialect stage i) t) =
      replaceAll (mark i) (written dialect stage i) (spell t) :=
  spell_editAll (mark_ne_nil i) (fun _ => spell_writtenCopy) t

/-- Without the origins, this is what the pixel stage takes over. -/
theorem spell_sharedCopy (t : List Glyph) : spell (sharedCopy dialect t) = shared dialect (spell t) := by
  cases dialect with
  | glsl => exact spell_editAll attribute_ne_nil (fun _ => spell_comment) t
  | hlsl => rfl

/-- Without the origins, the copied text is the text of the stage. -/
theorem spell_copied (combined : String) :
    spell (copied dialect stage combined.toList) = ((split dialect combined).get stage).toList := by
  cases stage with
  | vertex =>
    rw [copied, spell_append, spell_editAll_mark, spell_editAll_mark, spell_original, spell_fresh,
      StageSources.get, toList_vertex, vertexText_eq]
  | pixel =>
    rw [copied, spell_editAll_mark, spell_editAll_mark, spell_sharedCopy, spell_original,
      StageSources.get, toList_pixel, pixelText_eq]

/-! ### What is copied and what is lost -/

/-- An entry point in its own text is made of its own characters and of new ones. -/
theorem copies_own (i : Stage) : Copies (mark i) (own dialect) := by
  intro l hl g hg
  cases dialect with
  | hlsl => exact .inl hg
  | glsl =>
    rw [own, List.append_assoc] at hg
    rcases List.mem_append.mp hg with hg | hg
    · exact .inl (List.mem_of_mem_take hg)
    · rcases List.mem_append.mp hg with hg | hg
      · exact .inr (origin_of_mem_fresh hg)
      · exact .inl (List.mem_of_mem_drop hg)

/-- So is what is written in place of it. -/
theorem copies_writtenCopy (stage i : Stage) : Copies (mark i) (writtenCopy dialect stage i) := by
  cases stage <;> cases i
  case vertex.vertex => exact copies_own _
  case vertex.pixel => exact (copies_id _).fresh_append opening
  case pixel.vertex => exact (copies_id _).fresh_append opening
  case pixel.pixel => exact (copies_own _).fresh_append closing

/-- So is an attribute behind two slashes. -/
theorem copies_comment : Copies attributeWord (fun l => fresh "// ".toList ++ l) :=
  (copies_id attributeWord).fresh_append _

/-- In Glsl the name of the entry point is lost, and nothing else. -/
theorem mem_own (hl : spell l = mark stage) (hg : g ∈ l) :
    g ∈ own dialect l ∨ dialect = .glsl ∧ g.char ∈ stage.label.toList := by
  cases dialect with
  | hlsl => exact .inl hg
  | glsl =>
    -- The keyword, the name and what is behind it.
    rw [← List.take_append_drop "void ".length l, List.mem_append] at hg
    rcases hg with hg | hg
    · exact .inl (List.mem_append_left _ (List.mem_append_left _ hg))
    · rw [← List.take_append_drop "VS".length (l.drop "void ".length), List.mem_append, List.drop_drop] at hg
      rcases hg with hg | hg
      · have hname : spell ((l.drop "void ".length).take "VS".length) = stage.label.toList := by
          have hcut : spell ((l.drop "void ".length).take "VS".length) =
              ((spell l).drop "void ".length).take "VS".length := by
            rw [spell, spell, List.map_take, List.map_drop]
          rw [hcut, hl]
          cases stage <;> decide
        exact .inr ⟨rfl, hname ▸ List.mem_map_of_mem hg⟩
      · exact .inl (List.mem_append_right _ hg)

/-- Nor is anything else lost where an entry point is put in a comment or behind one. -/
theorem mem_writtenCopy (hl : spell l = mark i) (hg : g ∈ l) :
    g ∈ writtenCopy dialect stage i l ∨ dialect = .glsl ∧ g.char ∈ stage.label.toList := by
  cases stage <;> cases i
  case vertex.vertex => exact mem_own hl hg
  case vertex.pixel => exact .inl (List.mem_append_right _ hg)
  case pixel.vertex => exact .inl (List.mem_append_right _ hg)
  case pixel.pixel => exact (mem_own hl hg).imp_left (List.mem_append_right _)

/-- Nor is it in the whole text. -/
theorem mem_editAll_mark (hg : g ∈ t) : g ∈ editAll (mark i) (writtenCopy dialect stage i) t ∨
    dialect = .glsl ∧ g.char ∈ stage.label.toList := by
  rcases mem_editAll (mark_ne_nil i) hg with hmem | ⟨l, hl, hin, hout⟩
  · exact .inl hmem
  · exact .inr ((mem_writtenCopy hl hin).resolve_left hout)

/-- Taking over a text for the pixel stage loses nothing. -/
theorem mem_sharedCopy (hg : g ∈ t) : g ∈ sharedCopy dialect t := by
  cases dialect with
  | hlsl => exact hg
  | glsl =>
    refine (mem_editAll attribute_ne_nil hg).resolve_right ?_
    rintro ⟨l, -, hin, hout⟩
    exact hout (List.mem_append_right _ hin)

/-- Every character of the combined text is in the text of the stage, unless Glsl renames its entry point and
    the character is a letter of that name. -/
theorem mem_copied (hg : g ∈ original 0 s) :
    g ∈ copied dialect stage s ∨ dialect = .glsl ∧ g.char ∈ stage.label.toList := by
  cases stage with
  | vertex =>
    have hvertex : g ∈ editAll (mark .vertex) (writtenCopy dialect .vertex .vertex) (original 0 s) ∨
        dialect = .glsl ∧ g.char ∈ Stage.vertex.label.toList := mem_editAll_mark hg
    rcases hvertex with hg | hlost
    · exact (mem_editAll_mark hg).imp_left (List.mem_append_left _)
    · exact .inr hlost
  | pixel =>
    have hvertex : g ∈ editAll (mark .vertex) (writtenCopy dialect .pixel .vertex)
          (sharedCopy dialect (original 0 s)) ∨
        dialect = .glsl ∧ g.char ∈ Stage.pixel.label.toList := mem_editAll_mark (mem_sharedCopy hg)
    rcases hvertex with hg | hlost
    · exact mem_editAll_mark hg
    · exact .inr hlost

/-- What was copied into the text of a stage is a character of the combined text. -/
theorem mem_original_of_mem_copied (hg : g ∈ copied dialect stage s) :
    g ∈ original 0 s ∨ g.origin = none := by
  have hmark : ∀ {stage i : Stage} {t}, g ∈ editAll (mark i) (writtenCopy dialect stage i) t →
      g ∈ t ∨ g.origin = none :=
    fun {stage i t} => mem_of_mem_editAll (mark_ne_nil i) (copies_writtenCopy stage i)
  cases stage with
  | vertex =>
    rcases List.mem_append.mp hg with hg | hg
    · exact (hmark hg).elim hmark .inr
    · exact .inr (origin_of_mem_fresh hg)
  | pixel =>
    have hshared : g ∈ sharedCopy dialect (original 0 s) → g ∈ original 0 s ∨ g.origin = none := by
      cases dialect with
      | hlsl => exact .inl
      | glsl => exact mem_of_mem_editAll attribute_ne_nil copies_comment
    exact (hmark hg).elim (fun hg => (hmark hg).elim hshared .inr) .inr

/-! ### Counting lines and entry points -/

/-- A pattern that neither the entry points nor their replacements touch is counted as before. -/
theorem counted_editAll_mark {count : Nat → Nat} (h : Counted p count k t)
    (hhead : 'v' ∉ p.tail ∧ '/' ∉ p.tail ∧ '*' ∉ p.tail) (hlast : '(' ∉ p.dropLast)
    (hmark : ¬ p <:+: mark i) (hwritten : ¬ p <:+: written dialect stage i) :
    Counted p count k (editAll (mark i) (writtenCopy dialect stage i) t) :=
  h.editAll ((piece_written stage i).leaves i hhead hlast hwritten)
    ((piece_mark i).leaves i hhead hlast hmark) (fun _ => spell_writtenCopy) (copies_writtenCopy stage i)

/-- A pattern that begins with a character that attributes and comments do not have. -/
theorem counted_sharedCopy {d : Char} {q : List Char} {count : Nat → Nat} (h : Counted (d :: q) count k t)
    (hd : d ∉ "// ".toList ++ attributeWord) (hq : 'a' ∉ q ∧ '/' ∉ q) :
    Counted (d :: q) count k (sharedCopy dialect t) := by
  cases dialect with
  | hlsl => exact h
  | glsl =>
    have hword : d ∉ attributeWord := fun hmem => hd (List.mem_append_right _ hmem)
    exact h.editAll (leaves_attribute hd rfl hq.2 rfl) (leaves_attribute hword rfl hq.1 rfl)
      (fun _ => spell_comment) copies_comment

/-- **The vertex text has a line feed where the combined text has one**, and no other. -/
theorem counted_copied_vertex :
    Counted ['\n'] (fun i => begun ['\n'] i s) 0 (copied dialect .vertex s) := by
  have hstart : Counted ['\n'] (fun i => begun ['\n'] i s) 0 (original 0 s) :=
    counted_original fun i => by rw [Nat.zero_add, Nat.zero_add]
  have hfeed : ∀ i, ¬ ['\n'] <:+: mark i ∧ ¬ ['\n'] <:+: written dialect .vertex i := fun i => by
    cases dialect <;> cases i <;> decide
  have hvertex := counted_editAll_mark (i := .vertex) hstart (by decide) (by decide) (hfeed _).1 (hfeed _).2
  have hpixel := counted_editAll_mark (i := .pixel) hvertex (by decide) (by decide) (hfeed _).1 (hfeed _).2
  exact (counted_append apart_singleton).mpr ⟨hpixel, counted_fresh⟩

/-- **The pixel text has a line feed more for each pixel entry point**, right in front of it. -/
theorem counted_copied_pixel :
    Counted ['\n'] (fun i => begun ['\n'] i s + begun pixelEntry i s) 0 (copied dialect .pixel s) := by
  have hstart : ∀ p, Counted p (fun i => begun p i s) 0 (original 0 s) := fun p =>
    counted_original fun i => by rw [Nat.zero_add, Nat.zero_add]
  -- The line feeds and the entry points before the last edit.
  have hlines : Counted ['\n'] (fun i => begun ['\n'] i s) 0 (editAll (mark .vertex)
      (writtenCopy dialect .pixel .vertex) (sharedCopy dialect (original 0 s))) :=
    counted_editAll_mark (counted_sharedCopy (hstart _) (by decide) (by decide)) (by decide) (by decide)
      (by decide) (by cases dialect <;> decide +kernel)
  have hentries : Counted pixelEntry (fun i => begun pixelEntry i s) 0 (editAll (mark .vertex)
      (writtenCopy dialect .pixel .vertex) (sharedCopy dialect (original 0 s))) :=
    counted_editAll_mark (counted_sharedCopy (hstart _) (by decide) (by decide)) (by decide) (by decide)
      (by decide) (by cases dialect <;> decide +kernel)
  refine hlines.editAll_add hentries (sharp_of_mem (mark_mem_entries .hlsl .pixel)) (by decide) (by decide)
    (fun l hl => ?_) (copies_own .pixel)
  have hown : spell (own dialect l) = entry dialect .pixel := spell_own hl
  rw [hown]
  cases dialect <;> decide

/-- The line feeds up to a place are those in front of it, and the one that may stand there. -/
theorem begun_newline (h : s[j]? = some c) :
    begun ['\n'] j s = lineOf s j + if c = '\n' then 1 else 0 := by
  induction s generalizing j with
  | nil => cases h
  | cons d s ih =>
    have hstarts : starts ['\n'] (d :: s) = if d = '\n' then 1 else 0 := by
      by_cases hd : d = '\n'
      · simp [starts, List.isPrefixOf, hd]
      · simp [starts, List.isPrefixOf, hd, Ne.symm hd]
    cases j with
    | zero =>
      cases h
      rw [begun, hstarts]
      simp [lineOf]
    | succ j =>
      have hline : lineOf (d :: s) (j + 1) = lineOf s j + if d = '\n' then 1 else 0 := by
        simp [lineOf, List.count_cons]
      rw [begun, hstarts, ih h, hline]
      omega

/-- How many lines lower than in the combined text a character stands. -/
def shift : Stage → List Char → Nat → Nat
  | .vertex, _, _ => 0
  | .pixel, s, i => begun pixelEntry i s

/-- **Line numbers.**  The text of a stage holds every character of the combined text; only letters of the
    name of its own entry point may be missing, in Glsl.  In the text of the vertex stage each of them stands
    on its line of the combined text.  In the text of the pixel stage it stands lower by one line for each
    pixel entry point that has begun up to there. -/
theorem stage_lines (dialect : Dialect) (stage : Stage) (combined : String) :
    spell (copied dialect stage combined.toList) = ((split dialect combined).get stage).toList ∧
    (∀ (i : Nat) (c : Char), combined.toList[i]? = some c →
      (∃ j : Nat, (copied dialect stage combined.toList)[j]? = some ⟨c, some i⟩) ∨
        dialect = .glsl ∧ c ∈ stage.label.toList) ∧
    ∀ (j i : Nat) (c : Char), (copied dialect stage combined.toList)[j]? = some ⟨c, some i⟩ →
      combined.toList[i]? = some c ∧ lineOf ((split dialect combined).get stage).toList j =
        lineOf combined.toList i + shift stage combined.toList i := by
  refine ⟨spell_copied combined, fun i c hc => ?_, fun j i c hj => ?_⟩
  · have hg : ⟨c, some i⟩ ∈ original 0 combined.toList :=
      mem_original.mpr ⟨i, hc, by rw [Nat.zero_add]⟩
    exact (mem_copied hg).imp_left List.mem_iff_getElem?.mp
  · have hchar : combined.toList[i]? = some c := by
      rcases mem_original_of_mem_copied (List.mem_of_getElem? hj) with hg | hnone
      · obtain ⟨i', hc, hi⟩ := mem_original.mp hg
        rw [Nat.zero_add, Option.some.injEq] at hi
        rwa [hi]
      · cases hnone
    have hspell : (spell (copied dialect stage combined.toList))[j]? = some c := by
      rw [spell, List.getElem?_map, hj]
      rfl
    have hcount : begun ['\n'] i combined.toList + shift stage combined.toList i =
        begun ['\n'] j (spell (copied dialect stage combined.toList)) := by
      cases stage with
      | vertex => simpa [shift] using counted_copied_vertex.count_eq hj rfl
      | pixel => simpa [shift] using counted_copied_pixel.count_eq hj rfl
    rw [begun_newline hchar, begun_newline hspell, spell_copied] at hcount
    exact ⟨hchar, by omega⟩

/-- A combined text with its entry points on two lines. -/
def twoLines : String := "void VS() { }\nvoid PS() { }\n"

/-- In the text of the pixel stage, the pixel entry point is on the third line. -/
theorem stage_lines_shifted :
    (copied .hlsl .pixel twoLines.toList)[20]? = some ⟨'v', some 14⟩ ∧ lineOf twoLines.toList 14 = 1 ∧
      lineOf (split .hlsl twoLines).pixel.toList 20 = 2 := by
  have hcopied : (copied .hlsl .pixel twoLines.toList)[20]? = some ⟨'v', some 14⟩ := by decide
  have hline : lineOf twoLines.toList 14 = 1 := by decide
  have hshift : shift .pixel twoLines.toList 14 = 1 := by decide
  obtain ⟨-, hlower⟩ := (stage_lines .hlsl .pixel twoLines).2.2 20 14 'v' hcopied
  rw [hline, hshift] at hlower
  exact ⟨hcopied, hline, hlower⟩

end ShaderKit.Split
