import ShaderKit.Stage.Split
import ShaderKit.Proofs.Comments

namespace ShaderKit.Split

open Text

/-!
# Entry points of the stages

The texts of the two stages are the combined text with other words in place of the two entry points.
A text that is cut at its entry points can be read part by part: nothing that is looked for lies across
a cut, and the parts between the cuts hold no entry point.

* `mark`, `entry`   — an entry point in the combined text, and in the text of its stage
* `Shows`, `Closed` — which entry points are outside comments, and whether the last comment ends
* `TwoStages`       — a combined text with both entry points
* `Parts`           — such a text, cut at them
* `Unmarked`        — a text without the entry points of a combined text
* `written`         — what the text of a stage has in place of an entry point
* `shared`          — what the pixel stage takes over from a combined text
* `Piece.leaves`, `leaves_attribute` — what is written leaves other patterns alone
* `vertexText_parts`, `pixelText_parts` — the texts of the stages, part by part
* `split_shows_entry_points` — each stage has its own entry point and not the other one
-/

variable {dialect : Dialect} {i j : Stage} {m : Mode} {a b c o p q s x : List Char}
  {l : List (List Char)}

/-- An entry point in a combined text. -/
def mark : Stage → List Char
  | .vertex => vertexEntry
  | .pixel => pixelEntry

/-- An entry point in the text of its stage. -/
def entry (dialect : Dialect) (stage : Stage) : List Char :=
  "void ".toList ++ (dialect.entryPoint stage).toList ++ "(".toList

/-- All that is an entry point in a combined text or in the text of a stage. -/
def entries (dialect : Dialect) : List (List Char) :=
  Stage.all.map mark ++ Stage.all.map (entry dialect)

/-- The entry points outside the comments of a text are these. -/
def Shows (dialect : Dialect) (m : Mode) (s : List Char) (shown : List (List Char)) : Prop :=
  ∀ p ∈ entries dialect, active p m s = shown.count p

instance : Decidable (Shows dialect m s l) :=
  inferInstanceAs (Decidable (∀ p ∈ entries dialect, active p m s = l.count p))

/-- Every block comment that begins in the text ends in it. -/
def Closed (s : List Char) : Prop := (scan .code s).inBlock = false

instance : Decidable (Closed s) := inferInstanceAs (Decidable ((scan .code s).inBlock = false))

/-- A text without comments that holds each entry point once. -/
structure TwoStages (dialect : Dialect) (combined : List Char) : Prop where
  undelimited : Undelimited combined
  once : ∀ stage, occurrences (mark stage) combined = 1
  main : dialect = .glsl → ¬ mainEntry <:+: combined

instance : Decidable (TwoStages dialect s) :=
  decidable_of_iff (Undelimited s ∧ (∀ stage ∈ Stage.all, occurrences (mark stage) s = 1) ∧
      (dialect = .glsl → ¬ mainEntry <:+: s))
    ⟨fun ⟨hundelimited, honce, hmain⟩ => ⟨hundelimited, fun stage => honce stage stage.mem_all, hmain⟩,
      fun h => ⟨h.undelimited, fun stage _ => h.once stage, h.main⟩⟩

/-- One pattern occurs in front of another one. -/
def Before (p q s : List Char) : Prop := ∃ a b, s = a ++ b ∧ p <:+: a ∧ q <:+: b

/-! ### Entry points as patterns -/

/-- Every entry point of a combined text is among the entry points. -/
theorem mark_mem_entries (dialect : Dialect) (stage : Stage) : mark stage ∈ entries dialect :=
  List.mem_append_left _ (List.mem_map_of_mem stage.mem_all)

/-- In Glsl both stages begin at the same function. -/
theorem entry_glsl (stage : Stage) : entry .glsl stage = mainEntry := by
  cases stage <;> rfl

/-- In Hlsl a stage keeps the name that its entry point has in the combined text. -/
theorem entry_hlsl (stage : Stage) : entry .hlsl stage = mark stage := by
  cases stage <;> rfl

/-- In Hlsl the entry points keep their names, and in Glsl both stages have the same one. -/
theorem mem_entries (h : p ∈ entries dialect) :
    (∃ stage, p = mark stage) ∨ dialect = .glsl ∧ p = mainEntry := by
  rcases List.mem_append.mp h with h | h
  · obtain ⟨stage, -, rfl⟩ := List.mem_map.mp h
    exact .inl ⟨stage, rfl⟩
  · obtain ⟨stage, -, rfl⟩ := List.mem_map.mp h
    cases dialect with
    | glsl => exact .inr ⟨rfl, entry_glsl stage⟩
    | hlsl => exact .inl ⟨stage, entry_hlsl stage⟩

/-- An entry point begins with this letter. -/
theorem eq_cons_tail (h : p ∈ entries dialect) : p = 'v' :: p.tail := by
  revert p
  cases dialect <;> decide

/-- The letter does not come again in it, and no character of a delimiter does. -/
theorem not_mem_tail (h : p ∈ entries dialect) : 'v' ∉ p.tail ∧ '/' ∉ p.tail ∧ '*' ∉ p.tail := by
  revert p
  cases dialect <;> decide

/-- Only the last character of an entry point is a parenthesis. -/
theorem not_mem_dropLast (h : p ∈ entries dialect) : '(' ∉ p.dropLast := by
  revert p
  cases dialect <;> decide

/-- An entry point ends with the parenthesis. -/
theorem getLast?_of_mem (h : p ∈ entries dialect) : p.getLast? = some '(' := by
  revert p
  cases dialect <;> decide

/-- Two occurrences of an entry point never overlap. -/
theorem sharp_of_mem (h : p ∈ entries dialect) : Sharp p :=
  ⟨'v', p.tail, eq_cons_tail h, (not_mem_tail h).1⟩

/-- An entry point is not empty. -/
theorem ne_nil_of_mem (h : p ∈ entries dialect) : p ≠ [] := (sharp_of_mem h).ne_nil

/-- A text that begins with the first character of an entry point or with a delimiter, and that ends as
    the entry points do. -/
structure Piece (q : List Char) : Prop where
  head : q.head? = some 'v' ∨ q.head? = some '/' ∨ q.head? = some '*'
  last : q.getLast? = some '('

/-- No entry point lies across the beginning of a piece. -/
theorem Piece.apart_left (hq : Piece q) (h : p ∈ entries dialect) : Apart p a (q ++ b) := by
  obtain ⟨hentry, hslash, hstar⟩ := not_mem_tail h
  rcases hq.head with hhead | hhead | hhead <;> obtain ⟨q, rfl⟩ := List.head?_eq_some_iff.mp hhead
  · exact apart_of_head hentry
  · exact apart_of_head hslash
  · exact apart_of_head hstar

/-- Nor across its end. -/
theorem Piece.apart_right (hq : Piece q) (h : p ∈ entries dialect) : Apart p q b :=
  apart_of_last hq.last (not_mem_dropLast h)

/-- So the entry points around a piece may be counted part by part. -/
theorem Piece.occurrences_eq (hq : Piece q) (h : p ∈ entries dialect) :
    occurrences p (a ++ (q ++ b)) = occurrences p a + (occurrences p q + occurrences p b) := by
  rw [occurrences_append (hq.apart_left h), occurrences_append (hq.apart_right h)]

/-- So a text has no entry point exactly when its parts have none. -/
theorem Piece.not_infix_iff (hq : Piece q) (h : p ∈ entries dialect) :
    ¬ p <:+: a ++ (q ++ b) ↔ ¬ p <:+: a ∧ ¬ p <:+: q ∧ ¬ p <:+: b := by
  rw [not_infix_append (ne_nil_of_mem h) (hq.apart_left h),
    not_infix_append (ne_nil_of_mem h) (hq.apart_right h)]

/-- An entry point of a combined text is a piece. -/
theorem piece_mark (stage : Stage) : Piece (mark stage) := by
  constructor <;> cases stage <;> decide

/-- A piece that is written for an entry point leaves a pattern alone that it does not hold. -/
theorem Piece.leaves (hq : Piece q) (i : Stage) (hhead : 'v' ∉ p.tail ∧ '/' ∉ p.tail ∧ '*' ∉ p.tail)
    (hlast : '(' ∉ p.dropLast) (hnot : ¬ p <:+: q) : Leaves p (mark i) q where
  ne_nil := by
    refine ⟨?_, ne_nil_of_mem (mark_mem_entries .hlsl i)⟩
    rintro rfl
    exact hnot List.nil_infix
  head := by
    rcases hq.head with h | h | h
    · exact ⟨_, h, hhead.1⟩
    · exact ⟨_, h, hhead.2.1⟩
    · exact ⟨_, h, hhead.2.2⟩
  apart := fun _ => apart_of_last hq.last hlast
  not_infix := hnot
  last := by rw [hq.last, (piece_mark i).last]

/-! ### The parts of a combined text -/

/-- A text that holds no entry point. -/
def Plain (dialect : Dialect) (x : List Char) : Prop := ∀ p ∈ entries dialect, ¬ p <:+: x

/-- A text that holds no entry point of a combined text. -/
def Unmarked (x : List Char) : Prop := ∀ stage, ¬ mark stage <:+: x

/-- A text without any entry point has none of a combined text. -/
theorem Plain.unmarked (h : Plain dialect x) : Unmarked x :=
  fun stage => h _ (mark_mem_entries dialect stage)

/-- A combined text that is cut at its entry points, this one being the first one. -/
structure Parts (dialect : Dialect) (i j : Stage) (s a b c : List Char) : Prop where
  eq : s = a ++ (mark i ++ (b ++ (mark j ++ c)))
  ne : i ≠ j
  front : Plain dialect a
  middle : Plain dialect b
  back : Plain dialect c
  undelimited : Undelimited s

/-- What is looked for is in the two entry points or nowhere. -/
theorem occurrences_mark (h : o ∈ entries dialect) (hij : i ≠ j) (hs : TwoStages dialect s) :
    occurrences o s = occurrences o (mark i) + occurrences o (mark j) := by
  rcases mem_entries h with ⟨stage, rfl⟩ | ⟨hglsl, rfl⟩
  · have hpair : occurrences (mark stage) (mark i) + occurrences (mark stage) (mark j) = 1 := by
      cases stage <;> cases i <;> cases j <;> first | exact (hij rfl).elim | decide
    rw [hs.once, hpair]
  · have hnone : ∀ stage, occurrences mainEntry (mark stage) = 0 := fun stage => by
      cases stage <;> decide
    rw [hnone, hnone, occurrences_eq_zero_iff (ne_nil_of_mem h)]
    exact hs.main hglsl

/-- **A text with both entry points can be cut at them**, and its parts hold none. -/
theorem TwoStages.exists_parts (hs : TwoStages dialect s) (hij : i ≠ j)
    (h : Before (mark i) (mark j) s) : ∃ a b c, Parts dialect i j s a b c := by
  obtain ⟨-, -, rfl, ⟨a, b, rfl⟩, b', c, rfl⟩ := h
  have heq : a ++ mark i ++ b ++ (b' ++ mark j ++ c) =
      a ++ (mark i ++ ((b ++ b') ++ (mark j ++ c))) := by simp
  have hplain : ∀ o ∈ entries dialect, ¬ o <:+: a ∧ ¬ o <:+: b ++ b' ∧ ¬ o <:+: c := by
    intro o ho
    have hcount := occurrences_mark ho hij hs
    rw [heq, (piece_mark i).occurrences_eq ho, (piece_mark j).occurrences_eq ho] at hcount
    simp only [← occurrences_eq_zero_iff (ne_nil_of_mem ho)]
    omega
  exact ⟨a, b ++ b', c, heq, hij, fun o ho => (hplain o ho).1, fun o ho => (hplain o ho).2.1,
    fun o ho => (hplain o ho).2.2, hs.undelimited⟩

/-- One of the entry points comes first. -/
theorem TwoStages.before_or_before (hs : TwoStages dialect s) :
    Before (mark .vertex) (mark .pixel) s ∨ Before (mark .pixel) (mark .vertex) s := by
  have hvertex := mark_mem_entries dialect .vertex
  have hpixel := mark_mem_entries dialect .pixel
  obtain ⟨a, b, rfl, -, -⟩ := (sharp_of_mem hpixel).exists_parts (hs.once .pixel)
  by_cases ha : mark .vertex <:+: a
  · exact .inl ⟨a, mark .pixel ++ b, rfl, ha, ⟨[], b, rfl⟩⟩
  · refine .inr ⟨a ++ mark .pixel, b, by simp, ⟨a, [], by simp⟩, ?_⟩
    -- The vertex entry point has to be somewhere.
    refine Classical.not_not.mp fun hb => ?_
    have hnone : occurrences (mark .vertex) (mark .pixel) = 0 := by decide
    have hone := hs.once .vertex
    rw [(piece_mark .pixel).occurrences_eq hvertex, hnone,
      (occurrences_eq_zero_iff (ne_nil_of_mem hvertex)).mpr ha,
      (occurrences_eq_zero_iff (ne_nil_of_mem hvertex)).mpr hb] at hone
    omega

/-! ### The texts of the stages -/

/-- Only the first of two pieces holds the pattern. -/
theorem replaceAll_first {rep : List Char} (hp : p ∈ entries dialect) (hq : Piece q)
    (ha : ¬ p <:+: a) (hb : ¬ p <:+: b) (hc : ¬ p <:+: c) (hpq : ¬ p <:+: q) :
    replaceAll p rep (a ++ (p ++ (b ++ (q ++ c)))) = a ++ (rep ++ (b ++ (q ++ c))) := by
  exact replaceAll_once (sharp_of_mem hp) ha ((hq.not_infix_iff hp).mpr ⟨hb, hpq, hc⟩)

/-- Only the second of two pieces holds the pattern. -/
theorem replaceAll_second {rep : List Char} (hp : p ∈ entries dialect) (hq : Piece q)
    (ha : ¬ p <:+: a) (hb : ¬ p <:+: b) (hc : ¬ p <:+: c) (hpq : ¬ p <:+: q) :
    replaceAll p rep (a ++ (q ++ (b ++ (p ++ c)))) = a ++ (q ++ (b ++ (rep ++ c))) := by
  have hfront : ¬ p <:+: a ++ (q ++ b) := (hq.not_infix_iff hp).mpr ⟨ha, hpq, hb⟩
  have hassoc : a ++ (q ++ (b ++ (p ++ c))) = (a ++ (q ++ b)) ++ (p ++ c) := by simp
  rw [hassoc, replaceAll_once (sharp_of_mem hp) hfront hc]
  simp

/-- What the text of a stage has in place of an entry point of the combined text. -/
def written (dialect : Dialect) : Stage → Stage → List Char
  | .vertex, .vertex => entry dialect .vertex
  | .vertex, .pixel => opening ++ pixelEntry
  | .pixel, .vertex => opening ++ vertexEntry
  | .pixel, .pixel => closing ++ entry dialect .pixel

/-- What is written in place of an entry point is a piece too. -/
theorem piece_written (stage i : Stage) : Piece (written dialect stage i) := by
  constructor <;> cases dialect <;> cases stage <;> cases i <;> decide

/-- Both entry points are replaced where they are. -/
theorem replaceAll_marks (stage : Stage) (hij : i ≠ j) (ha : Unmarked a) (hb : Unmarked b)
    (hc : Unmarked c) :
    replaceAll (mark .pixel) (written dialect stage .pixel)
      (replaceAll (mark .vertex) (written dialect stage .vertex)
        (a ++ (mark i ++ (b ++ (mark j ++ c))))) =
      a ++ (written dialect stage i ++ (b ++ (written dialect stage j ++ c))) := by
  have hpixel := mark_mem_entries dialect .pixel
  have hvertex := mark_mem_entries dialect .vertex
  have hbefore : ¬ mark .vertex <:+: mark .pixel := by
    rw [← occurrences_eq_zero_iff (ne_nil_of_mem hvertex)]
    decide
  have hafter : ¬ mark .pixel <:+: written dialect stage .vertex := by
    rw [← occurrences_eq_zero_iff (ne_nil_of_mem hpixel)]
    cases dialect <;> cases stage <;> decide
  cases i <;> cases j
  case vertex.pixel =>
    rw [replaceAll_first hvertex (piece_mark _) (ha _) (hb _) (hc _) hbefore,
      replaceAll_second hpixel (piece_written _ _) (ha _) (hb _) (hc _) hafter]
  case pixel.vertex =>
    rw [replaceAll_second hvertex (piece_mark _) (ha _) (hb _) (hc _) hbefore,
      replaceAll_first hpixel (piece_written _ _) (ha _) (hb _) (hc _) hafter]
  all_goals exact (hij rfl).elim

/-- The vertex text in one form for both dialects: in Hlsl its entry point is replaced by itself. -/
theorem vertexText_eq : vertexText dialect s =
    replaceAll (mark .pixel) (written dialect .vertex .pixel)
      (replaceAll (mark .vertex) (written dialect .vertex .vertex) s) ++ closing := by
  cases dialect with
  | glsl => simp only [vertexText, mark, written, entry_glsl]
  | hlsl =>
    have hself := replaceAll_self (ne_nil_of_mem (mark_mem_entries .hlsl .vertex)) s
    simp only [mark] at hself
    simp only [vertexText, mark, written, entry_hlsl, hself]

/-- The text of the vertex stage, part by part. -/
theorem vertexText_parts (h : Parts dialect i j s a b c) : vertexText dialect s =
    a ++ (written dialect .vertex i ++ (b ++ (written dialect .vertex j ++ (c ++ closing)))) := by
  rw [vertexText_eq, h.eq,
    replaceAll_marks .vertex h.ne h.front.unmarked h.middle.unmarked h.back.unmarked]
  simp only [List.append_assoc]

/-- What the pixel stage takes over from a combined text. -/
def shared : Dialect → List Char → List Char
  | .glsl, s => replaceAll attributeWord ("// ".toList ++ attributeWord) s
  | .hlsl, s => s

/-- The pixel text in one form for both dialects. -/
theorem pixelText_eq : pixelText dialect s =
    replaceAll (mark .pixel) (written dialect .pixel .pixel)
      (replaceAll (mark .vertex) (written dialect .pixel .vertex) (shared dialect s)) := by
  cases dialect with
  | glsl => simp only [pixelText, shared, mark, written, entry_glsl]
  | hlsl => simp only [pixelText, shared, mark, written, entry_hlsl]

/-- What is taken over may be read part by part, where no attribute lies across the cut. -/
theorem shared_append (h : Apart attributeWord a b) :
    shared dialect (a ++ b) = shared dialect a ++ shared dialect b := by
  cases dialect with
  | glsl => exact replaceAll_append h
  | hlsl => rfl

/-- No attribute lies across an entry point. -/
theorem shared_mark_append (stage : Stage) :
    shared dialect (a ++ (mark stage ++ b)) = shared dialect a ++ (mark stage ++ shared dialect b) := by
  have hmark : shared dialect (mark stage) = mark stage := by
    cases dialect <;> cases stage <;> rfl
  have hfront : Apart attributeWord a (mark stage ++ b) := by
    rw [eq_cons_tail (mark_mem_entries dialect stage)]
    exact apart_of_head (by decide)
  have hback : Apart attributeWord (mark stage) b :=
    apart_of_last (piece_mark stage).last (by decide)
  rw [shared_append hfront, shared_append hback, hmark]

/-- The word for an attribute is not empty. -/
theorem attribute_ne_nil : attributeWord ≠ [] := by decide

/-- What is written for an attribute leaves a pattern alone that begins with another character. -/
theorem leaves_attribute {d e : Char} (hd : d ∉ b) (hhead : b.head? = some e) (he : e ∉ q)
    (hlast : b.getLast? = attributeWord.getLast?) : Leaves (d :: q) attributeWord b :=
  ⟨⟨List.cons_ne_nil d q, attribute_ne_nil⟩, ⟨e, hhead, he⟩, fun _ => apart_of_not_mem hd,
    fun hin => hd (hin.mem List.mem_cons_self), hlast⟩

/-- Putting an attribute behind two slashes leaves the entry points alone. -/
theorem leaves_attribute_entry (h : p ∈ entries dialect) :
    Leaves p attributeWord ("// ".toList ++ attributeWord) := by
  rw [eq_cons_tail h]
  exact leaves_attribute (by decide) rfl (not_mem_tail h).2.1 rfl

/-- What is taken over from a text without entry points has none. -/
theorem plain_shared (h : Plain dialect x) : Plain dialect (shared dialect x) := by
  cases dialect with
  | hlsl => exact h
  | glsl => exact fun p hp => (leaves_attribute_entry hp).not_infix_replaceAll (h p hp)

/-- A line comment in front of an attribute begins no block comment. -/
theorem not_infix_shared (h : ¬ ['/', '*'] <:+: x) : ¬ ['/', '*'] <:+: shared dialect x := by
  cases dialect with
  | hlsl => exact h
  | glsl =>
    have hleaves : Leaves ['/', '*'] attributeWord ("// ".toList ++ attributeWord) := by
      refine ⟨by decide, ⟨'/', rfl, by decide⟩, fun _ => apart_of_last (c := ' ') rfl (by decide), ?_, rfl⟩
      rw [← occurrences_eq_zero_iff (by decide)]
      decide
    exact hleaves.not_infix_replaceAll h

/-- What is taken over ends with the same character. -/
theorem getLast?_shared (x : List Char) : (shared dialect x).getLast? = x.getLast? := by
  cases dialect with
  | hlsl => rfl
  | glsl =>
    have hlast : ("// ".toList ++ attributeWord).getLast? = attributeWord.getLast? := rfl
    exact getLast?_replaceAll attribute_ne_nil hlast x

/-- The text of the pixel stage, part by part. -/
theorem pixelText_parts (h : Parts dialect i j s a b c) : pixelText dialect s =
    shared dialect a ++ (written dialect .pixel i ++
      (shared dialect b ++ (written dialect .pixel j ++ shared dialect c))) := by
  rw [pixelText_eq, h.eq, shared_mark_append, shared_mark_append,
    replaceAll_marks .pixel h.ne (plain_shared h.front).unmarked (plain_shared h.middle).unmarked
      (plain_shared h.back).unmarked]

/-! ### Reading the parts -/

/-- A text without entry points shows none, wherever the reader is. -/
theorem Plain.active_eq_zero (h : Plain dialect x) (hp : p ∈ entries dialect) : active p m x = 0 :=
  active_of_not_infix (ne_nil_of_mem hp) (h p hp)

/-- The end of a comment adds no entry point. -/
theorem Plain.append_closing (h : Plain dialect x) : Plain dialect (x ++ closing) := by
  intro p hp
  have hclosing : occurrences p closing = 0 := by
    rw [eq_cons_tail hp]
    exact occurrences_of_not_mem (by decide)
  have hapart : Apart p x closing := apart_of_head (not_mem_tail hp).2.2
  rw [not_infix_append (ne_nil_of_mem hp) hapart]
  exact ⟨h p hp, (occurrences_eq_zero_iff (ne_nil_of_mem hp)).mp hclosing⟩

/-- The parts around two pieces show nothing. -/
theorem shows_pieces (l l' : List (List Char)) (hp : Piece p) (hq : Piece q) (ha : Plain dialect a)
    (hb : Plain dialect b) (hc : Plain dialect c) (hpl : Shows dialect (scan m a) p l)
    (hql : Shows dialect (scan (scan (scan m a) p) b) q l') :
    Shows dialect m (a ++ (p ++ (b ++ (q ++ c)))) (l ++ l') := by
  intro o ho
  rw [active_append (hp.apart_left ho), active_append (hp.apart_right ho),
    active_append (hq.apart_left ho), active_append (hq.apart_right ho), ha.active_eq_zero ho,
    hb.active_eq_zero ho, hc.active_eq_zero ho, hpl o ho, hql o ho, List.count_append]
  omega

/-- The entry point of the vertex stage, outside comments. -/
theorem entry_outside (dialect : Dialect) (hm : m.outside = true) :
    Shows dialect m (written dialect .vertex .vertex) [entry dialect .vertex] ∧
      scan m (written dialect .vertex .vertex) = .code := by
  revert hm
  cases dialect <;> cases m <;> decide

/-- The entry point of the vertex stage, in a block comment. -/
theorem entry_inBlock (dialect : Dialect) (hm : m.inBlock = true) :
    Shows dialect m (written dialect .vertex .vertex) [] ∧
      scan m (written dialect .vertex .vertex) = .block := by
  revert hm
  cases dialect <;> cases m <;> decide

/-- In the vertex stage, a comment begins in front of the pixel entry point. -/
theorem opening_code (dialect : Dialect) :
    Shows dialect .code (written dialect .vertex .pixel) [] ∧
      scan .code (written dialect .vertex .pixel) = .block := by
  cases dialect <;> decide

/-- In the pixel stage, the vertex entry point is in a comment: one that begins in front of it, or a
    line comment that began before. -/
theorem opening_not_inBlock (dialect : Dialect) (hm : m.inBlock = false) :
    Shows dialect m (written dialect .pixel .vertex) [] ∧
      scan m (written dialect .pixel .vertex) ≠ .slash := by
  revert hm
  cases dialect <;> cases m <;> decide

/-- In the pixel stage, every comment ends in front of the pixel entry point; but after a slash, one
    would begin there. -/
theorem closing_ne_slash (dialect : Dialect) (hm : m ≠ .slash) :
    Shows dialect m (written dialect .pixel .pixel) [entry dialect .pixel] ∧
      scan m (written dialect .pixel .pixel) = .code := by
  revert hm
  cases dialect <;> cases m <;> decide

/-- Inside of a block comment its closing delimiter leads out of it. -/
theorem scan_closing (hm : m.inBlock = true) : scan m closing = .code := by
  revert hm
  cases m <;> decide

/-! ### Both orders -/

/-- What comes before the first entry point begins and ends no comment. -/
theorem Parts.undelimited_front (h : Parts dialect i j s a b c) : Undelimited a :=
  h.undelimited.mono ⟨[], mark i ++ (b ++ (mark j ++ c)), by simp [h.eq]⟩

/-- Nor does what comes between the two. -/
theorem Parts.undelimited_middle (h : Parts dialect i j s a b c) : Undelimited b :=
  h.undelimited.mono ⟨a ++ mark i, mark j ++ c, by simp [h.eq]⟩

/-- Nor does what comes after the second. -/
theorem Parts.undelimited_back (h : Parts dialect i j s a b c) : Undelimited c :=
  h.undelimited.mono ⟨a ++ (mark i ++ (b ++ mark j)), [], by simp [h.eq]⟩

/-- What stands in front of a pattern does not end with a character that is never right before it. -/
theorem getLast?_ne_of_not_infix {e : Char} (h : ¬ e :: q <:+: a ++ (q ++ b)) : a.getLast? ≠ some e := by
  intro hlast
  obtain ⟨a, rfl⟩ := List.getLast?_eq_some_iff.mp hlast
  exact h ⟨a, b, by simp⟩

section VertexFirst

variable (h : Parts dialect .vertex .pixel s a b c) (hseam : ¬ '/' :: mark .pixel <:+: s)

include h hseam

/-- No slash stands right before the pixel entry point, where it would join what is written there. -/
theorem Parts.getLast?_middle : b.getLast? ≠ some '/' := by
  refine getLast?_ne_of_not_infix (q := mark .pixel) (b := c) fun hin => hseam ?_
  exact hin.trans ⟨a ++ mark .vertex, [], by simp [h.eq]⟩

/-- The comment that begins with the pixel entry point lasts until the end. -/
theorem Parts.vertexText_vertex_first :
    Shows dialect .code (vertexText dialect s) [entry dialect .vertex] ∧
      Closed (vertexText dialect s) := by
  -- Where the reader is after each of the parts.
  have hfront : (scan .code a).outside = true :=
    scan_outside h.undelimited_front.line h.undelimited_front.opening rfl (by simp)
  obtain ⟨hentry, hcode⟩ := entry_outside dialect hfront
  have hmiddle := h.undelimited_middle.scan_code (h.getLast?_middle hseam)
  obtain ⟨hnone, hblock⟩ := opening_code dialect
  have hback := scan_inBlock (m := .block) h.undelimited_back.closing rfl (by simp)
  rw [vertexText_parts h, Closed]
  constructor
  · refine shows_pieces [_] [] (piece_written _ _) (piece_written _ _) h.front h.middle
      h.back.append_closing hentry ?_
    rwa [hcode, hmiddle]
  · simp only [scan_append, hcode, hmiddle, hblock, scan_closing hback]
    rfl

/-- The comment that begins with the vertex entry point ends in front of the pixel entry point. -/
theorem Parts.pixelText_vertex_first :
    Shows dialect .code (pixelText dialect s) [entry dialect .pixel] ∧
      Closed (pixelText dialect s) := by
  -- A line comment may have begun at an attribute, so the comment that begins here need not be a block.
  have hfront : (scan .code (shared dialect a)).inBlock = false :=
    scan_not_inBlock (not_infix_shared h.undelimited_front.opening) rfl (by simp)
  obtain ⟨hnone, hne⟩ := opening_not_inBlock dialect hfront
  have hmiddle := scan_ne_slash hne (s := shared dialect b)
    (by rw [getLast?_shared]; exact h.getLast?_middle hseam)
  obtain ⟨hentry, hcode⟩ := closing_ne_slash dialect hmiddle
  have hback : (scan .code (shared dialect c)).inBlock = false :=
    scan_not_inBlock (not_infix_shared h.undelimited_back.opening) rfl (by simp)
  rw [pixelText_parts h, Closed]
  constructor
  · exact shows_pieces [] [_] (piece_written _ _) (piece_written _ _) (plain_shared h.front)
      (plain_shared h.middle) (plain_shared h.back) hnone hentry
  · simp only [scan_append, hcode, hback]

end VertexFirst

section PixelFirst

variable (h : Parts dialect .pixel .vertex s a b c) (hseam : ¬ '/' :: mark .pixel <:+: s)

include h hseam

/-- No slash stands right before the pixel entry point where that is the first one. -/
theorem Parts.getLast?_front : a.getLast? ≠ some '/' := by
  refine getLast?_ne_of_not_infix (q := mark .pixel) (b := b ++ (mark .vertex ++ c)) ?_
  rwa [← h.eq]

/-- The comment that begins with the pixel entry point lasts until the end, so that the vertex entry point
    is in it as well. -/
theorem Parts.vertexText_pixel_first :
    Shows dialect .code (vertexText dialect s) [] ∧ Closed (vertexText dialect s) := by
  have hfront := h.undelimited_front.scan_code (h.getLast?_front hseam)
  obtain ⟨hpixel, hblock⟩ := opening_code dialect
  have hmiddle := scan_inBlock (m := .block) h.undelimited_middle.closing rfl (by simp)
  obtain ⟨hvertex, hblock'⟩ := entry_inBlock dialect hmiddle
  have hback := scan_inBlock (m := .block) h.undelimited_back.closing rfl (by simp)
  rw [vertexText_parts h, Closed]
  constructor
  · refine shows_pieces [] [] (piece_written _ _) (piece_written _ _) h.front h.middle
      h.back.append_closing ?_ ?_
    · rwa [hfront]
    · rwa [hfront, hblock]
  · simp only [scan_append, hfront, hblock, hblock', scan_closing hback]
    rfl

/-- In front of the pixel entry point no comment is there to end, and the vertex entry point is in one that
    begins later. -/
theorem Parts.pixelText_pixel_first :
    Shows dialect .code (pixelText dialect s) [entry dialect .pixel] := by
  have hfront := scan_ne_slash (m := .code) (s := shared dialect a) (by decide)
    (by rw [getLast?_shared]; exact h.getLast?_front hseam)
  obtain ⟨hentry, hcode⟩ := closing_ne_slash dialect hfront
  have hmiddle : (scan .code (shared dialect b)).inBlock = false :=
    scan_not_inBlock (not_infix_shared h.undelimited_middle.opening) rfl (by simp)
  obtain ⟨hnone, -⟩ := opening_not_inBlock dialect hmiddle
  rw [pixelText_parts h]
  refine shows_pieces [_] [] (piece_written _ _) (piece_written _ _) (plain_shared h.front)
    (plain_shared h.middle) (plain_shared h.back) hentry ?_
  rwa [hcode]

end PixelFirst

/-- The vertex text of a split, as a list of characters. -/
theorem toList_vertex (combined : String) :
    (split dialect combined).vertex.toList = vertexText dialect combined.toList :=
  String.toList_ofList

/-- The pixel text of a split, as a list of characters. -/
theorem toList_pixel (combined : String) :
    (split dialect combined).pixel.toList = pixelText dialect combined.toList :=
  String.toList_ofList

/-- **Each stage has its own entry point.**  Let a combined text without comments hold both entry points
    once, the pixel entry point not right behind a slash.  If the vertex entry point comes first, the
    text of each stage has the entry point of this stage outside comments and no other one, and its
    comments end.  If it comes second, this is so for the entry points of the pixel stage, while the
    vertex stage has none: its own one is in the comment that begins with the pixel entry point. -/
theorem split_shows_entry_points (combined : String) (h : TwoStages dialect combined.toList)
    (hseam : ¬ '/' :: mark .pixel <:+: combined.toList) :
    (Before (mark .vertex) (mark .pixel) combined.toList ∨
      Before (mark .pixel) (mark .vertex) combined.toList) ∧
    (Before (mark .vertex) (mark .pixel) combined.toList → ∀ stage,
      Shows dialect .code ((split dialect combined).get stage).toList [entry dialect stage] ∧
        Closed ((split dialect combined).get stage).toList) ∧
    (Before (mark .pixel) (mark .vertex) combined.toList →
      Shows dialect .code (split dialect combined).pixel.toList [entry dialect .pixel] ∧
        Shows dialect .code (split dialect combined).vertex.toList [] ∧
        Closed (split dialect combined).vertex.toList) := by
  refine ⟨h.before_or_before, fun hbefore stage => ?_, fun hbefore => ?_⟩
  · obtain ⟨a, b, c, hparts⟩ := h.exists_parts (by decide) hbefore
    cases stage with
    | vertex =>
      rw [StageSources.get, toList_vertex]
      exact hparts.vertexText_vertex_first hseam
    | pixel =>
      rw [StageSources.get, toList_pixel]
      exact hparts.pixelText_vertex_first hseam
  · obtain ⟨a, b, c, hparts⟩ := h.exists_parts (by decide) hbefore
    rw [toList_vertex, toList_pixel]
    exact ⟨hparts.pixelText_pixel_first hseam, hparts.vertexText_pixel_first hseam⟩

/-- A combined text with an attribute. -/
def withAttribute : String := "attribute float x;\nvoid VS() { }\nvoid PS() { }\n"

/-- A combined text with the pixel entry point in front. -/
def pixelFirst : String := "void PS() { }\nvoid VS() { }\n"

/-- The vertex entry point in front in Glsl, and behind in Hlsl. -/
theorem split_shows_entry_points_attribute :
    (TwoStages .glsl withAttribute.toList ∧ ¬ '/' :: mark .pixel <:+: withAttribute.toList ∧
      ∀ stage, Shows .glsl .code ((split .glsl withAttribute).get stage).toList [entry .glsl stage] ∧
        Closed ((split .glsl withAttribute).get stage).toList) ∧
    TwoStages .hlsl pixelFirst.toList ∧ ¬ '/' :: mark .pixel <:+: pixelFirst.toList ∧
      Shows .hlsl .code (split .hlsl pixelFirst).pixel.toList [entry .hlsl .pixel] ∧
      Shows .hlsl .code (split .hlsl pixelFirst).vertex.toList [] := by
  have htwo : TwoStages .glsl withAttribute.toList := by decide
  have hseam : ¬ '/' :: mark .pixel <:+: withAttribute.toList := by decide
  have hbefore : Before (mark .vertex) (mark .pixel) withAttribute.toList := by
    refine ⟨"attribute float x;\nvoid VS() { }\n".toList, "void PS() { }\n".toList, ?_, ?_, ?_⟩
    all_goals decide
  have htwo' : TwoStages .hlsl pixelFirst.toList := by decide
  have hseam' : ¬ '/' :: mark .pixel <:+: pixelFirst.toList := by decide
  have hbefore' : Before (mark .pixel) (mark .vertex) pixelFirst.toList := by
    refine ⟨"void PS() { }\n".toList, "void VS() { }\n".toList, ?_, ?_, ?_⟩
    all_goals decide
  obtain ⟨hpixel, hvertex, -⟩ := (split_shows_entry_points _ htwo' hseam').2.2 hbefore'
  exact ⟨⟨htwo, hseam, (split_shows_entry_points _ htwo hseam).2.1 hbefore⟩, htwo', hseam', hpixel,
    hvertex⟩

/-- A combined text that begins with a slash and the pixel entry point right behind it. -/
def pixelFirstBehindSlash : String := "/void PS() { }\nvoid VS() { }\n"

/-- A combined text with slashes right in front of the pixel entry point and at the end. -/
def withSlashes : String := "void VS() { }/void PS() { }\n/"

/-- With the pixel entry point in front, the vertex stage has no entry point, and a comment in the text
    of the pixel stage does not end.  Right behind a slash, what should begin a comment makes one of
    another kind, and what should end it begins one: in either order, a stage is not as it should be. -/
theorem pixel_first_or_behind_slash :
    (TwoStages .hlsl pixelFirst.toList ∧
      ¬ Shows .hlsl .code (split .hlsl pixelFirst).vertex.toList [entry .hlsl .vertex] ∧
      ¬ Closed (split .hlsl pixelFirst).pixel.toList) ∧
    (TwoStages .hlsl pixelFirstBehindSlash.toList ∧
      ¬ Shows .hlsl .code (split .hlsl pixelFirstBehindSlash).pixel.toList [entry .hlsl .pixel]) ∧
    TwoStages .hlsl withSlashes.toList ∧ ¬ Closed (split .hlsl withSlashes).vertex.toList := by
  simp only [toList_vertex, toList_pixel]
  decide

end ShaderKit.Split
