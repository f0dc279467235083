import Mathlib.Data.List.TakeWhile
import ShaderKit.Defines.Basic

namespace ShaderKit

/-!
# One spelling for a list of names

A define string is trimmed and copied with one space for each run of spaces.  The names in it are found
on another way, by splitting at the spaces.  The two agree:

* `Text.exists_trimBy`   — trimming takes characters of a class away at both ends, and nothing else
* `Defines.tokens_eq`    — the names are the pieces between the spaces that are not empty
* `append_squeeze`       — copying writes the names with one space between two of them
* `canonical_eq`, `tokens_canonical` — so the canonical spelling is made of the names, and has them
* `canonical_spelling`   — two strings are spelled alike just if they have the same names
-/

namespace Text

variable {p : Char → Bool} {s : List Char} {c : Char}

/-- What was trimmed away at the end can be put back. -/
theorem trimEndBy_append (p : Char → Bool) (s : List Char) :
    trimEndBy p s ++ (s.reverse.takeWhile p).reverse = s := by
  rw [trimEndBy, ← List.reverse_append, List.takeWhile_append_dropWhile, List.reverse_reverse]

/-- Trimming takes characters of the class away at both ends, and nothing else. -/
theorem exists_trimBy (p : Char → Bool) (s : List Char) :
    ∃ front back, (∀ c ∈ front, p c = true) ∧ (∀ c ∈ back, p c = true) ∧
      s = front ++ (trimBy p s ++ back) := by
  refine ⟨s.takeWhile p, ((s.dropWhile p).reverse.takeWhile p).reverse, ?_, ?_, ?_⟩
  · exact fun c hc => List.mem_takeWhile_imp hc
  · exact fun c hc => List.mem_takeWhile_imp (List.mem_reverse.mp hc)
  · rw [trimBy, trimEndBy_append, List.takeWhile_append_dropWhile]

/-- What is left does not end with a character of the class. -/
theorem getLast?_trimEndBy (h : (trimEndBy p s).getLast? = some c) : p c = false := by
  have hfirst := List.head?_dropWhile_not p s.reverse
  rw [trimEndBy, List.getLast?_reverse] at h
  simpa [h] using hfirst

/-- Nor does it begin with one. -/
theorem head?_trimBy (h : (trimBy p s).head? = some c) : p c = false := by
  have hfirst := List.head?_dropWhile_not p s
  rw [← trimEndBy_append p (s.dropWhile p), List.head?_append, ← trimBy, h] at hfirst
  simpa using hfirst

end Text

namespace Defines

open Text (trimBy)

variable {s t w word : List Char} {c : Char} {ws : List (List Char)}

/-! ### Names -/

/-- A name is not empty and has no space. -/
structure IsName (w : List Char) : Prop where
  nonempty : w ≠ []
  spaceless : ' ' ∉ w

/-- A space ends the word that has been begun. -/
theorem tokensFrom_space :
    tokensFrom word (' ' :: s) = if word.isEmpty then tokens s else word.reverse :: tokens s := by
  cases word <;> rfl

/-- Any other character goes on with it. -/
theorem tokensFrom_cons (h : c ≠ ' ') : tokensFrom word (c :: s) = tokensFrom (c :: word) s := by
  rw [tokensFrom]
  exact h

/-- The names are the pieces between the spaces that are not empty, also within a word. -/
theorem tokensFrom_eq (word s : List Char) :
    tokensFrom word s = (s.splitOnPPrepend (· == ' ') word).filter (!·.isEmpty) := by
  induction s generalizing word with
  | nil => cases word <;> simp [tokensFrom]
  | cons c s ih =>
    by_cases hc : c = ' '
    · have hrest : tokens s = (s.splitOnP (· == ' ')).filter (!·.isEmpty) := ih []
      subst hc
      rw [tokensFrom_space, hrest, List.splitOnPPrepend_cons_pos (by simp)]
      cases word <;> simp
    · rw [tokensFrom_cons hc, ih, List.splitOnPPrepend_cons_neg (by simpa using hc)]

/-- The names are the pieces between the spaces that are not empty. -/
theorem tokens_eq (s : List Char) : tokens s = (s.splitOn ' ').filter (!·.isEmpty) :=
  tokensFrom_eq [] s

/-- Names are told apart at each space. -/
theorem tokens_append_space (s t : List Char) : tokens (s ++ ' ' :: t) = tokens s ++ tokens t := by
  simp only [tokens_eq, List.splitOn_append_cons_self, List.filter_append]

/-- A name is one piece. -/
theorem tokens_of_isName (h : IsName w) : tokens w = [w] := by
  rw [tokens_eq, List.splitOn_eq_singleton h.spaceless]
  simpa using h.nonempty

/-- Every piece is a name. -/
theorem isName_of_mem_tokensFrom (hword : ' ' ∉ word) (h : w ∈ tokensFrom word s) : IsName w := by
  fun_induction tokensFrom word s with
  | case1 => simp at h
  | case2 word hne =>
    rw [List.mem_singleton.mp h]
    exact ⟨by simpa using hne, by simpa using hword⟩
  | case3 word s hempty ih => exact ih (by simp) h
  | case4 word s hne ih =>
    rcases List.mem_cons.mp h with rfl | h
    · exact ⟨by simpa using hne, by simpa using hword⟩
    · exact ih (by simp) h
  | case5 word c s hc ih => exact ih (by simp [hword, Ne.symm hc]) h

/-- Only spaces are left out of the names. -/
theorem flatten_tokensFrom (word s : List Char) :
    (tokensFrom word s).flatten = word.reverse ++ s.filter (· ≠ ' ') := by
  fun_induction tokensFrom word s with
  | case1 word hempty => simpa using hempty
  | case2 word hne => simp
  | case3 word s hempty ih => simp_all
  | case4 word s hne ih => simp_all
  | case5 word c s hc ih => simp_all

/-- The names of names that are joined by spaces. -/
theorem tokens_intercalate (h : ∀ w ∈ ws, IsName w) : tokens ([' '].intercalate ws) = ws := by
  induction ws with
  | nil => rfl
  | cons w ws ih =>
    have hw : tokens w = [w] := tokens_of_isName (h w List.mem_cons_self)
    have hws : tokens ([' '].intercalate ws) = ws := ih fun v hv => h v (List.mem_cons_of_mem w hv)
    cases ws with
    | nil => simpa using hw
    | cons v ws =>
      rw [List.intercalate_cons_cons, List.append_assoc, List.singleton_append, tokens_append_space,
        hw, hws, List.singleton_append]

/-! ### Spaces at the ends -/

/-- Spaces alone have no names. -/
theorem tokens_spaces (h : ∀ c ∈ t, c = ' ') : tokens t = [] := by
  induction t with
  | nil => rfl
  | cons c t ih =>
    obtain ⟨rfl, ht⟩ := List.forall_mem_cons.mp h
    exact (tokens_append_space [] t).trans (ih ht)

/-- Spaces at the end add none. -/
theorem tokens_append_spaces (h : ∀ c ∈ t, c = ' ') (s : List Char) :
    tokens (s ++ t) = tokens s := by
  cases t with
  | nil => rw [List.append_nil]
  | cons c t =>
    obtain ⟨rfl, ht⟩ := List.forall_mem_cons.mp h
    rw [tokens_append_space, tokens_spaces ht, List.append_nil]

/-- Spaces in front add none. -/
theorem tokens_spaces_append (h : ∀ c ∈ s, c = ' ') (t : List Char) :
    tokens (s ++ t) = tokens t := by
  induction s with
  | nil => rfl
  | cons c s ih =>
    obtain ⟨rfl, hs⟩ := List.forall_mem_cons.mp h
    exact (tokens_append_space [] (s ++ t)).trans (ih hs)

/-- Trimming spaces takes no name away. -/
theorem tokens_trimBy (s : List Char) : tokens (trimBy (· == ' ') s) = tokens s := by
  obtain ⟨front, back, hfront, hback, hs⟩ := Text.exists_trimBy (· == ' ') s
  calc tokens (trimBy (· == ' ') s)
      = tokens (front ++ (trimBy (· == ' ') s ++ back)) := by
        rw [tokens_spaces_append (by simpa using hfront), tokens_append_spaces (by simpa using hback)]
    _ = tokens s := congrArg tokens hs.symm

/-! ### One space for a run -/

/-- A text that does not end with a space and is not empty has a name. -/
theorem tokens_ne_nil (hne : s ≠ []) (hlast : s.getLast? ≠ some ' ') : tokens s ≠ [] := by
  intro h
  have hspaces := flatten_tokensFrom [] s
  rw [← tokens, h] at hspaces
  have hall : ∀ c ∈ s, c = ' ' := by simpa [List.filter_eq_nil_iff] using hspaces.symm
  rw [List.getLast?_eq_some_getLast hne, hall _ (List.getLast_mem hne)] at hlast
  exact hlast rfl

/-- A text that does not end with a space goes on like that without its first character. -/
theorem getLast?_of_cons (h : (c :: s).getLast? ≠ some ' ') : s.getLast? ≠ some ' ' := by
  cases s with
  | nil => simp
  | cons => simpa using h

/-- A text that does not end with a space is copied with one space between two names.  `word` is what
    has been read of the name at its beginning. -/
theorem append_squeeze (word : List Char) (h : s.getLast? ≠ some ' ') :
    word.reverse ++ squeeze word.isEmpty s = [' '].intercalate (tokensFrom word s) := by
  fun_induction tokensFrom word s with
  | case1 word hempty => simpa [squeeze] using hempty
  | case2 word hne => simp [squeeze]
  | case3 word s hempty ih =>
    have hcopied := ih (getLast?_of_cons h)
    simp_all [squeeze]
  | case4 word s hne ih =>
    have hcopied := ih (getLast?_of_cons h)
    -- Something follows the space, so the name is not the last one.
    have hs : s ≠ [] := by rintro rfl; simp at h
    have hnames : tokensFrom [] s ≠ [] := tokens_ne_nil hs (getLast?_of_cons h)
    rw [List.intercalate_cons_of_ne_nil hnames, ← hcopied]
    simp [squeeze, hne]
  | case5 word c s hc ih =>
    have hcopied := ih (getLast?_of_cons h)
    rw [← hcopied, squeeze]
    · simp
    · exact hc

/-- A text that does not begin with a space is copied alike whether or not a space was written. -/
theorem squeeze_eq_of_head? (h : s.head? ≠ some ' ') : squeeze false s = squeeze true s := by
  cases s with
  | nil => rfl
  | cons c s =>
    have hc : c ≠ ' ' := by simpa using h
    rw [squeeze, squeeze]
    · exact hc
    · exact hc

/-- **The canonical spelling** is the names, with one space between two of them. -/
theorem canonical_eq (s : List Char) : canonical s = [' '].intercalate (tokens s) := by
  have hfirst : (trimBy (· == ' ') s).head? ≠ some ' ' :=
    fun h => absurd (Text.head?_trimBy h) (by simp)
  have hlast : (trimBy (· == ' ') s).getLast? ≠ some ' ' :=
    fun h => absurd (Text.getLast?_trimEndBy h) (by simp)
  calc canonical s
      = squeeze true (trimBy (· == ' ') s) := squeeze_eq_of_head? hfirst
    _ = [' '].intercalate (tokens (trimBy (· == ' ') s)) := append_squeeze [] hlast
    _ = [' '].intercalate (tokens s) := by rw [tokens_trimBy]

/-- **The canonical spelling has the names of what was spelled.** -/
theorem tokens_canonical (s : List Char) : tokens (canonical s) = tokens s := by
  rw [canonical_eq]
  exact tokens_intercalate fun w hw => isName_of_mem_tokensFrom (by simp) hw

/-! ### On strings -/

variable {raw : String}

/-- The names of a define string, as lists of characters. -/
theorem toList_names (raw : String) : (names raw).map String.toList = tokens raw.toList := by
  simp [names, Function.comp_def]

/-- **The canonical spelling is the names with one space between two of them.** -/
theorem canonicalize_eq (raw : String) : canonicalize raw = " ".intercalate (names raw) := by
  rw [← String.toList_inj, toList_canonicalize, canonical_eq, String.toList_intercalate, toList_names]
  rfl

/-- Spelling a define string anew changes none of its names. -/
theorem names_canonicalize (raw : String) : names (canonicalize raw) = names raw := by
  rw [names, toList_canonicalize, tokens_canonical, names]

/-- **One spelling for a list of names.**  The canonical spelling of a string is its names with one
    space between two of them, and has the same names.  So it is its own canonical spelling, and two
    strings have the same one just if they have the same names in the same order.  A name is whatever
    stands between two spaces; nothing but spaces is lost. -/
theorem canonical_spelling (raw : String) :
    canonicalize raw = " ".intercalate (names raw) ∧
      names (canonicalize raw) = names raw ∧
      canonicalize (canonicalize raw) = canonicalize raw ∧
      (∀ other, canonicalize raw = canonicalize other ↔ names raw = names other) ∧
      names raw = ((raw.toList.splitOn ' ').filter (!·.isEmpty)).map String.ofList ∧
      (names raw).flatMap String.toList = raw.toList.filter (· ≠ ' ') := by
  refine ⟨canonicalize_eq raw, names_canonicalize raw, ?_, fun other => ⟨fun h => ?_, fun h => ?_⟩,
    ?_, ?_⟩
  · rw [canonicalize_eq (canonicalize raw), names_canonicalize, ← canonicalize_eq]
  · rw [← names_canonicalize raw, h, names_canonicalize]
  · rw [canonicalize_eq, h, ← canonicalize_eq]
  · rw [names, tokens_eq]
  · rw [List.flatMap_def, toList_names]
    exact flatten_tokensFrom [] raw.toList

end Defines

end ShaderKit
