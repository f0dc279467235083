import Mathlib.Data.List.Infix
import ShaderKit.Proofs.Occurrences

namespace ShaderKit.Text

/-!
# Comments

A reader of shader text goes through it once, from left to right.  `//` begins a comment that lasts until
the end of the line, `/*` one that lasts until the next `*/`, and within a comment nothing begins another
one.

* `Mode`, `Mode.next` — where the reader is, and where a character takes it
* `scan`              — where a text takes it
* `active`            — how often a pattern begins outside comments
* `scan_ne_slash`, `scan_ne_star` — what the reader expects depends on the last character
* `Undelimited`       — a text without delimiters
* `scan_outside`, `scan_not_inBlock`, `scan_inBlock` — a text without some of them leads neither in nor
                        out
-/

/-- Where a reader of a text is. -/
inductive Mode where
  /-- Outside comments. -/
  | code
  /-- Outside comments, after a slash that may begin one. -/
  | slash
  /-- In a comment that lasts until the end of the line. -/
  | line
  /-- In a block comment. -/
  | block
  /-- In a block comment, after a star that may begin its end. -/
  | star
  deriving DecidableEq, Repr

namespace Mode

/-- Where a character takes the reader. -/
def next : Mode → Char → Mode
  | code, c => if c = '/' then slash else code
  | slash, c => if c = '/' then line else if c = '*' then block else code
  | line, c => if c = '\n' then code else line
  | block, c => if c = '*' then star else block
  | star, c => if c = '/' then code else if c = '*' then star else block

/-- Outside comments. -/
def outside : Mode → Bool
  | code | slash => true
  | line | block | star => false

/-- In a block comment. -/
def inBlock : Mode → Bool
  | block | star => true
  | code | slash | line => false

variable {m : Mode} {c : Char}

/-- Only a slash makes the reader expect that a comment begins. -/
theorem eq_slash_of_next (h : m.next c = slash) : c = '/' := by
  cases m <;> grind [next]

/-- Only a star makes the reader expect that a comment ends. -/
theorem eq_star_of_next (h : m.next c = star) : c = '*' := by
  cases m <;> grind [next]

/-- Outside comments and not after a slash. -/
theorem eq_code (hm : m.outside = true) (h : m ≠ slash) : m = code := by
  cases m with
  | code => rfl
  | slash => exact (h rfl).elim
  | line | block | star => cases hm

/-- Outside comments, a character that does not complete the beginning of one stays outside. -/
theorem outside_next (hm : m.outside = true) (h : m = slash → c ≠ '/' ∧ c ≠ '*') :
    (m.next c).outside = true := by
  cases m with
  | code => by_cases hc : c = '/' <;> simp [next, hc, outside]
  | slash => obtain ⟨hslash, hstar⟩ := h rfl; simp [next, hslash, hstar, outside]
  | _ => cases hm

/-- Only a star after a slash leads into a block comment. -/
theorem inBlock_next_eq_false (hm : m.inBlock = false) (h : m = slash → c ≠ '*') :
    (m.next c).inBlock = false := by
  cases m with
  | code => by_cases hc : c = '/' <;> simp [next, hc, inBlock]
  | slash => by_cases hc : c = '/' <;> simp [next, hc, h rfl, inBlock]
  | line => by_cases hc : c = '\n' <;> simp [next, hc, inBlock]
  | _ => cases hm

/-- In a comment, only a line feed or a slash may lead out. -/
theorem outside_next_eq_false (hm : m.outside = false) (hfeed : c ≠ '\n') (hslash : c ≠ '/') :
    (m.next c).outside = false := by
  cases m with
  | line => simp [next, hfeed, outside]
  | block | star => by_cases hc : c = '*' <;> simp [next, hc, hslash, outside]
  | code | slash => cases hm

/-- Only a slash after a star leads out of a block comment. -/
theorem inBlock_next (hm : m.inBlock = true) (h : m = star → c ≠ '/') :
    (m.next c).inBlock = true := by
  cases m with
  | block => by_cases hc : c = '*' <;> simp [next, hc, inBlock]
  | star => by_cases hc : c = '*' <;> simp [next, hc, h rfl, inBlock]
  | _ => cases hm

end Mode

variable {m : Mode} {p a b s : List Char} {c : Char}

/-- Where a text takes the reader. -/
def scan (m : Mode) (s : List Char) : Mode := s.foldl Mode.next m

/-- The number of places outside comments at which a pattern begins. -/
def active (p : List Char) : Mode → List Char → Nat
  | _, [] => 0
  | m, c :: s => (if m.outside && p.isPrefixOf (c :: s) then 1 else 0) + active p (m.next c) s

/-- Reading nothing leads nowhere. -/
@[simp] theorem scan_nil : scan m [] = m := rfl

/-- A text is read from the left to the right. -/
@[simp] theorem scan_cons : scan m (c :: s) = scan (m.next c) s := rfl

/-- The reader goes on where the first of two texts has taken it. -/
@[simp] theorem scan_append : scan m (a ++ b) = scan (scan m a) b := List.foldl_append

/-- **Two texts are read one behind the other**, where no occurrence lies across the seam. -/
theorem active_append (h : Apart p a b) :
    active p m (a ++ b) = active p m a + active p (scan m a) b := by
  induction a generalizing m with
  | nil => simp [active]
  | cons c a ih =>
    rw [List.cons_append, active, active, h.isPrefixOf_eq, ih h.of_cons, scan_cons, Nat.add_assoc]

/-- Outside comments a pattern begins no more often than it does at all. -/
theorem active_le_occurrences : active p m s ≤ occurrences p s := by
  induction s generalizing m with
  | nil => exact Nat.le_refl 0
  | cons c s ih =>
    refine Nat.add_le_add ?_ ih
    by_cases hp : p.isPrefixOf (c :: s) <;> cases m.outside <;> simp [hp]

/-- What is missing from a text begins nowhere in it. -/
theorem active_of_not_infix (hp : p ≠ []) (h : ¬ p <:+: s) : active p m s = 0 :=
  Nat.le_zero.mp ((occurrences_eq_zero_iff hp).mpr h ▸ active_le_occurrences)

/-! ### What the reader expects -/

/-- Where only one character leads to, no text leads that ends with another one. -/
theorem scan_ne {k : Mode} {d : Char} (hk : ∀ m c, Mode.next m c = k → c = d) (hm : m ≠ k)
    (hlast : s.getLast? ≠ some d) : scan m s ≠ k := by
  rcases List.eq_nil_or_concat s with rfl | ⟨s, c, rfl⟩
  · exact hm
  · rw [List.concat_eq_append] at hlast ⊢
    rw [scan_append]
    intro hnext
    rw [hk _ c hnext] at hlast
    exact hlast (by simp)

/-- After a text that does not end with a slash, none is pending. -/
theorem scan_ne_slash (hm : m ≠ .slash) (hlast : s.getLast? ≠ some '/') : scan m s ≠ .slash :=
  scan_ne (fun _ _ => Mode.eq_slash_of_next) hm hlast

/-- After a text that does not end with a star, none is pending. -/
theorem scan_ne_star (hm : m ≠ .star) (hlast : s.getLast? ≠ some '*') : scan m s ≠ .star :=
  scan_ne (fun _ _ => Mode.eq_star_of_next) hm hlast

/-- In a comment, a text without line feeds and slashes stays inside. -/
theorem scan_outside_eq_false (hm : m.outside = false) (hfeed : '\n' ∉ s) (hslash : '/' ∉ s) :
    (scan m s).outside = false := by
  induction s generalizing m with
  | nil => exact hm
  | cons c s ih =>
    rw [List.mem_cons, not_or] at hfeed hslash
    exact ih (Mode.outside_next_eq_false hm (Ne.symm hfeed.1) (Ne.symm hslash.1)) hfeed.2 hslash.2

/-! ### Texts without delimiters -/

/-- A text that holds no delimiter of comments. -/
structure Undelimited (s : List Char) : Prop where
  line : ¬ ['/', '/'] <:+: s
  opening : ¬ ['/', '*'] <:+: s
  closing : ¬ ['*', '/'] <:+: s

instance : Decidable (Undelimited s) :=
  decidable_of_iff (¬ ['/', '/'] <:+: s ∧ ¬ ['/', '*'] <:+: s ∧ ¬ ['*', '/'] <:+: s)
    ⟨fun ⟨hline, hopening, hclosing⟩ => ⟨hline, hopening, hclosing⟩,
      fun h => ⟨h.line, h.opening, h.closing⟩⟩

/-- A part of a text without delimiters has none. -/
theorem Undelimited.mono (h : Undelimited s) (ha : a <:+: s) : Undelimited a :=
  ⟨fun hp => h.line (hp.trans ha), fun hp => h.opening (hp.trans ha), fun hp => h.closing (hp.trans ha)⟩

/-- A text without a pair of characters does not go on with the second one after the first one. -/
theorem head?_ne_of_pair {d : Char} (h : ¬ [c, d] <:+: c :: s) : s.head? ≠ some d := by
  intro hhead
  obtain ⟨t, rfl⟩ := List.head?_eq_some_iff.mp hhead
  exact h ⟨[], t, rfl⟩

/-- What is missing from a text is missing from the rest of it. -/
theorem not_infix_of_cons (h : ¬ p <:+: c :: s) : ¬ p <:+: s :=
  fun hin => h (hin.trans (List.suffix_cons c s).isInfix)

/-- Outside comments, a text without their beginnings stays outside. -/
theorem scan_outside (hline : ¬ ['/', '/'] <:+: s) (hopening : ¬ ['/', '*'] <:+: s)
    (hm : m.outside = true) (hhead : m = .slash → s.head? ≠ some '/' ∧ s.head? ≠ some '*') :
    (scan m s).outside = true := by
  induction s generalizing m with
  | nil => exact hm
  | cons c s ih =>
    have hnext : (m.next c).outside = true := by
      refine Mode.outside_next hm fun hslash => ?_
      simpa using hhead hslash
    refine ih (not_infix_of_cons hline) (not_infix_of_cons hopening) hnext fun hslash => ?_
    rw [Mode.eq_slash_of_next hslash] at hline hopening
    exact ⟨head?_ne_of_pair hline, head?_ne_of_pair hopening⟩

/-- A text without delimiters that does not end with a slash leads from code to code. -/
theorem Undelimited.scan_code (h : Undelimited s) (hlast : s.getLast? ≠ some '/') :
    scan .code s = .code := by
  have hout := scan_outside h.line h.opening (m := .code) rfl (by simp)
  exact Mode.eq_code hout (scan_ne_slash (by decide) hlast)

/-- Outside block comments, a text in which none begins stays outside of them. -/
theorem scan_not_inBlock (hopening : ¬ ['/', '*'] <:+: s) (hm : m.inBlock = false)
    (hhead : m = .slash → s.head? ≠ some '*') : (scan m s).inBlock = false := by
  induction s generalizing m with
  | nil => exact hm
  | cons c s ih =>
    have hnext : (m.next c).inBlock = false := by
      refine Mode.inBlock_next_eq_false hm fun hslash => ?_
      simpa using hhead hslash
    refine ih (not_infix_of_cons hopening) hnext fun hslash => ?_
    rw [Mode.eq_slash_of_next hslash] at hopening
    exact head?_ne_of_pair hopening

/-- In a block comment, a text that does not end it stays inside. -/
theorem scan_inBlock (hclosing : ¬ ['*', '/'] <:+: s) (hm : m.inBlock = true)
    (hhead : m = .star → s.head? ≠ some '/') : (scan m s).inBlock = true := by
  induction s generalizing m with
  | nil => exact hm
  | cons c s ih =>
    have hnext : (m.next c).inBlock = true := by
      refine Mode.inBlock_next hm fun hstar => ?_
      simpa using hhead hstar
    refine ih (not_infix_of_cons hclosing) hnext fun hstar => ?_
    rw [Mode.eq_star_of_next hstar] at hclosing
    exact head?_ne_of_pair hclosing

end ShaderKit.Text
