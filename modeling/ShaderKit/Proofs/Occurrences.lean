import ShaderKit.Text.Replace

namespace ShaderKit.Text

/-!
# Occurrences of a pattern

A text is put together from parts, and a pattern is looked for in it.  As long as no occurrence lies across
the seam of two parts, each of them can be looked at by itself.

* `occurrences`          — at how many places a pattern occurs
* `Apart`                — no occurrence lies across the seam of two texts
* `occurrences_append`, `replaceAll_append` — what happens then at both sides of the seam
* `Apart.eq_or_eq`       — each occurrence lies at one of the sides
* `Sharp`                — the first character of a pattern is nowhere else in it
* `replaceAll_once`      — the only occurrence of a sharp pattern is replaced
* `replaceAll_induction` — a text and what replacing makes of it, from the end to the front
* `replaceAll_eq_append` — where a pattern that occurs after replacing was before
* `replaceAll_undo`      — a replacement is taken back by replacing the other way round
* `Leaves`               — a replacement that leaves another pattern alone: the pattern begins where it began
                           before, and nowhere else
-/

variable {p pat rep a b s u w x : List Char} {c : Char}

/-- The number of places at which a pattern occurs. -/
def occurrences (p : List Char) : List Char → Nat
  | [] => 0
  | c :: s => (if p.isPrefixOf (c :: s) then 1 else 0) + occurrences p s

/-- A pattern that occurs nowhere is no part of the text. -/
theorem occurrences_eq_zero_iff (hp : p ≠ []) : occurrences p s = 0 ↔ ¬ p <:+: s := by
  induction s with
  | nil => simpa [occurrences] using hp
  | cons c s ih =>
    rw [occurrences, Nat.add_eq_zero_iff, ih, List.infix_cons_iff, not_or]
    refine and_congr_left fun _ => ?_
    simp [List.isPrefixOf_iff_prefix]

/-! ### Parts of a text -/

/-- No occurrence of the pattern lies across the seam of two texts. -/
def Apart (p a b : List Char) : Prop :=
  ∀ x y, p = x ++ y → x ≠ [] → y ≠ [] → x <:+ a → ¬ y <+: b

/-- The second text begins with a character that the pattern has at most in front. -/
theorem apart_of_head (h : c ∉ p.tail) : Apart p a (c :: b) := by
  rintro x y rfl hx hy - hb
  cases x with | nil => exact hx rfl | cons d x => ?_
  cases y with | nil => exact hy rfl | cons e y => ?_
  obtain ⟨rfl, -⟩ := List.cons_prefix_cons.mp hb
  exact h (by simp)

/-- The first text ends with a character that the pattern has at most at its end. -/
theorem apart_of_last (hlast : a.getLast? = some c) (h : c ∉ p.dropLast) : Apart p a b := by
  rintro x y rfl hx hy ⟨front, rfl⟩ -
  have hd : x.getLast? = some (x.getLast hx) := List.getLast?_eq_some_getLast hx
  rw [List.getLast?_append, hd, Option.some_or, Option.some.injEq] at hlast
  rw [List.dropLast_append_of_ne_nil hy] at h
  exact h (List.mem_append_left _ (List.mem_of_getLast? (hlast ▸ hd)))

/-- The first text does not have the first character of the pattern. -/
theorem apart_of_not_mem (h : c ∉ a) : Apart (c :: p) a b := by
  rintro x y hp hx - ⟨front, rfl⟩ -
  cases x with | nil => exact hx rfl | cons d x => ?_
  cases hp
  exact h (by simp)

/-- A single character lies across no seam. -/
theorem apart_singleton : Apart [c] a b := by
  rintro x y hp hx hy - -
  have hlength := congrArg List.length hp
  rw [List.length_append, List.length_singleton] at hlength
  have hxpos := List.length_pos_iff.mpr hx
  have hypos := List.length_pos_iff.mpr hy
  omega

/-- A shorter text in front makes no difference. -/
theorem Apart.of_cons (h : Apart p (c :: a) b) : Apart p a b :=
  fun x y hp hx hy ha => h x y hp hx hy (ha.trans (List.suffix_cons c a))

/-- What begins in the first text ends there. -/
theorem Apart.prefix_iff (h : Apart p (c :: a) b) : p <+: c :: (a ++ b) ↔ p <+: c :: a := by
  refine ⟨fun hp => ?_, fun hp => hp.trans ⟨b, rfl⟩⟩
  rcases List.prefix_or_prefix_of_prefix hp (List.prefix_append (c :: a) b) with ha | ⟨y, rfl⟩
  · exact ha
  · cases y with
    | nil => simp
    | cons d y =>
      have hb : d :: y <+: b := (List.prefix_append_right_inj (c :: a)).mp hp
      exact (h (c :: a) (d :: y) rfl (by simp) (by simp) List.suffix_rfl hb).elim

/-- An occurrence lies on one side of the seam. -/
theorem Apart.eq_or_eq (h : Apart p a b) (heq : a ++ b = u ++ (p ++ w)) :
    (∃ v, a = u ++ (p ++ v) ∧ w = v ++ b) ∨ ∃ v, u = a ++ v ∧ b = v ++ (p ++ w) := by
  rcases List.append_eq_append_iff.mp heq with ⟨v, rfl, rfl⟩ | ⟨x, rfl, hx⟩
  · exact .inr ⟨v, rfl, rfl⟩
  · rcases List.append_eq_append_iff.mp hx with ⟨v, rfl, rfl⟩ | ⟨y, rfl, rfl⟩
    · exact .inl ⟨v, rfl, rfl⟩
    · -- The occurrence begins with `x` and ends with `y`, so that one of them is empty.
      by_cases hxnil : x = []
      · exact .inr ⟨[], by simp [hxnil], by simp [hxnil]⟩
      · by_cases hynil : y = []
        · exact .inl ⟨[], by simp [hynil], by simp [hynil]⟩
        · exact (h x y rfl hxnil hynil (List.suffix_append u x) (List.prefix_append y w)).elim

/-- Whether the pattern begins in front of the seam is told there. -/
theorem Apart.isPrefixOf_eq (h : Apart p (c :: a) b) :
    p.isPrefixOf (c :: (a ++ b)) = p.isPrefixOf (c :: a) := by
  rw [Bool.eq_iff_iff, List.isPrefixOf_iff_prefix, List.isPrefixOf_iff_prefix, h.prefix_iff]

/-- **The occurrences at both sides of a seam add up.** -/
theorem occurrences_append (h : Apart p a b) :
    occurrences p (a ++ b) = occurrences p a + occurrences p b := by
  induction a with
  | nil => simp [occurrences]
  | cons c a ih =>
    rw [List.cons_append, occurrences, occurrences, h.isPrefixOf_eq, ih h.of_cons, Nat.add_assoc]

/-- A pattern is missing from a text just if it is missing at both sides of the seam. -/
theorem not_infix_append (hp : p ≠ []) (h : Apart p a b) :
    ¬ p <:+: a ++ b ↔ ¬ p <:+: a ∧ ¬ p <:+: b := by
  rw [← occurrences_eq_zero_iff hp, occurrences_append h, Nat.add_eq_zero_iff,
    occurrences_eq_zero_iff hp, occurrences_eq_zero_iff hp]

/-- Replacing comes to the seam and begins there anew, even while an occurrence is being skipped. -/
theorem replaceFrom_append (h : Apart pat a b) (n : Nat) (hn : n ≤ a.length) :
    replaceFrom pat rep n (a ++ b) = replaceFrom pat rep n a ++ replaceFrom pat rep 0 b := by
  induction a generalizing n with
  | nil => rw [Nat.le_zero.mp hn]; rfl
  | cons c a ih =>
    cases n with
    | succ n => exact ih h.of_cons n (Nat.le_of_succ_le_succ hn)
    | zero =>
      rw [List.cons_append, replaceFrom, replaceFrom, h.isPrefixOf_eq]
      split
      · rename_i hprefix
        -- The occurrence ends in the first text.
        have hlength := (List.isPrefixOf_iff_prefix.mp hprefix).length_le
        rw [ih h.of_cons _ (by simp at hlength; omega), List.append_assoc]
      · rw [ih h.of_cons 0 (Nat.zero_le _), List.cons_append]

/-- **The two sides of a seam are replaced on their own.** -/
theorem replaceAll_append (h : Apart pat a b) :
    replaceAll pat rep (a ++ b) = replaceAll pat rep a ++ replaceAll pat rep b := by
  unfold replaceAll
  split
  · rfl
  · exact replaceFrom_append h 0 (Nat.zero_le _)

/-! ### Sharp patterns -/

/-- The first character of a pattern is nowhere else in it, so that no two occurrences overlap. -/
def Sharp (p : List Char) : Prop := ∃ c t, p = c :: t ∧ c ∉ t

/-- A sharp pattern is not empty. -/
theorem Sharp.ne_nil (h : Sharp p) : p ≠ [] := by
  obtain ⟨c, t, rfl, -⟩ := h
  exact List.cons_ne_nil c t

/-- Nothing before an occurrence of a sharp pattern can run into it. -/
theorem Sharp.apart_left (h : Sharp p) : Apart p a (p ++ b) := by
  obtain ⟨c, t, rfl, hc⟩ := h
  exact apart_of_head hc

/-- And it runs into nothing behind it. -/
theorem Sharp.apart_right (h : Sharp p) : Apart p p b := by
  obtain ⟨c, t, rfl, hc⟩ := h
  -- An occurrence that begins with the first one begins in front of it, or lies across no seam.
  rintro x y hp hx hy hsuffix -
  cases x with | nil => exact hx rfl | cons d x => ?_
  obtain ⟨rfl, rfl⟩ := List.cons_eq_cons.mp hp
  rcases List.suffix_cons_iff.mp hsuffix with heq | hsuffix
  · exact hy (by simpa using heq)
  · exact hc (hsuffix.mem List.mem_cons_self)

/-- A pattern does not occur where its first character is missing. -/
theorem occurrences_of_not_mem (h : c ∉ s) : occurrences (c :: p) s = 0 := by
  rw [occurrences_eq_zero_iff (List.cons_ne_nil c p)]
  exact fun hin => h (hin.mem List.mem_cons_self)

/-- A sharp pattern occurs in itself once. -/
theorem Sharp.occurrences_self (h : Sharp p) : occurrences p p = 1 := by
  obtain ⟨c, t, rfl, hc⟩ := h
  rw [occurrences, occurrences_of_not_mem hc, List.isPrefixOf_iff_prefix.mpr List.prefix_rfl]
  rfl

/-- An occurrence of a sharp pattern adds one to those on its sides. -/
theorem Sharp.occurrences_parts (h : Sharp p) :
    occurrences p (a ++ (p ++ b)) = occurrences p a + (1 + occurrences p b) := by
  rw [occurrences_append h.apart_left, occurrences_append h.apart_right, h.occurrences_self]

/-- The parts of a text around the only occurrence of a pattern. -/
theorem Sharp.exists_parts (h : Sharp p) (hone : occurrences p s = 1) :
    ∃ a b, s = a ++ (p ++ b) ∧ ¬ p <:+: a ∧ ¬ p <:+: b := by
  have hin : p <:+: s := by
    refine Classical.not_not.mp (mt (occurrences_eq_zero_iff h.ne_nil).mpr ?_)
    omega
  obtain ⟨a, b, rfl⟩ := hin
  rw [List.append_assoc] at hone ⊢
  rw [h.occurrences_parts] at hone
  refine ⟨a, b, rfl, ?_, ?_⟩
  · exact (occurrences_eq_zero_iff h.ne_nil).mp (by omega)
  · exact (occurrences_eq_zero_iff h.ne_nil).mp (by omega)

/-! ### Before and after replacing -/

/-- A text and what replacing makes of it: an occurrence in front is replaced, and a character at which
    none starts is kept. -/
theorem replaceAll_induction (hpat : pat ≠ []) {P : List Char → List Char → Prop} (nil : P [] [])
    (hit : ∀ s, P s (replaceAll pat rep s) → P (pat ++ s) (rep ++ replaceAll pat rep s))
    (miss : ∀ c s, ¬ pat <+: c :: s → P s (replaceAll pat rep s) →
      P (c :: s) (c :: replaceAll pat rep s)) (s : List Char) : P s (replaceAll pat rep s) := by
  -- What comes after an occurrence is shorter.
  induction hlength : s.length using Nat.strongRecOn generalizing s with
  | ind n ih =>
    subst hlength
    cases s with
    | nil => simpa using nil
    | cons c s =>
      by_cases hprefix : pat <+: c :: s
      · obtain ⟨rest, hrest⟩ := hprefix
        rw [← hrest, replaceAll_append_self hpat]
        refine hit rest (ih rest.length ?_ rest rfl)
        have hpos := List.length_pos_iff.mpr hpat
        rw [← hrest, List.length_append]
        omega
      · have hkept := replaceAll_cons_of_not_prefix hprefix rep
        rw [hkept]
        exact miss c s hprefix (ih s.length (by simp) s rfl)

/-- Replacing a pattern by itself changes nothing. -/
theorem replaceAll_self (hpat : pat ≠ []) (s : List Char) : replaceAll pat pat s = s :=
  replaceAll_induction hpat (P := fun s t => t = s) rfl (fun _ ih => by rw [ih])
    (fun _ _ _ ih => by rw [ih]) s

/-- Where the pattern is missing, nothing is replaced. -/
theorem replaceAll_of_not_infix (h : ¬ pat <:+: s) : replaceAll pat rep s = s := by
  induction s with
  | nil => exact replaceAll_nil pat rep
  | cons c s ih =>
    rw [List.infix_cons_iff, not_or] at h
    have hkept := replaceAll_cons_of_not_prefix h.1 rep
    rw [hkept, ih h.2]

/-- The only occurrence of a sharp pattern is replaced. -/
theorem replaceAll_once (h : Sharp pat) (ha : ¬ pat <:+: a) (hb : ¬ pat <:+: b) :
    replaceAll pat rep (a ++ (pat ++ b)) = a ++ (rep ++ b) := by
  rw [replaceAll_append h.apart_left, replaceAll_append_self h.ne_nil, replaceAll_of_not_infix ha,
    replaceAll_of_not_infix hb]

/-- If the replacement ends as the pattern does, the text ends as before. -/
theorem getLast?_replaceAll (hpat : pat ≠ []) (hlast : rep.getLast? = pat.getLast?) (s : List Char) :
    (replaceAll pat rep s).getLast? = s.getLast? :=
  replaceAll_induction hpat (P := fun s t => t.getLast? = s.getLast?) rfl
    (fun s ih => by rw [List.getLast?_append, List.getLast?_append, ih, hlast])
    (fun c s _ ih => by rw [List.getLast?_cons, List.getLast?_cons, ih]) s

/-- What a text begins with after replacing it began with before, up to the first replacement. -/
theorem prefix_of_prefix_replaceAll (hpat : pat ≠ []) (hx : c ∉ x)
    (h : x <+: replaceAll pat (c :: rep) s) : x <+: s := by
  revert h hx
  refine replaceAll_induction hpat (P := fun s t => ∀ x, c ∉ x → x <+: t → x <+: s) ?_ ?_ ?_ s x
  · exact fun x _ hx => hx
  · intro s _ x hx h
    cases x with
    | nil => exact List.nil_prefix
    | cons d x =>
      obtain ⟨rfl, -⟩ := List.cons_prefix_cons.mp h
      exact (hx List.mem_cons_self).elim
  · intro d s _ ih x hx h
    cases x with
    | nil => exact List.nil_prefix
    | cons e x =>
      obtain ⟨heq, hprefix⟩ := List.cons_prefix_cons.mp h
      have htail : c ∉ x := fun hmem => hx (List.mem_cons_of_mem _ hmem)
      exact List.cons_prefix_cons.mpr ⟨heq, ih x htail hprefix⟩

/-- Where a pattern occurs after replacing.  If the pattern neither begins nor ends within a replacement, an
    occurrence was there before, at a place where nothing is replaced, or it is part of a replacement. -/
theorem replaceAll_eq_append (hpat : pat ≠ []) (hp : p ≠ []) (hhead : rep.head? = some c)
    (htail : c ∉ p.tail) (hapart : ∀ b, Apart p rep b) (h : replaceAll pat rep s = u ++ (p ++ w)) :
    (∃ u' w', s = u' ++ (p ++ w') ∧ u = replaceAll pat rep u' ∧ ¬ pat <+: p ++ w') ∨
      ∃ u' w' x y, s = u' ++ (pat ++ w') ∧ rep = x ++ (p ++ y) ∧ u = replaceAll pat rep u' ++ x := by
  obtain ⟨rep, rfl⟩ := List.head?_eq_some_iff.mp hhead
  obtain ⟨d, p, rfl⟩ := List.exists_cons_of_ne_nil hp
  revert h
  refine replaceAll_induction hpat (P := fun s t => ∀ u, t = u ++ (d :: p ++ w) →
    (∃ u' w', s = u' ++ (d :: p ++ w') ∧ u = replaceAll pat (c :: rep) u' ∧ ¬ pat <+: d :: p ++ w') ∨
      ∃ u' w' x y, s = u' ++ (pat ++ w') ∧ c :: rep = x ++ (d :: p ++ y) ∧
        u = replaceAll pat (c :: rep) u' ++ x) ?_ ?_ ?_ s u
  · intro u h
    simp at h
  · intro s ih u h
    rcases (hapart _).eq_or_eq h with ⟨y, hrep, -⟩ | ⟨v, rfl, hv⟩
    · exact .inr ⟨[], s, u, y, rfl, hrep, by simp⟩
    · have hself := replaceAll_append_self hpat (c :: rep)
      rcases ih v hv with ⟨u', w', rfl, rfl, hnot⟩ | ⟨u', w', x, y, rfl, hx, rfl⟩
      · exact .inl ⟨pat ++ u', w', by simp, (hself u').symm, hnot⟩
      · exact .inr ⟨pat ++ u', w', x, y, by simp, hx, by rw [hself, List.append_assoc]⟩
  · intro e s hmiss ih u h
    cases u with
    | nil =>
      obtain ⟨rfl, htext⟩ := List.cons_eq_cons.mp h
      obtain ⟨w', rfl⟩ := prefix_of_prefix_replaceAll hpat htail ⟨w, htext.symm⟩
      exact .inl ⟨[], w', rfl, by simp, hmiss⟩
    | cons f u =>
      obtain ⟨rfl, htext⟩ := List.cons_eq_cons.mp h
      -- No occurrence begins here, however much of the text is looked at.
      have hkept : ∀ u' v, s = u' ++ v → replaceAll pat (c :: rep) (e :: u') =
          e :: replaceAll pat (c :: rep) u' := fun u' v hs =>
        replaceAll_cons_of_not_prefix (fun hfront => hmiss (hfront.trans ⟨v, by rw [hs]; rfl⟩)) _
      rcases ih u htext with ⟨u', w', hs, rfl, hnot⟩ | ⟨u', w', x, y, hs, hx, rfl⟩
      · exact .inl ⟨e :: u', w', by rw [hs]; rfl, (hkept u' _ hs).symm, hnot⟩
      · exact .inr ⟨e :: u', w', x, y, by rw [hs]; rfl, hx, by rw [hkept u' _ hs]; rfl⟩

/-- Behind a text without its first character a pattern occurs at the end alone. -/
theorem eq_of_append_eq_append {d : Char} {x y : List Char} (hhead : p.head? = some d) (hd : d ∉ a)
    (h : a ++ p = x ++ (p ++ y)) : x = a := by
  obtain ⟨q, rfl⟩ := List.head?_eq_some_iff.mp hhead
  rcases (apart_of_not_mem hd).eq_or_eq h with ⟨z, ha, -⟩ | ⟨z, rfl, hz⟩
  · exact (hd (by simp [ha])).elim
  · have hlength := congrArg List.length hz
    simp only [List.length_append] at hlength
    have hnil : z = [] := List.length_eq_zero_iff.mp (by omega)
    simp [hnil]

/-- Replacing makes no text vanish. -/
theorem eq_nil_of_replaceAll_eq_nil (hpat : pat ≠ []) (hrep : rep ≠ []) (h : replaceAll pat rep s = []) :
    s = [] := by
  revert h
  refine replaceAll_induction hpat (P := fun s t => t = [] → s = []) (fun _ => rfl) ?_ ?_ s
  · exact fun s _ h => (hrep (List.append_eq_nil_iff.mp h).1).elim
  · exact fun c s _ _ h => (List.cons_ne_nil c _ h).elim

/-- **Taking a replacement back.**  What was written for a pattern consists of a text `a` and a pattern `p` that
    occurs in both together at the end alone, and where `p` occurred before, the pattern did.  Then what was
    written is found where the pattern was and nowhere else. -/
theorem replaceAll_undo {d : Char} (hpat : pat ≠ []) (hhead : (a ++ p).head? = some c) (htail : c ∉ p.tail)
    (hfirst : p.head? = some d) (hd : d ∉ a) (hapart : ∀ b, Apart p (a ++ p) b)
    (honly : ∀ u w, s = u ++ (p ++ w) → pat <+: p ++ w) :
    replaceAll (a ++ p) pat (replaceAll pat (a ++ p) s) = s := by
  have hp : p ≠ [] := by
    rintro rfl
    cases hfirst
  have hrep : a ++ p ≠ [] := by
    rw [Ne, List.append_eq_nil_iff]
    exact fun h => hp h.2
  revert honly
  refine replaceAll_induction hpat (P := fun s t => (∀ u w, s = u ++ (p ++ w) → pat <+: p ++ w) →
    replaceAll (a ++ p) pat t = s) (fun _ => replaceAll_nil _ _) ?_ ?_ s
  · intro s ih honly
    rw [replaceAll_append_self hrep, ih fun u w hs => honly (pat ++ u) w (by rw [hs, List.append_assoc])]
  · intro e s hmiss ih honly
    have hkept := replaceAll_cons_of_not_prefix hmiss (a ++ p)
    have hnot : ¬ a ++ p <+: e :: replaceAll pat (a ++ p) s := by
      rintro ⟨w, hw⟩
      rw [List.append_assoc, ← hkept] at hw
      rcases replaceAll_eq_append hpat hp hhead htail hapart hw.symm with
        ⟨u', w', hs, -, hnone⟩ | ⟨u', w', x, y, hs, hx, ha⟩
      · exact hnone (honly u' w' hs)
      · -- All of `a` was written here, so that the pattern begins here as well.
        have hu : replaceAll pat (a ++ p) u' = [] := by
          have hxa := eq_of_append_eq_append hfirst hd hx
          simpa [hxa] using ha
        rw [eq_nil_of_replaceAll_eq_nil hpat hrep hu] at hs
        exact hmiss ⟨w', hs.symm⟩
    have hback := replaceAll_cons_of_not_prefix hnot pat
    rw [hback, ih fun u w hs => honly (e :: u) w (by rw [hs]; rfl)]

/-- A replacement that leaves another pattern alone: the pattern neither begins nor ends within what is
    written, which ends as it did before. -/
structure Leaves (p pat rep : List Char) : Prop where
  ne_nil : p ≠ [] ∧ pat ≠ []
  head : ∃ c, rep.head? = some c ∧ c ∉ p.tail
  apart : ∀ b, Apart p rep b
  not_infix : ¬ p <:+: rep
  last : rep.getLast? = pat.getLast?

/-- What a text begins with it begins with after replacing, up to the first occurrence. -/
theorem prefix_replaceAll (hhead : pat.head? = some c) (hx : c ∉ x) (h : x <+: s) :
    x <+: replaceAll pat rep s := by
  obtain ⟨q, rfl⟩ := List.head?_eq_some_iff.mp hhead
  revert h hx
  refine replaceAll_induction (List.cons_ne_nil c q) (P := fun s t => ∀ x, c ∉ x → x <+: s → x <+: t)
    ?_ ?_ ?_ s x
  · exact fun x _ hx => hx
  · intro s _ x hx h
    cases x with
    | nil => exact List.nil_prefix
    | cons d x =>
      obtain ⟨rfl, -⟩ := List.cons_prefix_cons.mp h
      exact (hx List.mem_cons_self).elim
  · intro d s _ ih x hx h
    cases x with
    | nil => exact List.nil_prefix
    | cons e x =>
      obtain ⟨heq, hprefix⟩ := List.cons_prefix_cons.mp h
      exact List.cons_prefix_cons.mpr ⟨heq, ih x (fun hmem => hx (List.mem_cons_of_mem _ hmem)) hprefix⟩

/-- A replacement that leaves a pattern alone keeps the places at which it begins. -/
theorem Leaves.isPrefixOf_eq {e : Char} (h : Leaves p pat rep) (hself : Leaves p pat pat) :
    p.isPrefixOf (e :: replaceAll pat rep s) = p.isPrefixOf (e :: s) := by
  obtain ⟨c, hc, hrep⟩ := h.head
  obtain ⟨d, hd, hpat⟩ := hself.head
  obtain ⟨f, p, rfl⟩ := List.exists_cons_of_ne_nil h.ne_nil.1
  obtain ⟨rep, rfl⟩ := List.head?_eq_some_iff.mp hc
  rw [Bool.eq_iff_iff, List.isPrefixOf_iff_prefix, List.isPrefixOf_iff_prefix, List.cons_prefix_cons,
    List.cons_prefix_cons]
  exact and_congr_right fun _ =>
    ⟨prefix_of_prefix_replaceAll h.ne_nil.2 hrep, prefix_replaceAll hd hpat⟩

/-- Replacing does not bring about a pattern that it leaves alone. -/
theorem Leaves.not_infix_replaceAll (h : Leaves p pat rep) (hs : ¬ p <:+: s) :
    ¬ p <:+: replaceAll pat rep s := by
  obtain ⟨hp, hpat⟩ := h.ne_nil
  obtain ⟨c, hhead, htail⟩ := h.head
  rintro ⟨u, w, hin⟩
  rw [List.append_assoc] at hin
  rcases replaceAll_eq_append hpat hp hhead htail h.apart hin.symm with
    ⟨u', w', rfl, -⟩ | ⟨-, -, x, y, -, hx, -⟩
  · exact hs ⟨u', w', by simp⟩
  · exact h.not_infix ⟨x, y, by rw [hx, List.append_assoc]⟩

end ShaderKit.Text
