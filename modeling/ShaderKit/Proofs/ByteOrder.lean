import Mathlib.Algebra.Group.Nat.Defs

namespace ShaderKit.Text

/-!
# The order of texts is the order of their bytes

Texts are compared character by character.  In UTF-8 they may as well be compared byte by byte: a longer
encoding begins with a greater byte, and in encodings of one length the bits of the characters come in order.

* `bytes`             — the UTF-8 form of a text
* `Encoding`          — the first byte of a character, and how many bytes come behind it
* `continuation`      — these bytes, six bits each
* `Precedes`          — bytes that come before others, whatever follows
* `precedes_encoded`  — encodings are in the order of the characters
* `bytes_lt_bytes`    — so texts are in the order of their bytes
-/

open String (utf8EncodeChar)

variable {c d : Char} {n m k l first first' : Nat} {front back : List UInt8}

/-- The UTF-8 form of a text. -/
def bytes (s : String) : List UInt8 := s.toUTF8.data.toList

/-! ### Bytes that decide -/

/-- The bytes come before those others, whatever follows on either side. -/
def Precedes (front back : List UInt8) : Prop := ∀ s t : List UInt8, front ++ s < back ++ t

theorem precedes_cons (hm : m < 256) (hle : n ≤ m) (hrest : n = m → Precedes front back) :
    Precedes (UInt8.ofNat n :: front) (UInt8.ofNat m :: back) := by
  intro s t
  rw [List.cons_append, List.cons_append, List.cons_lt_cons_iff]
  rcases Nat.lt_or_eq_of_le hle with hlt | rfl
  · exact .inl ((UInt8.ofNat_lt_iff_lt (Nat.lt_trans hlt hm) hm).mpr hlt)
  · exact .inr ⟨rfl, hrest rfl s t⟩

/-! ### Encodings of characters -/

/-- The last `k` bytes of the encoding of a code point, with six bits in each. -/
def continuation : Nat → Nat → List UInt8
  | 0, _ => []
  | k + 1, n => UInt8.ofNat (n / 64 ^ k % 64 + 128) :: continuation k n

/-- How many bytes come behind the first one in the encoding of a code point, and the first one itself. -/
inductive Encoding (n : Nat) : Nat → Nat → Prop where
  | one (le : n ≤ 0x7F) : Encoding n 0 n
  | two (lt : 0x7F < n) (le : n ≤ 0x7FF) : Encoding n 1 (n / 64 + 0xC0)
  | three (lt : 0x7FF < n) (le : n ≤ 0xFFFF) : Encoding n 2 (n / 64 ^ 2 + 0xE0)
  | four (lt : 0xFFFF < n) (le : n < 0x110000) : Encoding n 3 (n / 64 ^ 3 + 0xF0)

theorem exists_encoding (c : Char) : ∃ k first, Encoding c.val.toNat k first ∧
    utf8EncodeChar c = UInt8.ofNat first :: continuation k c.val.toNat := by
  have hmax : c.val.toNat < 0x110000 := c.valid.elim (fun h => by omega) fun h => h.2
  unfold utf8EncodeChar
  generalize c.val.toNat = n at hmax
  dsimp only
  split
  · exact ⟨0, _, .one ‹_›, rfl⟩
  split
  · refine ⟨1, _, .two (by omega) ‹_›, ?_⟩
    rw [Nat.mod_eq_of_lt (by omega : n / 64 < 32)]
    simp [continuation]
  split
  · refine ⟨2, _, .three (by omega) ‹_›, ?_⟩
    rw [Nat.mod_eq_of_lt (by omega : n / 4096 < 16)]
    simp [continuation]
  · refine ⟨3, _, .four (by omega) hmax, ?_⟩
    rw [Nat.mod_eq_of_lt (by omega : n / 262144 < 8)]
    simp [continuation]

/-- The first byte never decides wrongly.  If it does not decide, the encodings are of one length, and the other
    bits do. -/
theorem Encoding.first_le (h : Encoding n k first) (h' : Encoding m l first') (hlt : n < m) :
    first' < 256 ∧ first ≤ first' ∧ (first = first' → k = l ∧ n % 64 ^ k < m % 64 ^ k) := by
  cases h <;> cases h' <;> refine ⟨by omega, by omega, fun heq => ⟨by omega, by omega⟩⟩

theorem precedes_continuation (h : n % 64 ^ k < m % 64 ^ k) :
    Precedes (continuation k n) (continuation k m) := by
  induction k with
  | zero => omega
  | succ k ih =>
    have hsplit : n % 64 ^ k + 64 ^ k * (n / 64 ^ k % 64) < m % 64 ^ k + 64 ^ k * (m / 64 ^ k % 64) := by
      simpa [Nat.mod_pow_succ] using h
    have hm : m % 64 ^ k < 64 ^ k := Nat.mod_lt _ (Nat.pow_pos (by decide))
    -- A greater digit would outweigh all that comes behind it.
    have hdigit : n / 64 ^ k % 64 ≤ m / 64 ^ k % 64 := by
      refine Nat.le_of_not_lt fun hgt => ?_
      have hmul := Nat.mul_le_mul_left (64 ^ k) hgt
      rw [Nat.mul_succ] at hmul
      omega
    refine precedes_cons (by omega) (by omega) fun heq => ih ?_
    rw [show n / 64 ^ k % 64 = m / 64 ^ k % 64 by omega] at hsplit
    exact Nat.lt_of_add_lt_add_right hsplit

/-- **Encodings are in the order of the characters.** -/
theorem precedes_encoded (h : c < d) : Precedes (utf8EncodeChar c) (utf8EncodeChar d) := by
  obtain ⟨k, first, henc, hc⟩ := exists_encoding c
  obtain ⟨l, first', henc', hd⟩ := exists_encoding d
  obtain ⟨hbound, hle, hrest⟩ := henc.first_le henc' h
  rw [hc, hd]
  refine precedes_cons hbound hle fun heq => ?_
  obtain ⟨rfl, hlt⟩ := hrest heq
  exact precedes_continuation hlt

/-! ### Texts -/

theorem bytes_eq (s : String) : bytes s = s.toList.flatMap utf8EncodeChar := by
  have hs : s.toByteArray = s.toList.utf8Encode := by rw [← String.toByteArray_ofList, String.ofList_toList]
  rw [bytes, String.toUTF8_eq_toByteArray, hs]
  exact List.toList_data_toByteArray

theorem flatMap_lt_flatMap {s t : List Char} (h : s < t) :
    s.flatMap utf8EncodeChar < t.flatMap utf8EncodeChar := by
  induction h with
  | @nil c t =>
    obtain ⟨k, first, -, hc⟩ := exists_encoding c
    rw [List.flatMap_cons, hc]
    exact List.Lex.nil
  | rel hlt => exact precedes_encoded hlt _ _
  | cons hlt ih => exact List.append_left_lt ih

/-- **Texts are in the order of their bytes.** -/
theorem bytes_lt_bytes {s t : String} : bytes s < bytes t ↔ s < t := by
  have hmono {s t : String} (h : s < t) : bytes s < bytes t := by
    rw [bytes_eq, bytes_eq]
    exact flatMap_lt_flatMap h
  refine ⟨fun h => ?_, hmono⟩
  rcases Decidable.em (s < t) with hlt | hge
  · exact hlt
  -- Otherwise the texts are equal or in the other order, and so are their bytes.
  rcases Decidable.em (t < s) with hgt | hle
  · exact absurd h (List.lt_asymm (hmono hgt))
  · rw [String.le_antisymm (String.not_lt.mp hle) (String.not_lt.mp hge)] at h
    exact absurd h (List.lt_irrefl _)

end ShaderKit.Text
