namespace ShaderKit.Text

/-!
# White space

Which characters count as white space, and how text loses characters at its ends.

* `blankRanges` — the 25 code points with the Unicode property White_Space
* `isBlank`     — membership in that table
* `trimBy`      — a text without the characters of a class at either end
-/

/-- The code points of white space as closed ranges, ascending and apart. -/
def blankRanges : List (Nat × Nat) :=
  [(0x09, 0x0D), (0x20, 0x20), (0x85, 0x85), (0xA0, 0xA0), (0x1680, 0x1680), (0x2000, 0x200A),
   (0x2028, 0x2029), (0x202F, 0x202F), (0x205F, 0x205F), (0x3000, 0x3000)]

/-- Whether `c` is white space. -/
def isBlank (c : Char) : Bool :=
  blankRanges.any fun r => r.1 ≤ c.toNat && c.toNat ≤ r.2

/-- The text without the characters of class `p` at its end. -/
def trimEndBy (p : Char → Bool) (s : List Char) : List Char :=
  (s.reverse.dropWhile p).reverse

/-- The text without the characters of class `p` at either end. -/
def trimBy (p : Char → Bool) (s : List Char) : List Char :=
  trimEndBy p (s.dropWhile p)

@[simp] theorem trimEndBy_nil (p : Char → Bool) : trimEndBy p [] = [] := rfl

@[simp] theorem trimBy_nil (p : Char → Bool) : trimBy p [] = [] := rfl

end ShaderKit.Text
