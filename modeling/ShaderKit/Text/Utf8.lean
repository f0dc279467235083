namespace ShaderKit.Text

/-!
# Decoding UTF-8

* `Utf8Fault`   — where decoding stopped and over how many bytes
* `utf8Fault`   — the first fault of a byte sequence that is no UTF-8
* `decodeUtf8`  — the text of a byte sequence, or its first fault

A fault covers the longest beginning of a character that the bytes could still have become: one
byte for a byte that starts nothing, up to three when a longer character breaks off. Bytes that end
inside a character are an incomplete sequence and have no length.
-/

/-- Where and how a byte sequence stops being UTF-8. -/
inductive Utf8Fault where
  /-- Bytes that no character has, `length` of them from index `start` on. -/
  | invalid (start length : Nat)
  /-- The bytes end inside the character that begins at index `start`. -/
  | incomplete (start : Nat)
  deriving DecidableEq, Repr

/-- The wording of a fault. -/
def Utf8Fault.message : Utf8Fault → String
  | .invalid start length => s!"invalid utf-8 sequence of {length} bytes from index {start}"
  | .incomplete start => s!"incomplete utf-8 byte sequence from index {start}"

/-- A byte that continues a character. -/
def isContinuation (b : UInt8) : Bool := 0x80 ≤ b && b ≤ 0xBF

/-- Which second bytes may follow the first byte of a character of three bytes: no overlong form
    and no surrogate. -/
def isSecondOfThree (first second : UInt8) : Bool :=
  if first == 0xE0 then 0xA0 ≤ second && second ≤ 0xBF
  else if first == 0xED then 0x80 ≤ second && second ≤ 0x9F
  else isContinuation second

/-- Which second bytes may follow the first byte of a character of four bytes: no overlong form
    and nothing above the last code point. -/
def isSecondOfFour (first second : UInt8) : Bool :=
  if first == 0xF0 then 0x90 ≤ second && second ≤ 0xBF
  else if first == 0xF4 then 0x80 ≤ second && second ≤ 0x8F
  else isContinuation second

/-- The first fault of the bytes from index `i` on, if they have one. -/
def utf8FaultFrom (i : Nat) : List UInt8 → Option Utf8Fault
  | [] => none
  | a :: s =>
    if a < 0x80 then utf8FaultFrom (i + 1) s
    else if 0xC2 ≤ a && a ≤ 0xDF then
      match s with
      | [] => some (.incomplete i)
      | b :: s => if isContinuation b then utf8FaultFrom (i + 2) s else some (.invalid i 1)
    else if 0xE0 ≤ a && a ≤ 0xEF then
      match s with
      | [] => some (.incomplete i)
      | b :: s =>
        if !isSecondOfThree a b then some (.invalid i 1)
        else match s with
        | [] => some (.incomplete i)
        | c :: s => if isContinuation c then utf8FaultFrom (i + 3) s else some (.invalid i 2)
    else if 0xF0 ≤ a && a ≤ 0xF4 then
      match s with
      | [] => some (.incomplete i)
      | b :: s =>
        if !isSecondOfFour a b then some (.invalid i 1)
        else match s with
        | [] => some (.incomplete i)
        | c :: s =>
          if !isContinuation c then some (.invalid i 2)
          else match s with
          | [] => some (.incomplete i)
          | d :: s => if isContinuation d then utf8FaultFrom (i + 4) s else some (.invalid i 3)
    else some (.invalid i 1)

/-- The first fault of a byte sequence. A sequence without one reports its own end, as a sequence
    that stopped there. -/
def utf8Fault (bytes : ByteArray) : Utf8Fault :=
  (utf8FaultFrom 0 bytes.data.toList).getD (.incomplete bytes.size)

/-- The text whose UTF-8 form is `bytes`, or the first fault. -/
def decodeUtf8 (bytes : ByteArray) : Except Utf8Fault String :=
  match String.fromUTF8? bytes with
  | some text => .ok text
  | none => .error (utf8Fault bytes)

/-- Every text is read back from its UTF-8 form. -/
@[simp] theorem decodeUtf8_toByteArray (text : String) :
    decodeUtf8 text.toByteArray = .ok text := by
  simp only [decodeUtf8, String.fromUTF8?, dif_pos text.isValidUTF8]
  rfl

end ShaderKit.Text
