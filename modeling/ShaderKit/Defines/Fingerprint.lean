namespace ShaderKit

/-!
# Fingerprints of define strings

A fingerprint is the 64-bit XXH3 hash, without a seed and with the standard secret, of the UTF-8
form of a text. It names the bucket in which a variation is kept; two texts may share one.

* `Fingerprint.ofBytes` — the hash of a byte sequence
* `Fingerprint.ofText`  — the fingerprint of a text
* `Fingerprint.hex`     — its sixteen hexadecimal digits

The hash has one rule for each class of lengths: up to 16, up to 128, up to 240, and longer.
-/

/-- A 64-bit fingerprint. -/
structure Fingerprint where
  /-- The fingerprint as a number. -/
  value : UInt64 := 0
  deriving DecidableEq, Repr, Inhabited

namespace Fingerprint

/-! ### Words and mixing -/

/-- The number whose `n` bytes stand at `i`, least significant first; bytes beyond the end are zero. -/
def word (n : Nat) (bytes : ByteArray) (i : Nat) : UInt64 :=
  (List.range n).foldr (fun k (acc : UInt64) => acc * 256 + ((bytes[i + k]?).getD 0 : UInt8).toUInt64) 0

/-- The 32-bit word at `i`. -/
abbrev word32 := word 4

/-- The 64-bit word at `i`. -/
abbrev word64 := word 8

/-- The bits of `x` rotated left by `k` places. -/
def rotateLeft (x : UInt64) (k : UInt64) : UInt64 := (x <<< k) ||| (x >>> (64 - k))

/-- The bytes of `x` in reverse order. -/
def swapBytes (x : UInt64) : UInt64 :=
  (List.range 8).foldl (fun acc k => acc * 256 + ((x >>> UInt64.ofNat (8 * k)) &&& 0xFF)) 0

/-- The two halves of the 128-bit product, combined by exclusive or. -/
def foldedProduct (a b : UInt64) : UInt64 :=
  let p := a.toNat * b.toNat
  p.toUInt64 ^^^ (p / UInt64.size).toUInt64

def prime32₁ : UInt64 := 0x9E3779B1
def prime32₂ : UInt64 := 0x85EBCA77
def prime32₃ : UInt64 := 0xC2B2AE3D
def prime64₁ : UInt64 := 0x9E3779B185EBCA87
def prime64₂ : UInt64 := 0xC2B2AE3D27D4EB4F
def prime64₃ : UInt64 := 0x165667B19E3779F9
def prime64₄ : UInt64 := 0x85EBCA77C2B2AE63
def prime64₅ : UInt64 := 0x27D4EB2F165667C5

/-- The final mix of inputs of up to three bytes. -/
def finishShort (h : UInt64) : UInt64 :=
  let h := (h ^^^ (h >>> 33)) * prime64₂
  let h := (h ^^^ (h >>> 29)) * prime64₃
  h ^^^ (h >>> 32)

/-- The final mix of inputs of more than eight bytes. -/
def finish (h : UInt64) : UInt64 :=
  let h := (h ^^^ (h >>> 37)) * 0x165667919E3779F9
  h ^^^ (h >>> 32)

/-- The final mix of inputs of four to eight bytes. -/
def finishMedium (h length : UInt64) : UInt64 :=
  let h := h ^^^ rotateLeft h 49 ^^^ rotateLeft h 24
  let h := h * 0x9FB21C651E98DF25
  let h := (h ^^^ ((h >>> 35) + length)) * 0x9FB21C651E98DF25
  h ^^^ (h >>> 28)

/-- The 192 bytes with which inputs are mixed. -/
def secret : ByteArray := ⟨#[
  0xb8, 0xfe, 0x6c, 0x39, 0x23, 0xa4, 0x4b, 0xbe, 0x7c, 0x01, 0x81, 0x2c, 0xf7, 0x21, 0xad, 0x1c,
  0xde, 0xd4, 0x6d, 0xe9, 0x83, 0x90, 0x97, 0xdb, 0x72, 0x40, 0xa4, 0xa4, 0xb7, 0xb3, 0x67, 0x1f,
  0xcb, 0x79, 0xe6, 0x4e, 0xcc, 0xc0, 0xe5, 0x78, 0x82, 0x5a, 0xd0, 0x7d, 0xcc, 0xff, 0x72, 0x21,
  0xb8, 0x08, 0x46, 0x74, 0xf7, 0x43, 0x24, 0x8e, 0xe0, 0x35, 0x90, 0xe6, 0x81, 0x3a, 0x26, 0x4c,
  0x3c, 0x28, 0x52, 0xbb, 0x91, 0xc3, 0x00, 0xcb, 0x88, 0xd0, 0x65, 0x8b, 0x1b, 0x53, 0x2e, 0xa3,
  0x71, 0x64, 0x48, 0x97, 0xa2, 0x0d, 0xf9, 0x4e, 0x38, 0x19, 0xef, 0x46, 0xa9, 0xde, 0xac, 0xd8,
  0xa8, 0xfa, 0x76, 0x3f, 0xe3, 0x9c, 0x34, 0x3f, 0xf9, 0xdc, 0xbb, 0xc7, 0xc7, 0x0b, 0x4f, 0x1d,
  0x8a, 0x51, 0xe0, 0x4b, 0xcd, 0xb4, 0x59, 0x31, 0xc8, 0x9f, 0x7e, 0xc9, 0xd9, 0x78, 0x73, 0x64,
  0xea, 0xc5, 0xac, 0x83, 0x34, 0xd3, 0xeb, 0xc3, 0xc5, 0x81, 0xa0, 0xff, 0xfa, 0x13, 0x63, 0xeb,
  0x17, 0x0d, 0xdd, 0x51, 0xb7, 0xf0, 0xda, 0x49, 0xd3, 0x16, 0x55, 0x26, 0x29, 0xd4, 0x68, 0x9e,
  0x2b, 0x16, 0xbe, 0x58, 0x7d, 0x47, 0xa1, 0xfc, 0x8f, 0xf8, 0xb8, 0xd1, 0x7a, 0xd0, 0x31, 0xce,
  0x45, 0xcb, 0x3a, 0x8f, 0x95, 0x16, 0x04, 0x28, 0xaf, 0xd7, 0xfb, 0xca, 0xbb, 0x4b, 0x40, 0x7e]⟩

/-- The exclusive or of the secret's words at `i` and `j`. -/
def secretPair (i j : Nat) : UInt64 := word64 secret i ^^^ word64 secret j

/-- Sixteen bytes at `i` mixed with the secret at `j`. -/
def mix16 (bytes : ByteArray) (i j : Nat) : UInt64 :=
  foldedProduct (word64 bytes i ^^^ word64 secret j) (word64 bytes (i + 8) ^^^ word64 secret (j + 8))

/-! ### One rule for each class of lengths -/

/-- Inputs of one to three bytes. -/
def ofUpTo3 (bytes : ByteArray) : UInt64 :=
  let n := bytes.size
  let first := word 1 bytes 0
  let middle := word 1 bytes (n / 2)
  let last := word 1 bytes (n - 1)
  let combined := (first <<< 16) ||| (middle <<< 24) ||| last ||| (n.toUInt64 <<< 8)
  finishShort (combined ^^^ word32 secret 0 ^^^ word32 secret 4)

/-- Inputs of four to eight bytes. -/
def ofUpTo8 (bytes : ByteArray) : UInt64 :=
  let n := bytes.size
  let combined := word32 bytes (n - 4) + (word32 bytes 0 <<< 32)
  finishMedium (combined ^^^ secretPair 8 16) n.toUInt64

/-- Inputs of nine to sixteen bytes. -/
def ofUpTo16 (bytes : ByteArray) : UInt64 :=
  let n := bytes.size
  let low := word64 bytes 0 ^^^ secretPair 24 32
  let high := word64 bytes (n - 8) ^^^ secretPair 40 48
  finish (n.toUInt64 + swapBytes low + high + foldedProduct low high)

/-- Inputs of 17 to 128 bytes: pairs of sixteen bytes from both ends inwards. -/
def ofUpTo128 (bytes : ByteArray) : UInt64 :=
  let n := bytes.size
  let pairs := List.range ((n - 1) / 32 + 1)
  finish <| pairs.foldl (fun acc k =>
    acc + mix16 bytes (16 * k) (32 * k) + mix16 bytes (n - 16 * (k + 1)) (32 * k + 16))
    (n.toUInt64 * prime64₁)

/-- Inputs of 129 to 240 bytes: sixteen bytes at a time, with a mix after the first eight. -/
def ofUpTo240 (bytes : ByteArray) : UInt64 :=
  let n := bytes.size
  let early := (List.range 8).foldl (fun acc k => acc + mix16 bytes (16 * k) (16 * k))
    (n.toUInt64 * prime64₁)
  let late := (List.range (n / 16 - 8)).foldl
    (fun acc k => acc + mix16 bytes (16 * (k + 8)) (16 * k + 3)) (finish early)
  finish (late + mix16 bytes (n - 16) 119)

/-! ### Long inputs -/

/-- The eight running sums of a long input. -/
abbrev Lanes := Vector UInt64 8

/-- The sums at the start. -/
def Lanes.start : Lanes :=
  #v[prime32₃, prime64₁, prime64₂, prime64₃, prime64₄, prime32₂, prime64₅, prime32₁]

/-- Adds the 64 bytes at `i`, keyed by the secret at `j`: each lane gets the product of the halves
    of its keyed word and, unkeyed, the word of its neighbour. -/
def Lanes.add (bytes : ByteArray) (i j : Nat) (lanes : Lanes) : Lanes :=
  lanes.mapFinIdx fun k (sum : UInt64) _ =>
    let keyed : UInt64 := word64 bytes (i + 8 * k) ^^^ word64 secret (j + 8 * k)
    sum + word64 bytes (i + 8 * (k ^^^ 1)) + (keyed &&& (0xFFFFFFFF : UInt64)) * (keyed >>> 32)

/-- Mixes the sums after a block of 1024 bytes. -/
def Lanes.scramble (lanes : Lanes) : Lanes :=
  lanes.mapFinIdx fun k (sum : UInt64) _ =>
    (sum ^^^ (sum >>> 47) ^^^ word64 secret (128 + 8 * k)) * prime32₁

/-- Adds `count` stripes of 64 bytes from `i` on. -/
def Lanes.addStripes (bytes : ByteArray) (i count : Nat) (lanes : Lanes) : Lanes :=
  (List.range count).foldl (fun lanes k => lanes.add bytes (i + 64 * k) (8 * k)) lanes

/-- Inputs of more than 240 bytes: blocks of sixteen stripes, then the stripes that are left, then
    the last 64 bytes. -/
def ofLong (bytes : ByteArray) : UInt64 :=
  let n := bytes.size
  let blocks := (n - 1) / 1024
  let lanes := (List.range blocks).foldl
    (fun lanes b => (lanes.addStripes bytes (1024 * b) 16).scramble) Lanes.start
  let lanes := lanes.addStripes bytes (1024 * blocks) ((n - 1 - 1024 * blocks) / 64)
  let lanes := lanes.add bytes (n - 64) 121
  let lane (k : Nat) : UInt64 := lanes[k]?.getD 0
  finish <| (List.range 4).foldl (fun acc k => acc +
    foldedProduct (lane (2 * k) ^^^ word64 secret (11 + 16 * k))
      (lane (2 * k + 1) ^^^ word64 secret (19 + 16 * k)))
    (n.toUInt64 * prime64₁)

/-! ### The hash -/

/-- The 64-bit XXH3 hash of a byte sequence. -/
def ofBytes (bytes : ByteArray) : Fingerprint where
  value :=
    if bytes.size = 0 then finishShort (secretPair 56 64)
    else if bytes.size ≤ 3 then ofUpTo3 bytes
    else if bytes.size ≤ 8 then ofUpTo8 bytes
    else if bytes.size ≤ 16 then ofUpTo16 bytes
    else if bytes.size ≤ 128 then ofUpTo128 bytes
    else if bytes.size ≤ 240 then ofUpTo240 bytes
    else ofLong bytes

/-- The fingerprint of a text. -/
def ofText (text : String) : Fingerprint := ofBytes text.toUTF8

/-- Sixteen hexadecimal digits, in lower case. -/
def hex (f : Fingerprint) : String :=
  let digits := Nat.toDigits 16 f.value.toNat
  String.ofList (List.replicate (16 - digits.length) '0' ++ digits)

/-- The fingerprint as a value of its type. -/
def structured (f : Fingerprint) : String := s!"DefinesHash({f.value.toNat})"

end Fingerprint

end ShaderKit
