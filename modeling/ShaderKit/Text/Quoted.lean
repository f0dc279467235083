import ShaderKit.Text.Blank

namespace ShaderKit.Text

/-!
# Quoted text

* `escapeChar` — the written form of one character between double quotes
* `quoted`     — a text between double quotes, with its special characters escaped

A quote, a backslash, NUL, tab, line feed and carriage return have short escapes. Any other control
character, and white space other than the plain space, is written by its code point in hexadecimal.
Everything else stands for itself, an apostrophe included.
-/

/-- The hexadecimal digits of a number, in lower case and without leading zeros. -/
def hexDigits (n : Nat) : List Char := Nat.toDigits 16 n

/-- Whether a character without a short escape is written by its code point. -/
def needsCodePoint (c : Char) : Bool :=
  c.toNat < 0x20 || (0x7F ≤ c.toNat && c.toNat < 0xA0) || (c != ' ' && isBlank c)

/-- The written form of one character between double quotes. -/
def escapeChar (c : Char) : List Char :=
  match c with
  | '\x00' => ['\\', '0']
  | '\t' => ['\\', 't']
  | '\n' => ['\\', 'n']
  | '\r' => ['\\', 'r']
  | '"' => ['\\', '"']
  | '\\' => ['\\', '\\']
  | c => if needsCodePoint c then "\\u\x7b".toList ++ hexDigits c.toNat ++ ['\x7d'] else [c]

/-- The text between double quotes, with its special characters escaped. -/
def quoted (s : String) : String :=
  String.ofList ('"' :: s.toList.flatMap escapeChar ++ ['"'])

example : quoted "a\"b\\\n" = "\"a\\\"b\\\\\\n\"" := by decide +kernel

example : quoted "\u00a0'" = "\"\\u\x7ba0\x7d'\"" := by decide +kernel

end ShaderKit.Text
