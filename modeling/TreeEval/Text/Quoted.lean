import TreeEval.Text.Combining
import TreeEval.Text.Unprintable

/-!
# Quoted text and escaped bytes

Two written forms in which every character or byte can be told apart by eye.

* `quote` writes a text between double quotes. A character that would break the line, end the
  quotes, or leave no mark of its own is written as an escape.
* `escapeBytes` writes bytes as ASCII text, one escape for every byte that is no printable ASCII
  character.
-/

namespace TreeEval.Text

/-- A number in lower-case hexadecimal digits, without leading zeros. -/
def hex (n : Nat) : String := String.ofList (Nat.toDigits 16 n)

/-- A byte in two lower-case hexadecimal digits. -/
def hexByte (b : UInt8) : String :=
  String.ofList [Nat.digitChar (b.toNat / 16), Nat.digitChar (b.toNat % 16)]

/-- How a character is written between double quotes: by a short escape, by its code point, or as
itself. -/
def quoteChar (c : Char) : String :=
  if c = '\x00' then "\\0"
  else if c = '\t' then "\\t"
  else if c = '\r' then "\\r"
  else if c = '\n' then "\\n"
  else if c = '"' then "\\\""
  else if c = '\\' then "\\\\"
  else if combining.contains c || unprintable.contains c then
    "\\u\x7b" ++ hex c.toNat ++ "\x7d"
  else c.toString

/-- A text between double quotes, each character on its own terms. -/
def quote (s : String) : String :=
  "\"" ++ String.join (s.toList.map quoteChar) ++ "\""

/-- How a byte is written as ASCII text: by a short escape, as itself when it is a printable ASCII
character, or by its two hexadecimal digits. -/
def escapeByte (b : UInt8) : String :=
  if b = 0x09 then "\\t"
  else if b = 0x0D then "\\r"
  else if b = 0x0A then "\\n"
  else if b = 0x27 then "\\'"
  else if b = 0x22 then "\\\""
  else if b = 0x5C then "\\\\"
  else if 0x20 ≤ b ∧ b ≤ 0x7E then (Char.ofNat b.toNat).toString
  else "\\x" ++ hexByte b

/-- Bytes as ASCII text. -/
def escapeBytes (bytes : List UInt8) : String :=
  String.join (bytes.map escapeByte)

end TreeEval.Text
