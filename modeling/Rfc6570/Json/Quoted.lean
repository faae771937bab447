import Rfc6570.RawText
/-!
JSON strings in printable ASCII. Every other character is escaped by its UTF-16 units, and the
quote, the backslash and five control characters by a letter. A surrogate is a unit of its own.
-/

namespace Rfc6570.Json

/-- One UTF-16 unit as an escape. -/
def unitEscape (n : Nat) : Text :=
  '\\' :: 'u' :: Text.hexDigits 4 n

/-- A character by its UTF-16 units: one, or a high and a low surrogate. -/
def unitEscapes (n : Nat) : Text :=
  if n < 0x10000 then unitEscape n
  else
    unitEscape (0xD800 + (n - 0x10000) / 0x400) ++ unitEscape (0xDC00 + (n - 0x10000) % 0x400)

def escape (c : Char) : Text :=
  if c = '"' ∨ c = '\\' then ['\\', c]
  else if c = '\n' then ['\\', 'n']
  else if c = '\r' then ['\\', 'r']
  else if c = '\t' then ['\\', 't']
  else if c = '\x0c' then ['\\', 'f']
  else if c = '\x08' then ['\\', 'b']
  else if ' ' ≤ c ∧ c ≤ '~' then [c]
  else unitEscapes c.toNat

def escapePoint : Point → Text
  | .char c => escape c
  | .surrogate n => unitEscape (0xD800 + n.val)

def quoted (t : RawText) : Text :=
  '"' :: t.flatMap escapePoint ++ ['"']

end Rfc6570.Json
