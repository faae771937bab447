import Rfc6570.RawText
import Rfc6570.Text.Printable
/-!
The written form of strings and byte strings: between quotes, with escapes. The quote is `'`
unless the content holds `'` and no `"`. A backslash, the quote, line feed, carriage return and
tab are escaped by a letter, any other code point that is not printable by its number.
-/

namespace Rfc6570

namespace Text

def apostrophe : Char := '\x27'

/-- The quote around a content that has the character `c` where `has c` holds. -/
def quoteFor (has : Char → Bool) : Char :=
  if has apostrophe && !has '"' then '"' else apostrophe

/-- A code point by its number, in the shortest of the three widths. -/
def codePointEscape (n : Nat) : Text :=
  if n < 0x100 then '\\' :: 'x' :: hexDigits 2 n
  else if n < 0x10000 then '\\' :: 'u' :: hexDigits 4 n
  else '\\' :: 'U' :: hexDigits 8 n

/-- The characters escaped by a letter of their own. -/
def letterEscape? (c : Char) : Option Text :=
  if c = '\n' then some ['\\', 'n']
  else if c = '\r' then some ['\\', 'r']
  else if c = '\t' then some ['\\', 't']
  else none

def escapeIn (quote c : Char) : Text :=
  if c = quote ∨ c = '\\' then ['\\', c]
  else (letterEscape? c).getD (if isPrintable c then [c] else codePointEscape c.toNat)

end Text

namespace RawText

/-- A code point between the quotes `quote`. No surrogate is printable. -/
def escapeIn (quote : Char) : Point → Text
  | .char c => Text.escapeIn quote c
  | .surrogate n => Text.codePointEscape (0xD800 + n.val)

def quoted (t : RawText) : Text :=
  let quote := Text.quoteFor fun c => t.contains (.char c)
  quote :: t.flatMap (escapeIn quote) ++ [quote]

/-- A string as a log shows it, with its surrogates escaped. -/
def shown (t : RawText) : Text :=
  t.flatMap fun
    | .char c => [c]
    | .surrogate n => Text.codePointEscape (0xD800 + n.val)

end RawText

namespace Text

def quoted (t : Text) : Text :=
  RawText.quoted t

/-- A byte of a byte string; `isSpecial` names the characters to put a backslash before. -/
def escapeByte (isSpecial : Char → Bool) (b : UInt8) : Text :=
  let c := Char.ofNat b.toNat
  if isSpecial c then ['\\', c]
  else (letterEscape? c).getD
    (if 32 ≤ b.toNat && b.toNat < 127 then [c] else codePointEscape b.toNat)

def hasByte (data : List UInt8) (c : Char) : Bool :=
  data.any (·.toNat == c.toNat)

def quotedBytes (data : List UInt8) : Text :=
  let quote := quoteFor (hasByte data)
  'b' :: quote :: data.flatMap (escapeByte fun c => c == quote || c == '\\') ++ [quote]

/-- The written form of a byte buffer. An apostrophe in it is escaped between either quotes. -/
def quotedBuffer (data : List UInt8) : Text :=
  let quote := quoteFor (hasByte data)
  let content := data.flatMap (escapeByte fun c => c == apostrophe || c == '\\' || c == quote)
  "bytearray(b".toList ++ quote :: content ++ [quote, ')']

end Text
end Rfc6570
