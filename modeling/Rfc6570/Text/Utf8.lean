import Rfc6570.Text.Hex
/-!
Reading UTF-8. A sequence is a lead byte with one to three continuation bytes; overlong forms,
surrogates and code points past U+10FFFF are refused at their second byte. The fault names the
bytes that were read of the first sequence that is not well formed.
-/

namespace Rfc6570.Text

inductive Utf8Flaw
  | startByte
  | continuationByte
  | endOfData
  deriving DecidableEq, Repr

/-- The bytes from `first` up to and without `next` begin no character; `byte` is the first. -/
structure Utf8Fault where
  byte : UInt8
  first : Nat
  next : Nat
  flaw : Utf8Flaw
  deriving DecidableEq, Repr

def Utf8Flaw.reason : Utf8Flaw → Text
  | .startByte => "invalid start byte".toList
  | .continuationByte => "invalid continuation byte".toList
  | .endOfData => "unexpected end of data".toList

/-- One bad byte is named by its value, several by their places. -/
def Utf8Fault.message (f : Utf8Fault) : Text :=
  let place :=
    if f.next = f.first + 1 then
      " byte 0x".toList ++ hexDigits 2 f.byte.toNat ++ " in position ".toList ++ decimal f.first
    else " bytes in position ".toList ++ decimal f.first ++ '-' :: decimal (f.next - 1)
  "'utf-8' codec can't decode".toList ++ place ++ ": ".toList ++ f.flaw.reason

/-- How a sequence goes on after its lead byte: how many bytes follow, the code point bits in
the lead, and the least and greatest second byte. -/
structure Utf8Lead where
  following : Nat
  bits : Nat
  low : Nat
  high : Nat

def utf8Lead? (b : Nat) : Option Utf8Lead :=
  if b < 0xC2 then none
  else if b < 0xE0 then some ⟨1, b - 0xC0, 0x80, 0xBF⟩
  else if b = 0xE0 then some ⟨2, 0, 0xA0, 0xBF⟩
  else if b = 0xED then some ⟨2, 13, 0x80, 0x9F⟩
  else if b < 0xF0 then some ⟨2, b - 0xE0, 0x80, 0xBF⟩
  else if b = 0xF0 then some ⟨3, 0, 0x90, 0xBF⟩
  else if b < 0xF4 then some ⟨3, b - 0xF0, 0x80, 0xBF⟩
  else if b = 0xF4 then some ⟨3, 4, 0x80, 0x8F⟩
  else none

/-- What is still to come of a sequence: its lead byte and place, the bits read so far, the
number of bytes to come, and the bounds of the next one. -/
structure Utf8Pending where
  byte : UInt8
  first : Nat
  bits : Nat
  following : Nat
  low : Nat
  high : Nat

/-- Reads bytes from `place` on; `read` holds the characters before it, the last one first. -/
def readUtf8From : List UInt8 → Nat → Option Utf8Pending → Text → Except Utf8Fault Text
  | [], _, none, read => .ok read.reverse
  | [], place, some p, _ => .error ⟨p.byte, p.first, place, .endOfData⟩
  | b :: rest, place, none, read =>
    if b.toNat < 0x80 then readUtf8From rest (place + 1) none (Char.ofNat b.toNat :: read)
    else
      match utf8Lead? b.toNat with
      | none => .error ⟨b, place, place + 1, .startByte⟩
      | some lead =>
        readUtf8From rest (place + 1)
          (some ⟨b, place, lead.bits, lead.following, lead.low, lead.high⟩) read
  | b :: rest, place, some p, read =>
    if b.toNat < p.low ∨ p.high < b.toNat then
      .error ⟨p.byte, p.first, place, .continuationByte⟩
    else
      let bits := p.bits * 64 + (b.toNat - 0x80)
      if p.following = 1 then readUtf8From rest (place + 1) none (Char.ofNat bits :: read)
      else
        readUtf8From rest (place + 1) (some ⟨p.byte, p.first, bits, p.following - 1, 0x80, 0xBF⟩)
          read

def ofUtf8 (data : List UInt8) : Except Utf8Fault Text :=
  readUtf8From data 0 none []

end Rfc6570.Text
