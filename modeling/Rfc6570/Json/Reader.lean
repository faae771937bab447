import Rfc6570.Binary64
import Rfc6570.Datum
import Rfc6570.Text.Digit
import Rfc6570.Text.Hex
/-!
Reading JSON. A fault is placed at the character where the grammar was left, or at the opening
quote of a string that is not closed, and told by line and column. The words for numbers that
are not finite are read as well, and of equal keys in an object the first gives the place and
the last the value. A surrogate whose other half does not follow stays in its string as it is, and
an integer with too many digits is refused.
-/

namespace Rfc6570.Json

inductive Flaw
  | byteOrderMark
  | value
  | extraData
  | propertyName
  | colon
  | comma
  | unclosedString
  | controlCharacter
  | escape
  | unicodeEscape
  /-- An integer of so many digits. -/
  | digits (count : Nat)
  deriving DecidableEq, Repr

def Flaw.reason : Flaw → Text
  | .byteOrderMark => "Unexpected UTF-8 BOM (decode using utf-8-sig)".toList
  | .value => "Expecting value".toList
  | .extraData => "Extra data".toList
  | .propertyName => "Expecting property name enclosed in double quotes".toList
  | .colon => "Expecting ':' delimiter".toList
  | .comma => "Expecting ',' delimiter".toList
  | .unclosedString => "Unterminated string starting at".toList
  | .controlCharacter => "Invalid control character at".toList
  | .escape => "Invalid \\escape".toList
  | .unicodeEscape => "Invalid \\uXXXX escape".toList
  | .digits count =>
    "Exceeds the limit (".toList ++ Text.decimal Text.maxDigits
      ++ " digits) for integer string conversion: value has ".toList ++ Text.decimal count
      ++ " digits; use sys.set_int_max_str_digits() to increase the limit".toList

def Flaw.isPlaced : Flaw → Bool
  | .digits _ => false
  | _ => true

/-- A flaw, and how much of the text was still ahead of it. -/
structure Stop where
  flaw : Flaw
  ahead : Nat
  deriving DecidableEq, Repr

/-- The place of a flaw in `t`: line and column from one, the character from zero. -/
def Stop.place (s : Stop) (t : Text) : Text :=
  let place := t.length - s.ahead
  let before := t.take place
  let line := before.count '\n' + 1
  let column := (before.reverse.takeWhile (· != '\n')).length + 1
  ": line ".toList ++ Text.decimal line ++ " column ".toList ++ Text.decimal column
    ++ " (char ".toList ++ Text.decimal place ++ [')']

def Stop.message (s : Stop) (t : Text) : Text :=
  s.flaw.reason ++ if s.flaw.isPlaced then s.place t else []

/-- Stops in front of `t`. -/
def stop {α : Type} (flaw : Flaw) (t : Text) : Except Stop α :=
  .error ⟨flaw, t.length⟩

def isSpace (c : Char) : Bool :=
  c == ' ' || c == '\t' || c == '\n' || c == '\r'

def skipSpace (t : Text) : Text :=
  t.dropWhile isSpace

/-! ### Strings -/

/-- The characters with an escape by a letter. -/
def ofLetter? : Char → Option Char
  | '"' => some '"'
  | '\\' => some '\\'
  | '/' => some '/'
  | 'b' => some '\x08'
  | 'f' => some '\x0c'
  | 'n' => some '\n'
  | 'r' => some '\r'
  | 't' => some '\t'
  | _ => none

def isHighSurrogate (n : Nat) : Bool :=
  0xD800 ≤ n && n < 0xDC00

def isLowSurrogate (n : Nat) : Bool :=
  0xDC00 ≤ n && n < 0xE000

/-- The code point of one UTF-16 unit. -/
def ofUnit (n : Nat) : Point :=
  if surrogate : 0xD800 ≤ n ∧ n < 0xE000 then .surrogate ⟨n - 0xD800, by omega⟩
  else .char (Char.ofNat n)

/-- The unit that four digits write at the front of `t`, before at least one more character.
`t` begins behind the letter of the escape, which the flaw is placed at. -/
def readUnit (t : Text) : Except Stop (Nat × Text) :=
  match t with
  | a :: b :: c :: d :: next :: rest =>
    match Text.readHex? [a, b, c, d] with
    | some n => .ok (n, next :: rest)
    | none => .error ⟨.unicodeEscape, t.length + 1⟩
  | _ => .error ⟨.unicodeEscape, t.length + 1⟩

/-- The character of the unit `high` and of the escape that follows it in `t`, if that is a low
surrogate with more text behind it. -/
def readPair (high : Nat) (t : Text) : Except Stop (Point × Text) :=
  match t with
  | '\\' :: 'u' :: rest =>
    if rest.length < 5 then .ok (ofUnit high, t)
    else do
      let (low, after) ← readUnit rest
      if isLowSurrogate low then
        .ok (.char (Char.ofNat (0x10000 + (high - 0xD800) * 0x400 + (low - 0xDC00))), after)
      else .ok (ofUnit high, t)
  | _ => .ok (ofUnit high, t)

/-- The code point of an escape; `t` begins behind its backslash. -/
def readEscape (opening : Nat) (t : Text) : Except Stop (Point × Text) :=
  match t with
  | [] => .error ⟨.unclosedString, opening⟩
  | 'u' :: rest => do
    let (n, after) ← readUnit rest
    if isHighSurrogate n then readPair n after else .ok (ofUnit n, after)
  | c :: rest =>
    match ofLetter? c with
    | some d => .ok (.char d, rest)
    | none => .error ⟨.escape, t.length + 1⟩

/-- The rest of a string. `opening` places its opening quote, `read` holds the code points so
far, the last one first, and the first argument bounds the number of code points. -/
def readString (opening : Nat) : Nat → RawText → Text → Except Stop (RawText × Text)
  | 0, _, _ => .error ⟨.unclosedString, opening⟩
  | fuel + 1, read, t =>
    match t with
    | [] => .error ⟨.unclosedString, opening⟩
    | '"' :: rest => .ok (read.reverse, rest)
    | '\\' :: rest => do
      let (p, after) ← readEscape opening rest
      readString opening fuel (p :: read) after
    | c :: rest =>
      if c.toNat < 32 then stop .controlCharacter t
      else readString opening fuel (.char c :: read) rest

/-- The string whose opening quote stands in front of `rest`. -/
def readQuoted (rest : Text) : Except Stop (RawText × Text) :=
  readString (rest.length + 1) (rest.length + 1) [] rest

/-! ### Numbers -/

/-- The digits before the point: a zero alone, or digits that do not begin with one. -/
def readWhole : Text → Text × Text
  | '0' :: rest => (['0'], rest)
  | t => Text.spanDigits t

def readFraction (t : Text) : Text × Text :=
  match t with
  | '.' :: rest =>
    let (digits, after) := Text.spanDigits rest
    if digits.isEmpty then ([], t) else (digits, after)
  | _ => ([], t)

def readExponent (t : Text) : Option Int × Text :=
  match t with
  | c :: rest =>
    if c = 'e' ∨ c = 'E' then
      let (negative, body) := Text.readSign rest
      let (digits, after) := Text.spanDigits body
      if digits.isEmpty then (none, t)
      else
        let n : Int := Nat.ofDigitChars 10 digits 0
        (some (if negative then -n else n), after)
    else (none, t)
  | [] => (none, t)

/-- A number; an integer unless it has a fraction or an exponent. -/
def readNumber (t : Text) : Except Stop (Datum × Text) :=
  let (negative, body) :=
    match t with
    | '-' :: rest => (true, rest)
    | _ => (false, t)
  let (whole, rest) := readWhole body
  if whole.isEmpty then stop .value t
  else
    let (fraction, rest) := readFraction rest
    let (exponent, rest) := readExponent rest
    let n := Nat.ofDigitChars 10 (whole ++ fraction) 0
    match fraction, exponent with
    | [], none =>
      if Text.maxDigits < whole.length then stop (.digits whole.length) t
      else .ok (.int (if negative then -n else n), rest)
    | _, _ => .ok (.float (.ofDecimal negative n (exponent.getD 0 - fraction.length)), rest)

/-! ### Values -/

/-- The words for constants. All numbers that are not a number are one and the same. -/
def constants : List (Text × Datum) :=
  [("null".toList, .null), ("true".toList, .bool true), ("false".toList, .bool false),
    ("NaN".toList, .float (.notNumber 0)), ("Infinity".toList, .float (.infinite false)),
    ("-Infinity".toList, .float (.infinite true))]

def readScalar (t : Text) : Except Stop (Datum × Text) :=
  match constants.find? fun e => e.1.isPrefixOf t with
  | some (word, d) => .ok (d, t.drop word.length)
  | none => readNumber t

mutual

/-- A value. The first argument bounds the number of steps. -/
def readValue : Nat → Text → Except Stop (Datum × Text)
  | 0, t => stop .value t
  | fuel + 1, t =>
    match t with
    | '"' :: rest => do
      let (s, after) ← readQuoted rest
      .ok (.text s, after)
    | '\x7b' :: rest =>
      match skipSpace rest with
      | '\x7d' :: after => .ok (.map [], after)
      | inner => readMembers fuel [] inner
    | '[' :: rest =>
      match skipSpace rest with
      | ']' :: after => .ok (.list [], after)
      | inner => readItems fuel [] inner
    | _ => readScalar t

/-- The rest of an array, from an item on. -/
def readItems : Nat → List Datum → Text → Except Stop (Datum × Text)
  | 0, _, t => stop .value t
  | fuel + 1, read, t => do
    let (item, after) ← readValue fuel t
    match skipSpace after with
    | ']' :: rest => .ok (.list (item :: read).reverse, rest)
    | ',' :: rest => readItems fuel (item :: read) (skipSpace rest)
    | other => stop .comma other

/-- The rest of an object, from a key on. -/
def readMembers : Nat → List (RawText × Datum) → Text → Except Stop (Datum × Text)
  | 0, _, t => stop .value t
  | fuel + 1, read, t =>
    match t with
    | '"' :: rest => do
      let (key, after) ← readQuoted rest
      match skipSpace after with
      | ':' :: rest =>
        let (item, after) ← readValue fuel (skipSpace rest)
        let read := Assoc.put key item read
        match skipSpace after with
        | '\x7d' :: rest => .ok (.map (read.map fun e => (.text e.1, e.2)), rest)
        | ',' :: rest => readMembers fuel read (skipSpace rest)
        | other => stop .comma other
      | other => stop .colon other
    | other => stop .propertyName other

end

/-- Reads the value that all of `t` writes. -/
def readDocument (t : Text) : Except Stop Datum :=
  match t with
  | '\ufeff' :: _ => stop .byteOrderMark t
  | _ => do
    let (d, after) ← readValue (2 * t.length + 2) (skipSpace t)
    match skipSpace after with
    | [] => .ok d
    | rest => stop .extraData rest

/-- The value that `t` writes, or what is wrong with it and where. -/
def parse (t : Text) : Except Text Datum :=
  (readDocument t).mapError fun s => s.message t

end Rfc6570.Json
