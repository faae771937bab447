import Rfc6570.Binary64.Shortest
import Rfc6570.Datum
import Rfc6570.Fault
/-!
The written forms of data. `Datum.describe` shows a datum with all its structure, strings between
quotes; `Datum.toText` leaves a string as it is; `Datum.expanded` is what stands for a datum in an
expansion: truth values in lower case and whole floating-point numbers as integers. They write every
integer in full. `Datum.stringify` and `Datum.asKey` refuse a datum in which an integer is overlong,
and `Datum.written` also a string that is no text.
-/

namespace Rfc6570.Datum

def commaList (parts : List Text) : Text :=
  ", ".toList.intercalate parts

/-- Items between round brackets; a single one is followed by a comma. -/
def bracketed : List Text → Text
  | [part] => '(' :: part ++ [',', ')']
  | parts => '(' :: commaList parts ++ [')']

mutual

def describe : Datum → Text
  | .null => "None".toList
  | .bool b => if b then "True".toList else "False".toList
  | .int n => Text.signedDecimal n
  | .float x => x.written
  | .text t => RawText.quoted t
  | .bytes data => Text.quotedBytes data
  | .buffer data => Text.quotedBuffer data
  | .list items => '[' :: commaList (describeAll items) ++ [']']
  | .tuple items => bracketed (describeAll items)
  | .map entries => '\x7b' :: commaList (describeEntries entries) ++ ['\x7d']
  | .stringValue t => "StringValue(".toList ++ RawText.quoted t ++ [')']
  | .listValue items => "ListValue([".toList ++ commaList (describeAll items) ++ [']', ')']
  | .assocValue entries =>
    "AssocValue(".toList ++ '\x7b' :: commaList (describeNamed entries) ++ ['\x7d', ')']
  | .blankValue _ => "Value(None)".toList

def describeAll : List Datum → List Text
  | [] => []
  | item :: rest => describe item :: describeAll rest

def describeEntries : List (Datum × Datum) → List Text
  | [] => []
  | (key, item) :: rest => (describe key ++ ':' :: ' ' :: describe item) :: describeEntries rest

def describeNamed : List (RawText × Datum) → List Text
  | [] => []
  | (key, item) :: rest => (RawText.quoted key ++ ':' :: ' ' :: describe item) :: describeNamed rest

end

/-- A string as it is, any other datum in its described form. -/
def toText : Datum → RawText
  | .text t => t
  | d => d.describe

/-- The string that stands for a datum in an expansion. -/
def expanded : Datum → RawText
  | .bool b => if b then "true".toList else "false".toList
  | .float x => (x.toInt?.map Text.signedDecimal).getD x.written
  | d => d.toText

/-! ### Data that cannot be written -/

mutual

/-- Whether an integer of the described form is overlong. -/
def isOverlong : Datum → Bool
  | .int n => Text.isOverlong n
  | .list items | .tuple items | .listValue items => anyOverlong items
  | .map entries => anyEntryOverlong entries
  | .assocValue entries => anyNamedOverlong entries
  | _ => false
termination_by structural d => d

def anyOverlong : List Datum → Bool
  | [] => false
  | item :: rest => isOverlong item || anyOverlong rest
termination_by structural items => items

def anyEntryOverlong : List (Datum × Datum) → Bool
  | [] => false
  | (key, item) :: rest => isOverlong key || isOverlong item || anyEntryOverlong rest
termination_by structural entries => entries

def anyNamedOverlong : List (RawText × Datum) → Bool
  | [] => false
  | (_, item) :: rest => isOverlong item || anyNamedOverlong rest
termination_by structural entries => entries

end

/-- What stands for a datum in an expansion, before it is encoded. -/
def stringify (d : Datum) : Except Fault RawText :=
  if d.isOverlong then .error .digits else .ok d.expanded

/-- The key that a datum becomes in a map with strings for keys. -/
def asKey (d : Datum) : Except Fault RawText :=
  if d.isOverlong then .error .digits else .ok d.toText

/-- The text that stands for a datum in an expansion. -/
def written (d : Datum) : Except Fault Text := do
  let t ← d.stringify
  t.whole.mapError .surrogates

@[simp] theorem expanded_text (t : RawText) : expanded (.text t) = t := rfl

@[simp] theorem written_text (t : Text) : written (.text t) = .ok t :=
  congrArg (Except.mapError Fault.surrogates) (RawText.whole_raw t)

end Rfc6570.Datum
