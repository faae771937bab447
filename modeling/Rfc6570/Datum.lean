import Rfc6570.Assoc
import Rfc6570.Binary64
import Rfc6570.RawText
/-!
The data that callers supply for variables: scalars, sequences and maps, and template values
inside them. Two data are the same when they stand for equal things: a truth value is the number
0 or 1, an integer equals the floating-point number of its size, bytes equal a buffer of the
same bytes, and the order of a map's entries does not count.
-/

namespace Rfc6570

inductive Datum
  | null
  | bool (b : Bool)
  | int (n : Int)
  | float (x : Binary64)
  | text (t : RawText)
  | bytes (data : List UInt8)
  | buffer (data : List UInt8)
  | list (items : List Datum)
  | tuple (items : List Datum)
  | map (entries : List (Datum × Datum))
  | stringValue (t : RawText)
  | listValue (items : List Datum)
  | assocValue (entries : List (RawText × Datum))
  /-- A value with no content. It equals nothing but itself, which its mark tells. -/
  | blankValue (mark : Nat)

namespace Datum

instance : Inhabited Datum := ⟨.null⟩

/-- The integer that a scalar equals, if there is one. -/
def toInt? : Datum → Option Int
  | .bool b => some (if b then 1 else 0)
  | .int n => some n
  | .float x => x.toInt?
  | _ => none

/-- Whether two data that hold no other data are the same. -/
def sameScalar : Datum → Datum → Bool
  | .null, .null => true
  | .text a, .text b => a == b
  | .bytes a, .bytes b | .bytes a, .buffer b | .buffer a, .bytes b | .buffer a, .buffer b => a == b
  | .stringValue a, .stringValue b => a == b
  | .blankValue a, .blankValue b => a == b
  | .float a, .float b => a.same b
  | a, b =>
    match a.toInt?, b.toInt? with
    | some x, some y => x == y
    | _, _ => false

mutual

def same : Datum → Datum → Bool
  | .list a, .list b => sameItems a b
  | .tuple a, .tuple b => sameItems a b
  | .map a, .map b => a.length == b.length && sameEntries a b
  | .listValue a, .listValue b => sameItems a b
  | .assocValue a, .assocValue b => a.length == b.length && sameNamed a b
  | a, b => sameScalar a b
termination_by structural a => a

def sameItems : List Datum → List Datum → Bool
  | [], [] => true
  | a :: as, b :: bs => same a b && sameItems as bs
  | _, _ => false
termination_by structural a => a

/-- Every entry of the first map is in the second. -/
def sameEntries : List (Datum × Datum) → List (Datum × Datum) → Bool
  | [], _ => true
  | (key, item) :: rest, other =>
    (match other.find? fun e => same key e.1 with
      | some e => same item e.2
      | none => false) && sameEntries rest other
termination_by structural a => a

def sameNamed : List (RawText × Datum) → List (RawText × Datum) → Bool
  | [], _ => true
  | (key, item) :: rest, other =>
    (match other.find? fun e => key == e.1 with
      | some e => same item e.2
      | none => false) && sameNamed rest other
termination_by structural a => a

end

instance : BEq Datum := ⟨same⟩

/-- A map of entries among which the same key may occur more than once. -/
def ofEntries (entries : List (Datum × Datum)) : Datum :=
  .map (Assoc.ofList entries)

end Datum
end Rfc6570
