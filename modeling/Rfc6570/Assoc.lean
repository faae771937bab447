/-!
Association lists in the order of first insertion. `put` keeps the place of a key that is there
and replaces its item, so a list that is built by `put` has each key once.
-/

namespace Rfc6570.Assoc

variable {κ α : Type _} [BEq κ]

def find? (key : κ) (entries : List (κ × α)) : Option α :=
  (entries.find? fun e => e.1 == key).map (·.2)

/-- Replaces the item of `key`, or adds `key` at the end. -/
def put (key : κ) (item : α) : List (κ × α) → List (κ × α)
  | [] => [(key, item)]
  | (k, x) :: rest => if k == key then (k, item) :: rest else (k, x) :: put key item rest

/-- Puts the second list's entries into the first, in their order. -/
def putAll (entries added : List (κ × α)) : List (κ × α) :=
  added.foldl (fun acc e => put e.1 e.2 acc) entries

/-- The association list of entries among which a key may occur more than once. -/
def ofList (entries : List (κ × α)) : List (κ × α) :=
  putAll [] entries

def erase (key : κ) (entries : List (κ × α)) : List (κ × α) :=
  entries.filter fun e => !(e.1 == key)

def keys (entries : List (κ × α)) : List κ :=
  entries.map (·.1)

/-! ### Looking up -/

section Lawful
variable [LawfulBEq κ]

theorem find?_put_self (key : κ) (item : α) (entries : List (κ × α)) :
    find? key (put key item entries) = some item := by
  induction entries with
  | nil => simp [put, find?]
  | cons e rest ih =>
    by_cases h : e.1 == key
    · simp [put, find?, h]
    · simpa [put, find?, h] using ih

theorem find?_put_of_ne {key other : κ} (h : other ≠ key) (item : α) (entries : List (κ × α)) :
    find? other (put key item entries) = find? other entries := by
  induction entries with
  | nil => simp [put, find?, Ne.symm h]
  | cons e rest ih =>
    by_cases hk : e.1 == key
    · have : e.1 = key := by simpa using hk
      simp [put, find?, this, Ne.symm h]
    · by_cases ho : e.1 == other
      · simp [put, find?, hk, ho]
      · simpa [put, find?, hk, ho] using ih

end Lawful

end Rfc6570.Assoc
