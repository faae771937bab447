import Rfc6570.Proofs.ExpansionJoining
import Rfc6570.Proofs.PartSeries
import Rfc6570.Proofs.SuppliedValues
/-!
What expansion refuses: a map under a prefix, a string that is no text, and an integer with more
digits than are written. Main statement: `expand_fault`, a template fails as the first of its
variables that is given such a value, partial expansion fails with it, and without such a variable
both give a text.
-/

namespace Rfc6570

/-! ### Texts that are refused -/

/-- The fault in a string that is no text: its first surrogates. -/
def RawText.fault? (t : RawText) : Option Fault :=
  (failure? t.whole).map .surrogates

/-- Only a string that is no text is refused. -/
theorem RawText.fault?_eq_none {t : RawText} : t.fault? = none ↔ ∃ s : Text, t = s := by
  rw [fault?, Option.map_eq_none_iff, failure?_eq_none]
  exact exists_congr fun s => whole_eq_ok

/-- The fault in an item: an integer in it that is overlong, or that of a string. -/
def Datum.fault? (d : Datum) : Option Fault :=
  if d.isOverlong then some .digits
  else
    match d with
    | .text t => t.fault?
    | _ => none

/-- The fault in a key, or else in its item. -/
def Value.entryFault? (e : RawText × Datum) : Option Fault :=
  e.1.fault?.or e.2.fault?

/-- The fault in the texts of a value: that of the first that cannot be written. -/
def Value.textFault? : Value → Option Fault
  | .string t => t.fault?
  | .list items => items.findSome? Datum.fault?
  | .assoc entries => entries.findSome? entryFault?
  | .blank _ => none

namespace Datum

/-- Only a string can stand for a datum with surrogates: any other written form is a text. -/
theorem expanded_eq_text {d : Datum} (other : ∀ t, d ≠ .text t) : ∃ s : Text, d.expanded = s := by
  cases d with
  | bool b => cases b <;> exact ⟨_, rfl⟩
  | text t => exact absurd rfl (other t)
  | _ => exact ⟨_, rfl⟩

theorem failure?_written (d : Datum) : failure? d.written = d.fault? := by
  unfold written stringify fault?
  split
  · rfl
  · rw [ok_bind]
    split
    · exact failure?_mapError _ _
    · rename_i other
      obtain ⟨s, same⟩ := expanded_eq_text other
      rw [same, RawText.whole_raw]
      rfl

end Datum

namespace Value

theorem failure?_plainEntry (e : RawText × Datum) : failure? (plainEntry e) = entryFault? e := by
  rw [plainEntry, entryFault?, RawText.fault?, ← failure?_mapError, ← Datum.failure?_written]
  cases e.1.whole with
  | error s => rfl
  | ok key => exact failure?_bind_pure _ _

theorem failure?_plain (value : Value) : failure? value.plain = value.textFault? := by
  cases value with
  | string t => exact (failure?_bind_pure _ _).trans (failure?_mapError _ _)
  | list items =>
    rw [plain, failure?_bind_pure, failure?_mapM]
    exact congrArg items.findSome? (funext Datum.failure?_written)
  | assoc entries =>
    rw [plain, failure?_bind_pure, failure?_mapM]
    exact congrArg entries.findSome? (funext failure?_plainEntry)
  | blank mark => rfl

end Value

/-! ### Values that are refused -/

/-- The fault in what is given for a variable: that it is no value, that it is a map and the
variable has a prefix, or that of its texts. -/
def Given.fault? (v : Varspec) : Given → Option Fault
  | .error f => some f
  | .ok value =>
    if v.maxLength ≠ 0 ∧ value.isMap then some (.mapPrefix v.render) else value.textFault?

theorem Given.failure?_expandValue (op : Operator) (v : Varspec) (given : Given) :
    failure? (Expression.expandValue op v given) = fault? v given := by
  cases given with
  | error f => rfl
  | ok value =>
    rw [Expression.expandValue, ok_bind, fault?]
    split
    · rfl
    · rw [failure?_bind_pure, Value.failure?_plain]

/-- The fault in the value of a variable, if it has a value. -/
def Environment.fault? (env : Environment) (v : Varspec) : Option Fault :=
  (env v.name).bind (Given.fault? v)

namespace Supply

/-- What is refused in something supplied for a variable. -/
def fault? (v : Varspec) (s : Supply) : Option Fault :=
  if s.isOverlong then some .digits
  else if v.maxLength ≠ 0 ∧ s.value.isMap then some (.mapPrefix v.render)
  else s.value.textFault?

theorem fault?_ofSupply (v : Varspec) (s : Supply) :
    Given.fault? v (Value.ofSupply s) = s.fault? v := by
  rw [ofSupply_eq, fault?]
  split <;> rfl

theorem fault?_of_isNull {s : Supply} (null : s.isNull = true) (v : Varspec) :
    s.fault? v = none := by
  match s with
  | .datum .null =>
    have noMap : ¬ (v.maxLength ≠ 0 ∧ (value (.datum .null)).isMap = true) :=
      fun cut => Bool.false_ne_true cut.2
    exact if_neg noMap

end Supply

/-- What is refused in what an assignment gives a variable. -/
def Assignment.fault? (a : Assignment) (v : Varspec) : Option Fault :=
  (Assoc.find? (v.name : RawText) a).bind (Supply.fault? v)

theorem Assignment.fault?_environment (a : Assignment) : a.environment.fault? = a.fault? := by
  funext v
  rw [Environment.fault?, Assignment.fault?, Assignment.environment, Option.bind_assoc]
  refine congrArg (Option.bind _) (funext fun s => ?_)
  split
  · rename_i null
    exact (s.fault?_of_isNull null v).symm
  · exact s.fault?_ofSupply v

/-- A variable with a prefix that is given a map. -/
def Assignment.cutsMap (a : Assignment) (v : Varspec) : Bool :=
  v.maxLength != 0 && (Assoc.find? (v.name : RawText) a).any fun s => s.value.isMap

def Supply.IsWritable (s : Supply) : Prop :=
  s.isOverlong = false ∧ s.value.textFault? = none

theorem Assignment.fault?_of_isWritable {a : Assignment}
    (writable : ∀ name s, Assoc.find? name a = some s → s.IsWritable) (v : Varspec) :
    a.fault? v = if a.cutsMap v then some (.mapPrefix v.render) else none := by
  rw [fault?, cutsMap]
  cases found : Assoc.find? (v.name : RawText) a with
  | none => simp
  | some s =>
    obtain ⟨short, whole⟩ := writable _ s found
    simp [Supply.fault?, short, whole]

/-! ### The first fault -/

namespace Expression

theorem failure?_pieces (op : Operator) (env : Environment) (vs : List Varspec) :
    failure? (pieces op env vs) = vs.findSome? env.fault? := by
  induction vs with
  | nil => rfl
  | cons v rest ih =>
    rw [pieces, List.findSome?_cons, Environment.fault?]
    cases env v.name with
    | none => exact ih
    | some given =>
      rw [Option.bind_some, ← Given.failure?_expandValue op]
      simp only
      cases expandValue op v given with
      | error f => rfl
      | ok piece => exact (failure?_bind_pure _ _).trans ih

theorem failure?_expandPresent (env : Environment) (e : Expression) :
    failure? (e.expandPresent env) = e.varspecs.findSome? env.fault? := by
  rw [expandPresent_eq, failure?_bind_pure, failure?_pieces]

theorem failure?_expand (env : Environment) (e : Expression) :
    failure? (e.expand env) = e.varspecs.findSome? env.fault? :=
  (failure?_bind_pure (e.expandPresent env) _).trans (failure?_expandPresent env e)

theorem failure?_partialExpand (env : Environment) (e : Expression) :
    failure? (e.partialExpand env) = e.varspecs.findSome? env.fault? :=
  (failure?_bind_pure (e.expandPresent env) _).trans (failure?_expandPresent env e)

end Expression

namespace Part

/-- Where parts fail as their variables do, a series fails as the first of all its variables. -/
theorem failure?_gather {env : Environment} {f : Part → Except Fault Text}
    (each : ∀ p, failure? (f p) = p.varspecs.findSome? env.fault?) (parts : List Part) :
    failure? (gather f parts) = (parts.flatMap varspecs).findSome? env.fault? := by
  induction parts with
  | nil => rfl
  | cons p rest ih =>
    rw [gather_cons, List.flatMap_cons, List.findSome?_append, ← ih, ← each p]
    cases f p with
    | error e => rfl
    | ok first => exact failure?_bind_pure _ _

end Part

namespace Template

theorem failure?_expand (env : Environment) (t : Template) :
    failure? (t.expand env) = t.varspecs.findSome? env.fault? := by
  refine Part.failure?_gather (fun p => ?_) t.parts
  cases p with
  | literal text => rfl
  | expression e => exact e.failure?_expand env

theorem failure?_partialExpand (env : Environment) (t : Template) :
    failure? (t.partialExpand env) = t.varspecs.findSome? env.fault? := by
  refine Part.failure?_gather (fun p => ?_) t.parts
  cases p with
  | literal text => rfl
  | expression e => exact e.failure?_partialExpand env

/-- Expansion fails just when something is refused in the value of a variable: that of the first
such variable is the fault, whether or not expansion is partial, and whatever stands in front of it.
Where nothing is refused, expansion and partial expansion both give a text. -/
theorem expand_fault (t : Template) (env : Environment) :
    ((∃ f, t.expand env = .error f) ↔ ∃ v ∈ t.varspecs, (env.fault? v).isSome = true) ∧
    (match t.varspecs.findSome? env.fault? with
    | some f =>
      t.expand env = .error f ∧ t.partialExpand env = .error f ∧ t.specialize env = .error f
    | none => (∃ text, t.expand env = .ok text) ∧ ∃ text, t.partialExpand env = .ok text) ∧
    ∀ a : Assignment, a.environment.fault? = a.fault? := by
  have whole := failure?_expand env t
  have kept := failure?_partialExpand env t
  rw [← List.findSome?_isSome_iff]
  cases first : t.varspecs.findSome? env.fault? with
  | some f =>
    rw [first, failure?_eq_some] at whole kept
    have read : t.specialize env = .error f := by
      rw [specialize, kept]
      rfl
    exact ⟨iff_of_true ⟨f, whole⟩ rfl, ⟨whole, kept, read⟩, Assignment.fault?_environment⟩
  | none =>
    rw [first, failure?_eq_none] at whole kept
    refine ⟨iff_of_false ?_ (by simp), ⟨whole, kept⟩, Assignment.fault?_environment⟩
    rintro ⟨f, failed⟩
    obtain ⟨text, expanded⟩ := whole
    rw [expanded] at failed
    cases failed

/-- A map may be empty and stand behind a proxy, after a variable without a value. -/
example : ∃ t, parse "\x7bx,y\x7d\x7b?m:03,n:1\x7d".toList = .ok t ∧
    t.expand (Assignment.environment [("x".toList, .datum (.text "1".toList)),
      ("n".toList, .datum (.map [(.text "k".toList, .null)])),
      ("m".toList, .proxy (.datum (.map [])))]) =
      .error (.mapPrefix "m:3".toList) := ⟨_, rfl, rfl⟩

/-- A map under a prefix is not all that is refused. -/
theorem expand_surrogate : ∃ t, parse "\x7ba\x7d".toList = .ok t ∧
    (∀ v ∈ t.varspecs, v.maxLength = 0) ∧
    t.expand (Assignment.environment [("a".toList, .datum (.text [.surrogate 0]))]) =
      .error (.surrogates ⟨0, 0, 1⟩) := ⟨_, rfl, by decide, rfl⟩

/-- Where all that is supplied can be written, a map under a prefix is all that is refused. -/
theorem failure?_expand_of_isWritable {a : Assignment}
    (writable : ∀ name s, Assoc.find? name a = some s → s.IsWritable) (t : Template) :
    failure? (t.expand a.environment) =
      (t.varspecs.find? a.cutsMap).map fun v => .mapPrefix v.render := by
  have cut : a.fault? = fun v => if a.cutsMap v then some (.mapPrefix v.render) else none :=
    funext (Assignment.fault?_of_isWritable writable)
  rw [failure?_expand, Assignment.fault?_environment, cut]
  induction t.varspecs with
  | nil => rfl
  | cons v rest ih =>
    rw [List.findSome?_cons, List.find?_cons]
    cases a.cutsMap v with
    | true => rfl
    | false => exact ih

end Template
end Rfc6570
