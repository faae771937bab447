import Rfc6570.Proofs.AssocWrites
import Rfc6570.Proofs.Environments
import Rfc6570.Proofs.ExpansionJoining
import Rfc6570.Proofs.PartSeries
/-!
Empty lists and maps in an expansion. Such a value expands to nothing, but the separator before it
is written like any other once its expression has output. Main statement: `expand_without`, each
variable behind output that has an empty list or map adds one character, and no other one does.
-/

namespace Rfc6570

namespace Environment

def EmptyAt (env : Environment) (name : Text) : Prop :=
  env name = some (.ok (.list [])) ∨ env name = some (.ok (.assoc []))

def without (env : Environment) (name : Text) : Environment := fun other =>
  if other = name then none else env other

theorem without_self (env : Environment) (name : Text) : env.without name name = none :=
  if_pos rfl

theorem without_of_ne {name other : Text} (different : other ≠ name) (env : Environment) :
    env.without name other = env other :=
  if_neg different

end Environment

theorem Assignment.environment_erase (a : Assignment) (name : Text) :
    environment (Assoc.erase (name : RawText) a) = (environment a).without name := by
  funext other
  by_cases same : other = name
  · rw [same, Environment.without_self, environment, Assoc.find?_erase_self]
    rfl
  · rw [Environment.without_of_ne same, environment, environment,
      Assoc.find?_erase_of_ne (mt Text.raw_inj.mp same)]

namespace Text

/-- `text` is `plain` with `n` characters put in. -/
structure Gains (n : Nat) (text plain : Text) : Prop where
  sublist : plain.Sublist text
  length : text.length = plain.length + n

namespace Gains

theorem refl (text : Text) : Gains 0 text text :=
  ⟨List.Sublist.refl text, rfl⟩

theorem append {n m : Nat} {text text' plain plain' : Text} (first : Gains n text plain)
    (second : Gains m text' plain') : Gains (n + m) (text ++ text') (plain ++ plain') where
  sublist := first.sublist.append second.sublist
  length := by
    rw [List.length_append, List.length_append, first.length, second.length]
    omega

theorem behind (start : Text) {n : Nat} {text plain : Text} (gains : Gains n text plain) :
    Gains n (start ++ text) (start ++ plain) :=
  Nat.zero_add n ▸ (refl start).append gains

theorem eq_iff {n : Nat} {text plain : Text} (gains : Gains n text plain) : text = plain ↔ n = 0 := by
  constructor
  · intro same
    have length := gains.length
    rw [same] at length
    omega
  · rintro rfl
    exact (gains.sublist.eq_of_length gains.length.symm).symm

end Gains
end Text

namespace Expression

/-- A variable with a value that expands to some text. -/
def writes (op : Operator) (env : Environment) (v : Varspec) : Bool :=
  ((env v.name).bind fun given => (expandValue op v given).toOption).any fun piece => !piece.isEmpty

/-- The variables that stand behind the first one that writes something. -/
def behindOutput (op : Operator) (env : Environment) (vs : List Varspec) : List Varspec :=
  (vs.dropWhile fun v => !writes op env v).tail

variable {op : Operator} {env : Environment} {name : Text} {v : Varspec} {vs : List Varspec}

theorem behindOutput_of_writes (filled : writes op env v = true) (vs : List Varspec) :
    behindOutput op env (v :: vs) = vs := by
  rw [behindOutput, List.dropWhile_cons_of_neg (by simp [filled]), List.tail_cons]

theorem behindOutput_of_not_writes (nothing : writes op env v = false) (vs : List Varspec) :
    behindOutput op env (v :: vs) = behindOutput op env vs := by
  rw [behindOutput, List.dropWhile_cons_of_pos (by simp [nothing]), behindOutput]

theorem assemble_nil_cons (op : Operator) (ps : List Text) : assemble op ([] :: ps) = assemble op ps :=
  rfl

theorem assemble_cons (op : Operator) {piece : Text} (filled : piece ≠ []) (ps : List Text) :
    assemble op (piece :: ps) = op.first ++ (piece ++ ps.flatMap (op.separator :: ·)) := by
  have kept : (piece :: ps).dropWhile List.isEmpty = piece :: ps :=
    List.dropWhile_cons_of_neg (by simpa using filled)
  rw [assemble, kept, Text.join_cons]
  exact if_neg (by simp [filled])

/-! ### Pieces -/

/-- The pieces of variables beside those that are left when `name` has no value: a variable of
that name has an empty piece, which is missing there. -/
inductive Blanked (op : Operator) (env : Environment) (name : Text) :
    List Varspec → List Text → List Text → Prop
  | nil : Blanked op env name [] [] []
  | missing {v vs ps qs} (other : v.name ≠ name) (nothing : writes op env v = false)
      (rest : Blanked op env name vs ps qs) : Blanked op env name (v :: vs) ps qs
  | blank {v vs ps qs} (here : v.name = name) (nothing : writes op env v = false)
      (rest : Blanked op env name vs ps qs) : Blanked op env name (v :: vs) ([] :: ps) qs
  | piece {v vs ps qs} {piece : Text} (other : v.name ≠ name)
      (written : writes op env v = !piece.isEmpty) (rest : Blanked op env name vs ps qs) :
      Blanked op env name (v :: vs) (piece :: ps) (piece :: qs)

theorem expandValue_blank (blank : env.EmptyAt name) (here : v.name = name) (uncut : v.maxLength = 0) :
    ∃ given, env v.name = some given ∧ expandValue op v given = .ok [] := by
  rw [here]
  rcases blank with list | map
  · have plain : Given.plain (.ok (.list [])) = .ok (.list []) := rfl
    exact ⟨_, list, expandValue_of_plain op plain (absurd uncut)⟩
  · have plain : Given.plain (.ok (.assoc [])) = .ok (.assoc []) := rfl
    exact ⟨_, map, expandValue_of_plain op plain (absurd uncut)⟩

theorem pieces_without (blank : env.EmptyAt name)
    (uncut : ∀ v ∈ vs, v.name = name → v.maxLength = 0) :
    EndAlike (Blanked op env name vs) (pieces op env vs) (pieces op (env.without name) vs) := by
  induction vs with
  | nil => exact Or.inr ⟨[], [], rfl, rfl, .nil⟩
  | cons v rest ih =>
    obtain ⟨first, uncut⟩ := List.forall_mem_cons.mp uncut
    have others := ih uncut
    rw [pieces, pieces]
    by_cases here : v.name = name
    · -- The left side gets an empty piece, the right side skips the variable.
      obtain ⟨given, found, nothing⟩ := @expandValue_blank op _ _ _ blank here (first here)
      have lost : env.without name v.name = none := by rw [here, env.without_self]
      simp only [found, lost, nothing, ok_bind]
      rw [← bind_pure (pieces op (env.without name) rest)]
      refine others.bind fun ps qs related => Or.inr ⟨_, _, rfl, rfl, .blank here ?_ related⟩
      simp [writes, found, nothing, Except.toOption]
    · rw [env.without_of_ne here]
      cases found : env v.name with
      | none =>
        rcases others with ⟨f, left, right⟩ | ⟨ps, qs, left, right, related⟩
        · exact Or.inl ⟨f, left, right⟩
        · exact Or.inr ⟨ps, qs, left, right, .missing here (by simp [writes, found]) related⟩
      | some given =>
        simp only
        cases expanded : expandValue op v given with
        | error f => exact Or.inl ⟨f, rfl, rfl⟩
        | ok piece =>
          refine others.bind fun ps qs related => Or.inr ⟨_, _, rfl, rfl, .piece here ?_ related⟩
          simp [writes, found, expanded, Except.toOption]

/-- Once there is output, each of the variables costs a separator. -/
theorem Blanked.gains_behind {ps qs : List Text} (related : Blanked op env name vs ps qs) :
    Text.Gains (vs.countP (·.name == name)) (ps.flatMap (op.separator :: ·))
      (qs.flatMap (op.separator :: ·)) := by
  induction related with
  | nil => exact .refl []
  | missing other nothing rest ih =>
    rw [List.countP_cons_of_neg (by simpa using other)]
    exact ih
  | blank here nothing rest ih =>
    rw [List.countP_cons_of_pos (by simpa using here), List.flatMap_cons]
    exact ⟨ih.sublist.cons _, by simp [ih.length]; omega⟩
  | piece other written rest ih =>
    rw [List.countP_cons_of_neg (by simpa using other), List.flatMap_cons, List.flatMap_cons]
    exact ih.behind _

theorem Blanked.gains {ps qs : List Text} (related : Blanked op env name vs ps qs) :
    Text.Gains ((behindOutput op env vs).countP (·.name == name)) (assemble op ps) (assemble op qs) := by
  induction related with
  | nil => exact .refl []
  | missing other nothing rest ih =>
    rw [behindOutput_of_not_writes nothing]
    exact ih
  | blank here nothing rest ih =>
    rw [behindOutput_of_not_writes nothing, assemble_nil_cons]
    exact ih
  | @piece v vs ps qs piece other written rest ih =>
    cases piece with
    | nil =>
      rw [behindOutput_of_not_writes written, assemble_nil_cons, assemble_nil_cons]
      exact ih
    | cons c piece =>
      -- The first output: from here on every variable of the name counts.
      rw [behindOutput_of_writes written, assemble_cons op (by simp), assemble_cons op (by simp)]
      exact (rest.gains_behind.behind _).behind _

theorem expand_gains {e : Expression} (blank : env.EmptyAt name)
    (uncut : ∀ v ∈ e.varspecs, v.name = name → v.maxLength = 0) :
    EndAlike (Text.Gains ((behindOutput e.operator env e.varspecs).countP (·.name == name)))
      (e.expand env) (e.expand (env.without name)) := by
  rw [expand, expand, expandPresent_eq, expandPresent_eq, bind_assoc, bind_assoc]
  exact (pieces_without blank uncut).bind fun ps qs related =>
    Or.inr ⟨_, _, rfl, rfl, related.gains⟩

end Expression

/-! ### Templates -/

namespace Part

def behindOutput (env : Environment) : Part → List Varspec
  | .literal _ => []
  | .expression e => Expression.behindOutput e.operator env e.varspecs

variable {env : Environment} {name : Text}

theorem expandAll_gains {parts : List Part} (blank : env.EmptyAt name)
    (uncut : ∀ v ∈ parts.flatMap varspecs, v.name = name → v.maxLength = 0) :
    EndAlike (Text.Gains ((parts.flatMap (behindOutput env)).countP (·.name == name)))
      (expandAll env parts) (expandAll (env.without name) parts) := by
  induction parts with
  | nil => exact Or.inr ⟨[], [], rfl, rfl, .refl []⟩
  | cons p rest ih =>
    rw [List.flatMap_cons, List.forall_mem_append] at uncut
    have first : EndAlike (Text.Gains ((p.behindOutput env).countP (·.name == name)))
        (p.expand env) (p.expand (env.without name)) := by
      cases p with
      | literal text => exact Or.inr ⟨text, text, rfl, rfl, .refl text⟩
      | expression e => exact Expression.expand_gains blank uncut.1
    rw [expandAll_eq_gather, expandAll_eq_gather, gather_cons, gather_cons, List.flatMap_cons,
      List.countP_append]
    refine first.bind fun text plain gains => (ih uncut.2).bind fun text' plain' more => ?_
    exact Or.inr ⟨_, _, rfl, rfl, gains.append more⟩

end Part

namespace Template

/-- The variables of a template that stand behind output of their expressions. -/
def behindOutput (env : Environment) (t : Template) : List Varspec :=
  t.parts.flatMap (Part.behindOutput env)

/-- An empty list or map against no value at all. It adds one character for every variable with it
that stands behind output, so that both expand alike exactly where no such variable does. -/
theorem expand_without {t : Template} {env : Environment} {name : Text} (blank : env.EmptyAt name)
    (uncut : ∀ v ∈ t.varspecs, v.name = name → v.maxLength = 0) :
    EndAlike (Text.Gains ((t.behindOutput env).countP (·.name == name)))
      (t.expand env) (t.expand (env.without name)) ∧
    (t.expand env = t.expand (env.without name) ↔
      (∃ f, t.expand env = .error f) ∨ ∀ v ∈ t.behindOutput env, v.name ≠ name) := by
  have alike := Part.expandAll_gains blank uncut
  refine ⟨alike, ?_⟩
  rcases alike with ⟨f, left, right⟩ | ⟨text, plain, left, right, gains⟩
  · rw [expand, expand, left, right]
    exact iff_of_true rfl (Or.inl ⟨f, rfl⟩)
  · rw [expand, expand, left, right, Except.ok.injEq, gains.eq_iff, List.countP_eq_zero]
    simp [behindOutput]

theorem expand_without_front : ∃ t, ∃ a : Assignment,
    parse "\x7b?m,a,l*\x7d\x7bm\x7d".toList = .ok t ∧
    a = ([("m".toList, .datum (.map [])), ("a".toList, .datum (.text "1".toList)),
      ("l".toList, .datum (.list []))] : Assignment) ∧
    t.expand (Assignment.environment a) = .ok "?a=1&".toList ∧
    t.expand (Assignment.environment (Assoc.erase (Text.raw ['m']) a)) = .ok "?a=1&".toList := by
  refine ⟨⟨"\x7b?m,a,l*\x7d\x7bm\x7d".toList,
    [.expression ⟨.query, [⟨['m'], false, 0⟩, ⟨['a'], false, 0⟩, ⟨['l'], true, 0⟩]⟩,
      .expression ⟨.simple, [⟨['m'], false, 0⟩]⟩]⟩, _, rfl, rfl, rfl, ?_⟩
  rw [Assignment.environment_erase]
  exact ((expand_without (Or.inr rfl) (by decide)).2.mpr (Or.inr (by decide))).symm.trans rfl

/-- A list in second place leaves its separator behind. -/
theorem expand_empty_list : ∃ t, ∃ a : Assignment,
    parse "\x7bx,l\x7d".toList = .ok t ∧
    a = ([("x".toList, .datum (.text "1".toList)), ("l".toList, .datum (.list []))] : Assignment) ∧
    (Assignment.environment a).EmptyAt ['l'] ∧
    (∀ v ∈ t.varspecs, v.name = ['l'] → v.maxLength = 0) ∧
    t.expand (Assignment.environment a) = .ok "1,".toList ∧
    t.expand (Assignment.environment (Assoc.erase (Text.raw ['l']) a)) = .ok "1".toList :=
  ⟨⟨_, [.expression ⟨.simple, [⟨['x'], false, 0⟩, ⟨['l'], false, 0⟩]⟩]⟩,
    _, rfl, rfl, Or.inl rfl, by decide, rfl, rfl⟩

end Template
end Rfc6570
