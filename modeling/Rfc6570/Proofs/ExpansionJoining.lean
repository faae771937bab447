import Rfc6570.Proofs.Environments
import Rfc6570.Proofs.Outcome
import Rfc6570.Proofs.Splitting
/-!
The expansion of an expression without its accumulator: the pieces of the variables with a value,
joined by the separator after the empty pieces at the front are dropped, and the variables
without a value in their order. `expandPresent_eq` is the equation for a whole expression, and
`expand_eq_ok_iff` the rule that it comes to.
-/

namespace Rfc6570.Expression

/-- What each variable with a value expands to. -/
def pieces (op : Operator) (env : Environment) : List Varspec → Except Fault (List Text)
  | [] => .ok []
  | v :: rest =>
    match env v.name with
    | none => pieces op env rest
    | some given => do
      let piece ← expandValue op v given
      let others ← pieces op env rest
      pure (piece :: others)

def missing (env : Environment) (vs : List Varspec) : List Varspec :=
  vs.filter fun v => (env v.name).isNone

def extend (op : Operator) (written piece : Text) : Text :=
  (if written.isEmpty then [] else written ++ [op.separator]) ++ piece

/-- What an operator makes of the pieces of its variables. -/
def assemble (op : Operator) (ps : List Text) : Text :=
  let written := Text.join op.separator (ps.dropWhile List.isEmpty)
  if written.isEmpty then [] else op.first ++ written

/-! ### The loop -/

theorem foldlM_step (op : Operator) (env : Environment) (vs : List Varspec) (p : Progress) :
    vs.foldlM (step op env) p = (pieces op env vs >>= fun ps =>
      pure ⟨ps.foldl (extend op) p.written, p.missing ++ missing env vs⟩) := by
  induction vs generalizing p with
  | nil => simp [pieces, missing]
  | cons v rest ih =>
    rw [List.foldlM_cons, step, pieces]
    cases found : env v.name with
    | none =>
      rw [ok_bind, ih]
      simp [missing, found]
    | some given =>
      simp only
      cases expandValue op v given with
      | error f => rfl
      | ok piece =>
        rw [ok_bind, pure_eq_ok, ok_bind, ok_bind, ih]
        cases pieces op env rest with
        | error f => rfl
        | ok others => simp [missing, found, extend]

theorem foldl_extend_of_ne_nil (op : Operator) (ps : List Text) {written : Text} (h : written ≠ []) :
    ps.foldl (extend op) written = written ++ ps.flatMap (op.separator :: ·) := by
  induction ps generalizing written with
  | nil => simp
  | cons piece rest ih =>
    have longer : extend op written piece = written ++ op.separator :: piece := by
      simp [extend, h]
    rw [List.foldl_cons, longer, ih (by simp), List.flatMap_cons]
    simp

theorem foldl_extend (op : Operator) (ps : List Text) :
    ps.foldl (extend op) [] = Text.join op.separator (ps.dropWhile List.isEmpty) := by
  induction ps with
  | nil => rfl
  | cons piece rest ih =>
    rw [List.foldl_cons, show extend op [] piece = piece from rfl]
    cases piece with
    | nil => rw [ih, List.dropWhile_cons_of_pos rfl]
    | cons c piece =>
      rw [foldl_extend_of_ne_nil op rest (by simp), List.dropWhile_cons_of_neg (by simp),
        Text.join_cons]

theorem expandPresent_eq (env : Environment) (e : Expression) :
    e.expandPresent env = (pieces e.operator env e.varspecs >>= fun ps =>
      pure (assemble e.operator ps, missing env e.varspecs)) := by
  rw [expandPresent, foldlM_step]
  cases pieces e.operator env e.varspecs with
  | error f => rfl
  | ok ps => simp [assemble, foldl_extend]

theorem expandPresent_ok {env : Environment} {e : Expression} {output : Text} {left : List Varspec}
    (h : e.expandPresent env = .ok (output, left)) :
    left = missing env e.varspecs ∧
      ∃ ps, pieces e.operator env e.varspecs = .ok ps ∧ output = assemble e.operator ps := by
  rw [expandPresent_eq] at h
  obtain ⟨ps, found, h⟩ := bind_ok h
  cases h
  exact ⟨rfl, ps, found, rfl⟩

theorem expand_eq_ok {env : Environment} {e : Expression} {output : Text} {left : List Varspec}
    (h : e.expandPresent env = .ok (output, left)) : e.expand env = .ok output := by
  rw [expand, h]
  rfl

theorem partialExpand_eq_ok {env : Environment} {e : Expression} {output : Text} {left : List Varspec}
    (h : e.expandPresent env = .ok (output, left)) :
    e.partialExpand env = .ok (output ++ if left.isEmpty then [] else e.residual left) := by
  rw [partialExpand, h, ok_bind]
  cases left <;> simp

/-! ### What is given for a variable -/

theorem isMap_of_plain {value : Value} {texts : PlainValue} (plain : value.plain = .ok texts) :
    texts.isMap = value.isMap := by
  cases value with
  | string t =>
    obtain ⟨_, -, plain⟩ := bind_ok plain
    cases plain
    rfl
  | list items =>
    obtain ⟨_, -, plain⟩ := bind_ok plain
    cases plain
    rfl
  | assoc entries =>
    obtain ⟨_, -, plain⟩ := bind_ok plain
    cases plain
    rfl
  | blank mark =>
    cases plain
    rfl

theorem exists_assoc_of_plain {given : Given} {texts : PlainValue} (plain : given.plain = .ok texts)
    (map : texts.isMap = true) : ∃ entries, given = .ok (.assoc entries) := by
  obtain ⟨value, rfl, plain⟩ := bind_ok plain
  rw [isMap_of_plain plain] at map
  cases value with
  | assoc entries => exact ⟨entries, rfl⟩
  | _ => cases map

theorem expandValue_of_plain (op : Operator) {v : Varspec} {given : Given} {texts : PlainValue}
    (plain : given.plain = .ok texts) (fits : v.maxLength ≠ 0 → texts.isMap = false) :
    expandValue op v given = .ok (expandPlain op v texts) := by
  obtain ⟨value, made, plain⟩ := bind_ok plain
  have free : ¬ (v.maxLength ≠ 0 ∧ value.isMap = true) := by
    rintro ⟨limited, map⟩
    rw [← isMap_of_plain plain, fits limited] at map
    cases map
  rw [expandValue, made, ok_bind, if_neg free, plain]
  rfl

/-- What is given expands to its texts, unless they are those of a map under a prefix. -/
theorem expandValue_eq_ok {op : Operator} {v : Varspec} {given : Given} {piece : Text} :
    expandValue op v given = .ok piece ↔ ∃ texts, given.plain = .ok texts ∧
      (v.maxLength ≠ 0 → texts.isMap = false) ∧ expandPlain op v texts = piece := by
  constructor
  · intro expanded
    obtain ⟨value, made, expanded⟩ := bind_ok expanded
    split at expanded
    · cases expanded
    · rename_i free
      obtain ⟨texts, plain, expanded⟩ := bind_ok expanded
      have written : given.plain = .ok texts := by rwa [Given.plain, made]
      refine ⟨texts, written, fun limited => ?_, Except.ok.inj expanded⟩
      rw [isMap_of_plain plain]
      exact Bool.eq_false_iff.mpr fun map => free ⟨limited, map⟩
  · rintro ⟨texts, plain, fits, rfl⟩
    exact expandValue_of_plain op plain fits

/-! ### Pieces -/

def supplied (env : Environment) (vs : List Varspec) : List (Varspec × Given) :=
  vs.filterMap fun v => (env v.name).map fun given => (v, given)

theorem supplied_of_none {env : Environment} {v : Varspec} (h : env v.name = none)
    (rest : List Varspec) : supplied env (v :: rest) = supplied env rest :=
  List.filterMap_cons_none (by rw [h]; rfl)

theorem supplied_of_some {env : Environment} {v : Varspec} {given : Given}
    (h : env v.name = some given) (rest : List Varspec) :
    supplied env (v :: rest) = (v, given) :: supplied env rest :=
  List.filterMap_cons_some (by rw [h]; rfl)

theorem mem_supplied {env : Environment} {vs : List Varspec} {v : Varspec} {given : Given} :
    (v, given) ∈ supplied env vs ↔ v ∈ vs ∧ env v.name = some given := by
  rw [supplied, List.mem_filterMap]
  constructor
  · rintro ⟨w, member, found⟩
    obtain ⟨held, found, same⟩ := Option.map_eq_some_iff.mp found
    cases same
    exact ⟨member, found⟩
  · rintro ⟨member, found⟩
    exact ⟨v, member, by rw [found]; rfl⟩

theorem pieces_eq_mapM (op : Operator) (env : Environment) (vs : List Varspec) :
    pieces op env vs = (supplied env vs).mapM fun s => expandValue op s.1 s.2 := by
  induction vs with
  | nil => rfl
  | cons v rest ih =>
    rw [pieces]
    cases found : env v.name with
    | none => rw [supplied_of_none found, ih]
    | some given => rw [supplied_of_some found, List.mapM_cons, ih]

theorem mem_pieces {op : Operator} {env : Environment} {vs : List Varspec} {ps : List Text}
    (h : pieces op env vs = .ok ps) {piece : Text} (member : piece ∈ ps) :
    ∃ v ∈ vs, ∃ given, env v.name = some given ∧ expandValue op v given = .ok piece := by
  rw [pieces_eq_mapM] at h
  obtain ⟨⟨v, given⟩, source, expanded⟩ := mem_of_mapM_ok h piece member
  obtain ⟨source, found⟩ := mem_supplied.mp source
  exact ⟨v, source, given, found, expanded⟩

theorem missing_eq_nil {env : Environment} {vs : List Varspec} :
    missing env vs = [] ↔ ∀ v ∈ vs, env v.name ≠ none := by
  simp [missing, List.filter_eq_nil_iff]

theorem missing_of_forall {env : Environment} {vs : List Varspec} (h : ∀ v ∈ vs, env v.name = none) :
    missing env vs = vs := by
  simpa [missing, List.filter_eq_self] using h

theorem pieces_of_forall (op : Operator) {env : Environment} {vs : List Varspec}
    (h : ∀ v ∈ vs, env v.name = none) : pieces op env vs = .ok [] := by
  induction vs with
  | nil => rfl
  | cons v rest ih =>
    rw [pieces, h v List.mem_cons_self]
    exact ih fun w member => h w (List.mem_cons_of_mem v member)

theorem pieces_congr {op : Operator} {env env' : Environment} {vs : List Varspec}
    (h : ∀ v ∈ vs, env v.name = env' v.name) : pieces op env vs = pieces op env' vs := by
  induction vs with
  | nil => rfl
  | cons v rest ih =>
    rw [pieces, pieces, h v List.mem_cons_self, ih fun w member => h w (List.mem_cons_of_mem v member)]

theorem expandPresent_congr {env env' : Environment} {e : Expression}
    (h : ∀ v ∈ e.varspecs, env v.name = env' v.name) : e.expandPresent env = e.expandPresent env' := by
  have left : missing env e.varspecs = missing env' e.varspecs :=
    List.filter_congr fun v member => by rw [h v member]
  rw [expandPresent_eq, expandPresent_eq, pieces_congr h, left]

/-! ### The joining rule -/

theorem isEmpty_join_dropWhile (sep : Char) (ps : List Text) :
    (Text.join sep (ps.dropWhile List.isEmpty)).isEmpty = ps.all List.isEmpty := by
  induction ps with
  | nil => rfl
  | cons piece rest ih =>
    cases piece with
    | nil => rw [List.dropWhile_cons_of_pos rfl, ih, List.all_cons, List.isEmpty_nil, Bool.true_and]
    | cons c piece => rw [List.dropWhile_cons_of_neg (by simp), Text.join_cons]; rfl

theorem assemble_eq (op : Operator) (ps : List Text) :
    assemble op ps = if ps.all List.isEmpty then []
      else op.first ++ Text.join op.separator (ps.dropWhile List.isEmpty) := by
  simp only [assemble, isEmpty_join_dropWhile]

theorem assemble_eq_nil {op : Operator} {ps : List Text} :
    assemble op ps = [] ↔ ∀ piece ∈ ps, piece = [] := by
  rw [assemble_eq]
  split
  · rename_i all
    exact iff_of_true rfl (by simpa using all)
  · rename_i some
    have filled := isEmpty_join_dropWhile op.separator ps
    refine iff_of_false (fun nothing => ?_) (by simpa using some)
    rw [(List.append_eq_nil_iff.mp nothing).2] at filled
    exact some filled.symm

/-- An expression expands to the pieces of the variables with a value, behind what the operator
writes first and with its separator between them. Empty pieces at the front leave no separator,
later ones do, and nothing is written when all are empty. The variables without a value are left
in their order. -/
theorem expand_eq_ok_iff (env : Environment) (e : Expression) (output : Text) :
    (e.expand env = .ok output ↔
      ∃ ps, (supplied env e.varspecs).mapM (fun s => expandValue e.operator s.1 s.2) = .ok ps ∧
        output = if ps.all List.isEmpty then []
          else e.operator.first ++ Text.join e.operator.separator (ps.dropWhile List.isEmpty)) ∧
    ∀ left, e.expandPresent env = .ok (output, left) ↔
      e.expand env = .ok output ∧ left = e.varspecs.filter fun v => (env v.name).isNone := by
  rw [expand, expandPresent_eq, ← pieces_eq_mapM]
  cases pieces e.operator env e.varspecs with
  | error f => simp
  | ok ps =>
    simp only [ok_bind, pure_eq_ok, Except.ok.injEq, Prod.mk.injEq, ← assemble_eq]
    refine ⟨⟨fun same => ⟨ps, rfl, same.symm⟩, ?_⟩, fun left => and_congr_right fun _ => eq_comm⟩
    rintro ⟨_, rfl, rfl⟩
    rfl

/-- The first of three variables leaves no separator, the last one does. -/
example : expand (fun name => some (.ok (.string (if name = ['b'] then [.char '1'] else []))))
    ⟨.simple, [⟨['a'], false, 0⟩, ⟨['b'], false, 0⟩, ⟨['c'], false, 0⟩]⟩ = .ok "1,".toList := rfl

end Rfc6570.Expression
