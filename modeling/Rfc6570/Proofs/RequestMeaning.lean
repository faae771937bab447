import Rfc6570.CommandLine
import Rfc6570.Proofs.ReportedFaults
/-!
What a request says: its words are one template, its arguments are calls on one store, in their
order, and the template is expanded with that store. Main statement: `run_eq_ending`, a run prints
what the request says, or reports the first failure. The stores that a run makes for single
arguments leave no trace. A run ends without a report only for a file that is no text, a name that
no file has, or a surrogate.
-/

namespace Rfc6570.CommandLine

/-! ### One store for a request -/

def readText (read : Reader) (name : Text) : Except Failure Text :=
  if name.contains '\x00' then .error (.abort .nullName)
  else do
    let data ← (read name).mapError fun flaw => .file flaw name
    (decodeFile data).mapError fun f => .abort (.encoding f)

def callOfParam (param : Text) : Except Failure Store.Call := do
  let b ← (Binding.parse [param]).mapError Failure.template
  pure (.add [b])

/-- The call that a variable in abbreviated notation or a file of variables makes. -/
def callOfExpression (read : Reader) : Text → Except Failure Store.Call
  | '@' :: name => do
    let text ← readText read name
    pure (.load text)
  | expression => .ok (.set expression)

def perform (s : Store) (call : Except Failure Store.Call) : Except Failure Store := do
  let c ← call
  (c.run s).toExcept.mapError Failure.template

/-- The store after all calls of a request, the typed variables first. -/
def storeOf (read : Reader) (r : Request) : Except Failure Store :=
  (r.params.map callOfParam ++ r.expressions.map (callOfExpression read)).foldlM perform Store.empty

/-- The text that a request asks for. What comes first of a bad template, a bad argument and a
failing expansion is its failure. -/
def outputOf (read : Reader) (r : Request) : Except Failure Text := do
  let t ← (Template.parse r.words.flatten).mapError Failure.template
  let s ← storeOf read r
  (if r.isPartial then t.partialExpand s.environment else t.expand s.environment).mapError
    Failure.template

/-- How a run ends that has written `notes`. A failure is reported when it is one of templates or
files, and ends the run otherwise. -/
def ending (notes : Text) : Except Failure Text → Except Abort Report
  | .ok output => .ok { status := 0, output := output ++ ['\n'], errors := notes }
  | .error f =>
    match f.abort? with
    | some a => .error a
    | none =>
      .ok
        { status := 1
          errors := notes ++ logLine "uritemplates".toList "ERROR".toList f.message.shown }

/-- A line of the log that reports no failure. -/
def IsNote (line : Text) : Prop :=
  ∃ source message, line = logLine source "DEBUG".toList message

theorem isNote_of_mem_keyNotes {keyed : List RawText} : ∀ line ∈ keyNotes keyed, IsNote line := by
  intro line member
  obtain ⟨name, -, rfl⟩ := List.mem_map.mp member
  exact ⟨_, _, rfl⟩

/-! ### Loading -/

def opening : Text → List Text
  | '@' :: name => [note ("loading variables from ".toList ++ name)]
  | _ => []

namespace Loading

def result (l : Loading) : Except Failure Store :=
  match l.failure? with
  | none => .ok l.store
  | some f => .error f

def addNotes (l : Loading) (lines : List Text) : Loading :=
  { l with notes := l.notes ++ lines }

def proceed (l : Loading) (o : Store.Outcome) : Loading :=
  { store := o.store
    notes := l.notes ++ keyNotes o.keyed
    failure? := o.fault?.map Failure.template }

def takeCall (l : Loading) : Except Failure Store.Call → Loading
  | .error f => l.fail f
  | .ok c => l.proceed (c.run l.store)

def IsNoted (l : Loading) : Prop :=
  ∀ line ∈ l.notes, IsNote line

variable {l : Loading}

/-- Nothing is left of the store of a single argument. -/
theorem takeStore_eq_proceed (l : Loading) {c : Store.Call} (written : c.IsWritten) :
    l.takeStore (c.run Store.empty) = l.proceed (c.run l.store) := by
  rcases Store.Call.run_written written l.store with ⟨f, own, direct⟩ | ⟨own, filled, direct⟩
  · rw [own, direct]
    rfl
  · rw [filled, direct, takeStore, keyNotes, List.map_nil, List.append_nil]
    rfl

/-! ### One argument -/

theorem addNotes_nil (l : Loading) : l.addNotes [] = l := by
  rw [addNotes, List.append_nil]

theorem takeParam_eq (l : Loading) (param : Text) :
    l.takeParam param = l.takeCall (callOfParam param) := by
  rw [takeParam, callOfParam]
  cases Binding.parse [param] <;> rfl

theorem takeFile_eq (read : Reader) (l : Loading) (name : Text) :
    l.takeFile read name =
      (l.addNotes (opening ('@' :: name))).takeCall
        (readText read name >>= fun text => pure (.load text)) := by
  rw [takeFile, readText]
  split
  · rfl
  · cases read name with
    | error flaw => rfl
    | ok data =>
      simp only [ok_mapError, ok_bind]
      cases decodeFile data with
      | error f => rfl
      | ok text =>
        exact takeStore_eq_proceed (l.addNotes (opening ('@' :: name))) (c := .load text) trivial

theorem takeExpression_eq (read : Reader) (l : Loading) (expression : Text) :
    l.takeExpression read expression =
      (l.addNotes (opening expression)).takeCall (callOfExpression read expression) := by
  unfold takeExpression
  split
  · exact takeFile_eq read l _
  · rename_i noFile
    have quiet : opening expression = [] := by
      rw [opening]
      exact noFile
    have direct : callOfExpression read expression = .ok (.set expression) := by
      rw [callOfExpression]
      exact noFile
    rw [quiet, direct, addNotes_nil]
    exact takeStore_eq_proceed l (c := .set expression) trivial

/-! ### All arguments -/

theorem result_takeCall (l : Loading) (call : Except Failure Store.Call) :
    (l.takeCall call).result = perform l.store call := by
  cases call with
  | error f => rfl
  | ok c =>
    rw [takeCall, proceed, result, perform, ok_bind, Store.Outcome.toExcept]
    cases (c.run l.store).fault? <;> rfl

theorem isNoted_addNotes (noted : l.IsNoted) (expression : Text) :
    (l.addNotes (opening expression)).IsNoted := by
  intro line member
  rcases List.mem_append.mp member with before | new
  · exact noted line before
  · unfold opening at new
    split at new
    · rw [List.mem_singleton.mp new]
      exact ⟨_, _, rfl⟩
    · cases new

theorem isNoted_takeCall (noted : l.IsNoted) (call : Except Failure Store.Call) :
    (l.takeCall call).IsNoted := by
  cases call with
  | error f => exact noted
  | ok c =>
    intro line member
    rcases List.mem_append.mp member with before | new
    · exact noted line before
    · exact isNote_of_mem_keyNotes line new

/-- Arguments that are taken one after the other are calls on one store. -/
theorem foldl_andThen {take : Loading → Text → Loading} {call : Text → Except Failure Store.Call}
    (each : ∀ l arg, (take l arg).result = perform l.store (call arg) ∧
      (l.IsNoted → (take l arg).IsNoted))
    (args : List Text) (noted : l.IsNoted) :
    (args.foldl (andThen take) l).result = (l.result >>= fun s => (args.map call).foldlM perform s) ∧
      (args.foldl (andThen take) l).IsNoted := by
  induction args generalizing l with
  | nil =>
    rw [List.foldl_nil, List.map_nil]
    refine ⟨?_, noted⟩
    cases l.result <;> rfl
  | cons arg rest ih =>
    rw [List.foldl_cons, andThen, List.map_cons]
    cases ended : l.failure? with
    | some f =>
      -- A failure stays, whatever the arguments after it are.
      obtain ⟨stays, same⟩ := ih noted
      have failed : l.result = .error f := by rw [result, ended]
      rw [failed] at stays ⊢
      exact ⟨stays, same⟩
    | none =>
      obtain ⟨here, still⟩ := each l arg
      obtain ⟨later, same⟩ := ih (still noted)
      have going : l.result = .ok l.store := by rw [result, ended]
      rw [here] at later
      rw [going]
      exact ⟨later, same⟩

/-- Loading makes the calls of a request on one store, and writes notes only. -/
theorem ofRequest_eq (read : Reader) (r : Request) :
    (ofRequest read r).result = storeOf read r ∧ (ofRequest read r).IsNoted := by
  have silent : IsNoted {} := by simp [IsNoted]
  have param (l : Loading) (arg : Text) : (l.takeParam arg).result = perform l.store (callOfParam arg) ∧
      (l.IsNoted → (l.takeParam arg).IsNoted) := by
    rw [takeParam_eq]
    exact ⟨result_takeCall l _, fun noted => isNoted_takeCall noted _⟩
  have expression (l : Loading) (arg : Text) :
      (l.takeExpression read arg).result = perform l.store (callOfExpression read arg) ∧
        (l.IsNoted → (l.takeExpression read arg).IsNoted) := by
    rw [takeExpression_eq]
    exact ⟨result_takeCall _ _, fun noted => isNoted_takeCall (isNoted_addNotes noted arg) _⟩
  obtain ⟨typed, quiet⟩ := foldl_andThen param r.params silent
  obtain ⟨loaded, noted⟩ := foldl_andThen expression r.expressions quiet
  refine ⟨?_, noted⟩
  rw [typed] at loaded
  rw [storeOf, List.foldlM_append]
  exact loaded

end Loading

/-! ### Failures without a report -/

/-- A failure that is reported, unless it is a file that is no text, a name that no file has, or a
surrogate. -/
def Failure.IsForeseen (f : Failure) : Prop :=
  ∀ a, f.abort? = some a →
    (∃ flaw, a = .encoding flaw) ∨ a = .nullName ∨ ∃ found, a = .fault (.surrogates found)

theorem Failure.isForeseen_template {f : Fault} (known : f.IsOfTemplate) :
    (template f).IsForeseen := by
  intro a ends
  unfold Fault.IsOfTemplate at known
  rw [abort?, if_pos known] at ends
  cases ends

theorem readText_ends (read : Reader) (name : Text) :
    EndsIn (fun _ => True) Failure.IsForeseen (readText read name) := by
  unfold readText
  split
  · rintro a ⟨⟩
    exact Or.inr (Or.inl rfl)
  · refine EndsIn.bind (P := fun _ => True) ?_ fun data _ => ?_
    · cases read name with
      | error flaw => exact nofun
      | ok data => trivial
    · cases decodeFile data with
      | error flaw =>
        rintro a ⟨⟩
        exact Or.inl ⟨flaw, rfl⟩
      | ok text => trivial

theorem callOfParam_ends (param : Text) :
    EndsIn Store.Call.IsPlain Failure.IsForeseen (callOfParam param) := by
  unfold callOfParam
  cases read : Binding.parse [param] with
  | error f => exact Failure.isForeseen_template (Binding.isOfTemplate_of_parseFrom read)
  | ok b => exact Store.Call.isPlain_add read

theorem callOfExpression_ends (read : Reader) (expression : Text) :
    EndsIn Store.Call.IsPlain Failure.IsForeseen (callOfExpression read expression) := by
  unfold callOfExpression
  split
  · exact (readText_ends read _).bind fun text _ => Store.Call.isPlain_load text
  · exact Store.Call.isPlain_set _

theorem perform_ends {s : Store} (short : s.IsShort) {call : Except Failure Store.Call}
    (ends : EndsIn Store.Call.IsPlain Failure.IsForeseen call) :
    EndsIn Store.IsShort Failure.IsForeseen (perform s call) := by
  refine ends.bind fun c plain => ?_
  obtain ⟨kept, known⟩ := plain.run short
  rw [Store.Outcome.toExcept]
  cases ended : (c.run s).fault? with
  | none => exact kept
  | some f => exact Failure.isForeseen_template (known f ended)

theorem storeOf_ends (read : Reader) (r : Request) :
    EndsIn Store.IsShort Failure.IsForeseen (storeOf read r) := by
  refine EndsIn.foldlM (fun s short call member => perform_ends short ?_) (List.forall_mem_nil _)
  rcases List.mem_append.mp member with typed | written
  · obtain ⟨param, -, rfl⟩ := List.mem_map.mp typed
    exact callOfParam_ends param
  · obtain ⟨expression, -, rfl⟩ := List.mem_map.mp written
    exact callOfExpression_ends read expression

theorem outputOf_ends (read : Reader) (r : Request) :
    EndsIn (fun _ => True) Failure.IsForeseen (outputOf read r) := by
  refine EndsIn.bind (P := fun _ => True) ?_ fun t _ => (storeOf_ends read r).bind fun s short => ?_
  · cases parsed : Template.parse r.words.flatten with
    | error f => exact Failure.isForeseen_template (Template.isOfTemplate_of_parse parsed)
    | ok t => trivial
  · have first : failure? (if r.isPartial then t.partialExpand s.environment
        else t.expand s.environment) = t.varspecs.findSome? s.environment.fault? := by
      split
      · exact t.failure?_partialExpand s.environment
      · exact t.failure?_expand s.environment
    cases output : (if r.isPartial then t.partialExpand s.environment
        else t.expand s.environment) with
    | ok text => trivial
    | error f =>
      rw [output] at first
      rcases short.fault_of_expand first.symm with known | ⟨found, rfl⟩
      · exact Failure.isForeseen_template known
      · rintro a ⟨⟩
        exact Or.inr (Or.inr ⟨found, rfl⟩)

/-! ### Running -/

theorem isNote_of_shown {lines : List Text} (all : ∀ line ∈ lines, IsNote line) (verbose : Bool) :
    (verbose = false → (if verbose then lines else []) = []) ∧
      ∀ line ∈ if verbose then lines else [], IsNote line := by
  cases verbose with
  | false => exact ⟨fun _ => rfl, by simp⟩
  | true => exact ⟨fun quiet => Bool.noConfusion quiet, all⟩

theorem expandRequest_eq (read : Reader) (r : Request) :
    ∃ notes : List Text, (r.isVerbose = false → notes = []) ∧ (∀ line ∈ notes, IsNote line) ∧
      expandRequest read r = ending notes.flatten (outputOf read r) := by
  obtain ⟨loaded, noted⟩ := Loading.ofRequest_eq read r
  rw [expandRequest, outputOf]
  cases Template.parse r.words.flatten with
  | error f => exact ⟨[], fun _ => rfl, by simp, rfl⟩
  | ok t =>
    rw [ok_mapError, ok_bind, ← loaded, Loading.result]
    cases ended : (Loading.ofRequest read r).failure? with
    | some f =>
      obtain ⟨quiet, all⟩ := isNote_of_shown noted r.isVerbose
      refine ⟨_, quiet, all, ?_⟩
      simp only [ended]
      cases f <;> rfl
    | none =>
      have announced : ∀ line ∈ (Loading.ofRequest read r).notes ++ [note ("expanding ".toList ++
          t.text ++ " with ".toList ++ (Loading.ofRequest read r).store.render.shown)],
          IsNote line := by
        intro line member
        rcases List.mem_append.mp member with before | last
        · exact noted line before
        · rw [List.mem_singleton.mp last]
          exact ⟨_, _, rfl⟩
      obtain ⟨quiet, all⟩ := isNote_of_shown announced r.isVerbose
      refine ⟨_, quiet, all, ?_⟩
      simp only [ended, ok_bind]
      cases (if r.isPartial then t.partialExpand (Loading.ofRequest read r).store.environment
        else t.expand (Loading.ofRequest read r).store.environment) <;> rfl

/-- A run with template words prints the text that its request asks for, or ends with the first
failure, and the log holds nothing else but notes, those on request only. The store that it loads
is that of all calls on one store. It ends without a report only for a file that is no text, a name
that no file has, or a surrogate. -/
theorem run_eq_ending (e : Edition) (read : Reader) {args : List Text} {r : Request}
    (accepted : Command.ofArgs e args = .ok (.expand r)) (words : r.words ≠ []) :
    (Loading.ofRequest read r).result = storeOf read r ∧
      (∃ notes : List Text, (r.isVerbose = false → notes = []) ∧ (∀ line ∈ notes, IsNote line) ∧
        run e read args = ending notes.flatten (outputOf read r)) ∧
      ∀ a, run e read args = .error a →
        (∃ flaw, a = .encoding flaw) ∨ a = .nullName ∨ ∃ found, a = .fault (.surrogates found) := by
  obtain ⟨notes, quiet, all, same⟩ := expandRequest_eq read r
  have made : run e read args = ending notes.flatten (outputOf read r) := by
    rw [run, accepted]
    simp only [if_neg (mt List.isEmpty_iff.mp words), same]
  refine ⟨(Loading.ofRequest_eq read r).1, ⟨notes, quiet, all, made⟩, fun a ended => ?_⟩
  rw [made] at ended
  have known := outputOf_ends read r
  cases output : outputOf read r with
  | ok text =>
    rw [output] at ended
    cases ended
  | error f =>
    rw [output] at known
    rw [output, ending] at ended
    cases ends : f.abort? with
    | none =>
      rw [ends] at ended
      cases ended
    | some b =>
      rw [ends] at ended
      cases ended
      exact known a ends

theorem run_eq_ending_mixed : ∃ (files : Directory) (args : List Text) (r : Request),
    files = [(['f'], Text.utf8 "\x7b\"m\":\x7b\"x\":1\x7d,\"l\":[\"d\"],\"n\":null\x7d".toList)] ∧
    args = ["\x7b?l*,m*\x7d".toList, "\x7b&s\x7d".toList, "-Pt".toList, "@f".toList,
      "-T".toList, "l=a".toList, "-t".toList, "l=[b, c]".toList] ∧
    Command.ofArgs .current args = .ok (.expand r) ∧ r.words ≠ [] ∧
    run .current files.reader args =
      .ok { status := 0, output := "?l=a&l=d&l=b&l=c&x=1\x7b&s\x7d\n".toList } := by
  have accepted : Command.ofArgs .current ["\x7b?l*,m*\x7d".toList, "\x7b&s\x7d".toList,
      "-Pt".toList, "@f".toList, "-T".toList, "l=a".toList, "-t".toList, "l=[b, c]".toList] =
    .ok (.expand ⟨["\x7b?l*,m*\x7d".toList, "\x7b&s\x7d".toList], ["l=a".toList],
      ["@f".toList, "l=[b, c]".toList], true, false⟩) := rfl
  obtain ⟨-, ⟨notes, quiet, -, same⟩, -⟩ := run_eq_ending .current
    (Directory.reader
      [(['f'], Text.utf8 "\x7b\"m\":\x7b\"x\":1\x7d,\"l\":[\"d\"],\"n\":null\x7d".toList)])
    accepted (by simp)
  have printed (o : Except Failure Text) (h : o.toOption = some "?l=a&l=d&l=b&l=c&x=1\x7b&s\x7d".toList) :
      ending [].flatten o = .ok { status := 0, output := "?l=a&l=d&l=b&l=c&x=1\x7b&s\x7d\n".toList } := by
    rw [ok_of_toOption h]
    rfl
  refine ⟨_, _, _, rfl, rfl, accepted, by simp, ?_⟩
  rw [same, quiet rfl]
  exact printed _ (by decide +kernel)

/-- A name that no file can have ends the run, although there is no such file. -/
theorem run_null_name : ∃ (args : List Text) (r : Request),
    args = ["\x7ba\x7d".toList, "-t".toList, "@\x00".toList] ∧
    Command.ofArgs .current args = .ok (.expand r) ∧ r.words ≠ [] ∧
    Directory.reader [] ['\x00'] = .error .missing ∧
    (∃ f, storeOf (Directory.reader []) r = .error f) ∧
    ∀ report, run .current (Directory.reader []) args ≠ .ok report := by
  have accepted : Command.ofArgs .current ["\x7ba\x7d".toList, "-t".toList, "@\x00".toList] =
      .ok (.expand ⟨["\x7ba\x7d".toList], [], ["@\x00".toList], false, false⟩) := rfl
  have ended : run .current (Directory.reader [])
      ["\x7ba\x7d".toList, "-t".toList, "@\x00".toList] = .error .nullName := rfl
  refine ⟨_, _, rfl, accepted, by simp, rfl, ⟨_, rfl⟩, fun report reported => ?_⟩
  rw [ended] at reported
  cases reported

end Rfc6570.CommandLine
