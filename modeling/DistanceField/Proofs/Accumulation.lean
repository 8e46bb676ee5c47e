import DistanceField.Proofs.Growth
import DistanceField.Session

/-! What a builder has recorded after any operations, those that failed included. An operation
hands over a call; it is refused exactly if the function is of the wrong category, and otherwise
recorded at the current point. -/

namespace DistanceField

theorem Handle.category_call (handle : Handle) (args : List Expr) :
    (handle.call args).category = handle.category := by
  obtain ⟨name, category⟩ := handle
  cases category <;> rfl

theorem Expr.transformAllBy_eq_map (args : List Expr) (transform : Expr) :
    Expr.transformAllBy args transform = args.map (·.transformBy transform) := by
  induction args with
  | nil => rfl
  | cons first rest ih => rw [Expr.transformAllBy, ih, List.map_cons]

theorem Call.eq_operator {call : Call} (operator : call.category = .operator) :
    ∃ name args transform, call = .operator name args transform := by
  cases call with
  | plain name args => cases operator
  | shape name kind args offset transform => cases kind <;> cases operator
  | combinator name args => cases operator
  | operator name args transform => exact ⟨name, args, transform, rfl⟩

/-- What can be done with a recording. -/
inductive Operation where
  | accumulate (combinator : Handle) (args : List Expr)
  | transform (operator : Handle) (args : List Expr)
  | transformCall (call : Call)

namespace Operation

def attempt (recording : Recording) : Operation → Except Error Unit × Recording
  | .accumulate combinator args => recording.accumulate combinator args
  | .transform operator args => recording.transform operator args
  | .transformCall call => recording.transformCall call

/-- The function that is to be called. -/
def handle : Operation → Handle
  | .accumulate combinator _ => combinator
  | .transform operator _ => operator
  | .transformCall call => ⟨call.name, call.category⟩

/-- The call that is handed over, before it is given its point. -/
def given : Operation → Call
  | .accumulate combinator args => combinator.call (.var resultName :: args)
  | .transform operator args => operator.call args
  | .transformCall call => call

def target : Operation → Target
  | .accumulate _ _ => .result
  | .transform _ _ | .transformCall _ => .point

/-- The category that the function must have. -/
def expected : Operation → Category
  | .accumulate _ _ => .combinator
  | .transform _ _ | .transformCall _ => .operator

/-- The statement that is recorded, if the operation succeeds. -/
def statement? (operation : Operation) : Option Statement :=
  if operation.handle.category = operation.expected then
    some ⟨operation.target, operation.given.transformBy (.var pointName)⟩
  else none

variable {operation : Operation} {recording later : Recording} {statement : Statement}

theorem category_given (operation : Operation) :
    operation.given.category = operation.handle.category := by
  cases operation with
  | accumulate combinator args => exact combinator.category_call _
  | transform operator args => exact operator.category_call args
  | transformCall call => rfl

/-- All operations do the same with the call that they hand over. -/
theorem attempt_eq (operation : Operation) (recording : Recording) :
    operation.attempt recording =
      if operation.handle.category = operation.expected then
        (.ok (), recording.push operation.target (operation.given.transformBy (.var pointName)))
      else (.error (.wrongCategory operation.handle.name operation.expected
        operation.handle.category), recording) := by
  cases operation <;> rfl

theorem attempt_ok_iff :
    operation.attempt recording = (.ok (), later) ↔
      ∃ statement, operation.statement? = some statement ∧
        later = recording.push statement.target statement.value := by
  rw [attempt_eq, statement?]
  split <;> simp [eq_comm]

theorem attempt_error_iff {error : Error} :
    (operation.attempt recording).1 = .error error ↔
      operation.handle.category ≠ operation.expected ∧
        error = .wrongCategory operation.handle.name operation.expected
          operation.handle.category := by
  rw [attempt_eq]
  split
  · next right => simp [right]
  · next wrong => simp [wrong, eq_comm]

theorem attempt_refused {error : Error} (refused : (operation.attempt recording).1 = .error error) :
    (operation.attempt recording).2 = recording := by
  rw [attempt_eq, if_neg (attempt_error_iff.mp refused).1]

theorem result_of_statement? (stated : operation.statement? = some statement)
    (result : statement.target = .result) :
    ∃ name args, operation = .accumulate ⟨name, .combinator⟩ args ∧
      statement.value =
        .combinator name (.var resultName :: args.map (·.transformBy (.var pointName))) := by
  unfold statement? at stated
  split at stated
  · next right =>
      cases stated
      cases operation with
      | accumulate combinator args =>
          obtain ⟨name, category⟩ := combinator
          cases right
          refine ⟨name, args, rfl, ?_⟩
          rw [← Expr.transformAllBy_eq_map]
          rfl
      | transform operator args => cases result
      | transformCall call => cases result
  · cases stated

theorem point_of_statement? (stated : operation.statement? = some statement)
    (point : statement.target = .point) :
    ∃ name args old, operation.given = .operator name args old ∧
      ((∃ operator given, operation = .transform operator given) ∨
        operation = .transformCall operation.given) ∧
      statement.value = operation.given.transformBy (.var pointName) ∧
      ∃ transform, statement.value = .operator name args (some transform) := by
  unfold statement? at stated
  split at stated
  · next right =>
      cases stated
      have moves : operation.expected = .operator ∧
          ((∃ operator given, operation = .transform operator given) ∨
            operation = .transformCall operation.given) := by
        cases operation with
        | accumulate combinator args => cases point
        | transform operator args => exact ⟨rfl, .inl ⟨operator, args, rfl⟩⟩
        | transformCall call => exact ⟨rfl, .inr rfl⟩
      obtain ⟨name, args, old, same⟩ :=
        Call.eq_operator ((operation.category_given.trans right).trans moves.1)
      refine ⟨name, args, old, same, moves.2, rfl, Expr.compose old (.var pointName), ?_⟩
      rw [same]
      rfl
  · cases stated

end Operation

namespace Recording

def next (recording : Recording) (operation : Operation) : Recording :=
  (operation.attempt recording).2

def after (recording : Recording) (operations : List Operation) : Recording :=
  operations.foldl next recording

theorem after_cons (recording : Recording) (operation : Operation) (rest : List Operation) :
    recording.after (operation :: rest) = (recording.next operation).after rest :=
  rfl

theorem next_cases (recording : Recording) (operation : Operation) :
    (operation.statement? = none ∧ recording.next operation = recording) ∨
      ∃ statement, operation.statement? = some statement ∧
        recording.next operation = recording.push statement.target statement.value := by
  unfold next
  rcases attempted : operation.attempt recording with ⟨error | _, later⟩
  · have refused := congrArg Prod.fst attempted
    obtain ⟨wrong, _⟩ := Operation.attempt_error_iff.mp refused
    have same := Operation.attempt_refused refused
    rw [attempted] at same
    exact .inl ⟨if_neg wrong, same⟩
  · exact .inr (Operation.attempt_ok_iff.mp attempted)

/-- What comes of the operations, one after the other. -/
def outcomes (recording : Recording) : List Operation → List (Except Error Recording)
  | [] => []
  | operation :: rest =>
      changed (operation.attempt recording) :: (recording.next operation).outcomes rest

theorem Sound.next (sound : Recording.Sound recording) (operation : Operation) :
    (recording.next operation).Sound := by
  rcases recording.next_cases operation with ⟨_, same⟩ | ⟨statement, _, pushed⟩
  · rwa [same]
  · rw [pushed]
    exact sound.push statement.target statement.value

theorem Sound.after (sound : Recording.Sound recording) (operations : List Operation) :
    (recording.after operations).Sound := by
  induction operations generalizing recording with
  | nil => exact sound
  | cons operation rest ih => exact ih (sound.next operation)

/-- Every operation that succeeds adds its statement at the end. -/
theorem statements_after (recording : Recording) (operations : List Operation) :
    (recording.after operations).statements =
      recording.statements ++ operations.filterMap Operation.statement? := by
  induction operations generalizing recording with
  | nil => exact (List.append_nil _).symm
  | cons operation rest ih =>
      rw [after_cons, ih]
      rcases recording.next_cases operation with ⟨refused, same⟩ | ⟨statement, stated, pushed⟩
      · rw [same, List.filterMap_cons_none refused]
      · rw [pushed, List.filterMap_cons_some stated, push, List.append_assoc,
          List.singleton_append]

/-- After any operations, the functions noted are those that the statements call; there is one
statement for each operation that succeeded, in order; the result is combined with the given
distances at the current point, and the point moved by the given operator call at the current
point; and an operation fails exactly if its function is of the wrong category, without a
trace. -/
theorem accumulation_invariant (operations : List Operation) :
    let recording := Recording.empty.after operations
    (∀ name, name ∈ recording.used ↔
      ∃ statement ∈ recording.statements, name ∈ statement.value.usage) ∧
    recording.statements = operations.filterMap Operation.statement? ∧
    (∀ statement ∈ recording.statements, statement.target = .result →
      ∃ name args, .accumulate ⟨name, .combinator⟩ args ∈ operations ∧
        statement.value =
          .combinator name (.var resultName :: args.map (·.transformBy (.var pointName)))) ∧
    (∀ statement ∈ recording.statements, statement.target = .point →
      ∃ call name args old, call = .operator name args old ∧
        ((∃ operator given, .transform operator given ∈ operations ∧
          call = operator.call given) ∨ .transformCall call ∈ operations) ∧
        statement.value = call.transformBy (.var pointName) ∧
        ∃ transform, statement.value = .operator name args (some transform)) ∧
    ∀ operation : Operation,
      (∀ later, operation.attempt recording = (.ok (), later) →
        ∃ statement, operation.statement? = some statement ∧
          later.statements = recording.statements ++ [statement]) ∧
      (∀ error, (operation.attempt recording).1 = .error error ↔
        operation.handle.category ≠ operation.expected ∧
          error = .wrongCategory operation.handle.name operation.expected
            operation.handle.category) ∧
      ∀ error, (operation.attempt recording).1 = .error error →
        (operation.attempt recording).2 = recording := by
  intro recording
  have statements : recording.statements = operations.filterMap Operation.statement? :=
    statements_after .empty operations
  have stated : ∀ statement ∈ recording.statements,
      ∃ operation ∈ operations, operation.statement? = some statement := by
    intro statement member
    rw [statements] at member
    exact List.mem_filterMap.mp member
  refine ⟨empty_sound.after operations, statements, ?_, ?_, fun operation => ⟨?_, ?_, ?_⟩⟩
  · intro statement member result
    obtain ⟨operation, performed, records⟩ := stated statement member
    obtain ⟨name, args, rfl, value⟩ := Operation.result_of_statement? records result
    exact ⟨name, args, performed, value⟩
  · intro statement member point
    obtain ⟨operation, performed, records⟩ := stated statement member
    obtain ⟨name, args, old, same, made, value, carries⟩ :=
      Operation.point_of_statement? records point
    refine ⟨operation.given, name, args, old, same, ?_, value, carries⟩
    rcases made with ⟨operator, given, rfl⟩ | made
    · exact .inl ⟨operator, given, performed, rfl⟩
    · exact .inr (made ▸ performed)
  · intro later done
    obtain ⟨statement, records, rfl⟩ := Operation.attempt_ok_iff.mp done
    exact ⟨statement, records, rfl⟩
  · exact fun error => Operation.attempt_error_iff
  · exact fun error => Operation.attempt_refused

/-- Two of four operations are refused: an operator cannot combine, and a shape cannot move. -/
theorem mirroredBall_recorded :
    let ball : Expr := .call (.shape "Ball" .primitive [] (some (.var "l")) none)
    let recording := Recording.empty.after
      [.accumulate ⟨"Mirror", .operator⟩ [ball], .transform ⟨"Mirror", .operator⟩ [],
        .transformCall (.shape "Ball" .primitive [] none none),
        .accumulate ⟨"Union", .combinator⟩ [ball]]
    recording.used.names = ["Ball", "Mirror", "Translate", "Union"] ∧
    recording.statements =
      [⟨.point, .operator "Mirror" [] (some (.var "p"))⟩,
        ⟨.result, .combinator "Union" [.var "res",
          .call (.shape "Ball" .primitive [] (some (.var "l")) (some (.var "p")))]⟩] := by
  intro ball recording
  obtain ⟨_, statements, _⟩ := accumulation_invariant
    [.accumulate ⟨"Mirror", .operator⟩ [ball], .transform ⟨"Mirror", .operator⟩ [],
      .transformCall (.shape "Ball" .primitive [] none none),
      .accumulate ⟨"Union", .combinator⟩ [ball]]
  exact ⟨by decide +kernel, statements⟩

end Recording

/-- The step of a builder that performs the operation. -/
def Operation.toStep : Operation → BuildStep
  | .accumulate combinator args => .accumulate combinator args
  | .transform operator args => .transform operator args
  | .transformCall call => .transformCall call

theorem Operation.perform_toStep (operation : Operation) (request : String → Query Unit)
    (recording : Recording) (store : Store) :
    operation.toStep.perform request recording store =
      (.ok (operation.attempt recording), store) := by
  cases operation <;> rfl

/-- A script whose lines are such operations is rehearsed as they are performed, failures
included. -/
theorem Session.rehearse_operations (session : Session) (recording : Recording)
    {script : Script} {operations : List Operation}
    (resolved : script.map (fun line => line.action.toStep ⟨session.handle?, []⟩) =
      operations.map Operation.toStep) (store : Store) :
    session.rehearse recording script store =
      (.ok (recording.outcomes operations, recording.after operations), store) := by
  induction operations generalizing script recording with
  | nil =>
      obtain rfl := List.map_eq_nil_iff.mp resolved
      rfl
  | cons operation rest ih =>
      cases script with
      | nil => cases resolved
      | cons line lines =>
          obtain ⟨first, others⟩ := List.cons.inj resolved
          simp only [Session.rehearse, first]
          rw [Query.bind_of_ok (operation.perform_toStep _ recording store),
            Query.bind_of_ok (ih _ others)]
          rfl

end DistanceField
