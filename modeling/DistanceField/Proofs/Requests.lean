import DistanceField.Session

/-! Requests are put together from recordings of bodies. What holds of every recording, and
passes from requests to those that consist of them, holds of every request. -/

namespace DistanceField

/-- A property that passes from requests to a request that makes them in turn. -/
structure Query.Closed (P : {α : Type} → Query α → Prop) : Prop where
  pure : ∀ {α : Type} (value : α), P (Pure.pure value : Query α)
  throw : ∀ {α : Type} (error : Error), P (throw error : Query α)
  bind : ∀ {α β : Type} {query : Query α} {next : α → Query β},
    P query → (∀ value, P (next value)) → P (query >>= next)

/-- The property passes as well to a request that goes on when another one is refused. -/
structure Query.Tolerant (P : {α : Type} → Query α → Prop) : Prop extends Query.Closed P where
  attempt : ∀ {α : Type} {query : Query α}, P query → P query.attempt

namespace Query.Closed

variable {P : {α : Type} → Query α → Prop} (closed : Query.Closed P)

include closed

theorem lift (outcome : Except Error α) : P (liftExcept outcome : Query α) := by
  cases outcome with
  | error error => exact closed.throw error
  | ok value => exact closed.pure value

theorem lift_bind {outcome : Except Error α} {next : α → Query β}
    (each : ∀ value, outcome = .ok value → P (next value)) :
    P (liftExcept outcome >>= next) := by
  cases outcome with
  | error error => exact closed.throw error
  | ok value => exact each value rfl

theorem requestBy {known : Table Definition} {record : Definition → Recipe → Query Recording}
    (name : String) (records : ∀ d recipe, known.get? name = some d → d.body = .recipe recipe →
      P (record d recipe)) : P (requestBy known record name) := by
  unfold DistanceField.requestBy
  split
  · exact closed.throw _
  · next d found =>
      split
      · exact closed.pure ()
      · next recipe object =>
          refine closed.bind (records d recipe found object) fun recording => ?_
          exact closed.bind (closed.lift recording.body) fun _ => closed.pure ()

theorem dependenciesBy {d : Definition} {record : Recipe → Query Recording}
    (records : ∀ recipe, d.body = .recipe recipe → P (record recipe)) :
    P (d.dependenciesBy record) := by
  unfold Definition.dependenciesBy
  split
  · exact closed.pure _
  · next recipe object => exact closed.bind (records recipe object) fun _ => closed.pure _

theorem bodyTextBy {d : Definition} {record : Recipe → Query Recording}
    (records : ∀ recipe, d.body = .recipe recipe → P (record recipe)) :
    P (d.bodyTextBy record) := by
  unfold Definition.bodyTextBy
  split
  · exact closed.pure _
  · next recipe object =>
      exact closed.bind (records recipe object) fun recording => closed.lift recording.body

theorem renderBy {d : Definition} {record : Recipe → Query Recording}
    (records : ∀ recipe, d.body = .recipe recipe → P (record recipe)) :
    P (d.renderBy record) := by
  unfold Definition.renderBy
  split
  · exact closed.throw _
  · exact closed.bind (closed.bodyTextBy records) fun _ => closed.pure _

theorem visitAll {visit : String → Walk → Query Walk} (visits : ∀ name walk, P (visit name walk))
    (names : List String) (walk : Walk) : P (visitAll visit names walk) := by
  induction names generalizing walk with
  | nil => exact closed.pure walk
  | cons name rest ih =>
      simp only [DistanceField.visitAll]
      split
      · exact closed.throw _
      · split
        · exact ih walk
        · exact closed.bind (visits name walk) ih

theorem visitWithin {needs : String → Query NameSet} (each : ∀ name, P (needs name))
    (bound : Nat) (name : String) (walk : Walk) : P (visitWithin needs bound name walk) := by
  induction bound generalizing name walk with
  | zero => exact closed.throw _
  | succ bound ih =>
      refine closed.bind (each name) fun names => ?_
      exact closed.bind (closed.visitAll ih names.names _) fun _ => closed.pure _

section

variable {registry : Registry} {known : Table Definition}
  (records : ∀ name d recipe, registry.lookup name = .ok d → d.body = .recipe recipe →
    P (d.record known recipe))

include records

theorem needs (name : String) : P (registry.needs known name) :=
  closed.lift_bind fun d found => closed.dependenciesBy fun recipe => records name d recipe found

theorem orderFrom (root : String) : P (registry.orderFrom known root) :=
  closed.bind (closed.visitWithin (closed.needs records) _ root .empty) fun _ => closed.pure _

theorem renderAll (names : List String) : P (registry.renderAll known names) := by
  induction names with
  | nil => exact closed.pure []
  | cons name rest ih =>
      refine closed.lift_bind fun d found => ?_
      refine closed.bind (closed.renderBy fun recipe => records name d recipe found) fun _ => ?_
      exact closed.bind ih fun _ => closed.pure _

theorem functions (root : String) : P (registry.functions known root) :=
  closed.bind (closed.orderFrom records root) fun order =>
    closed.bind (closed.renderAll records order) fun _ => closed.pure _

theorem emit (root : String) (config : Config) (template : Template) :
    P (registry.emit known root config template) :=
  closed.bind (closed.lift _) fun _ => closed.bind (closed.lift _) fun _ =>
    closed.bind (closed.functions records root) fun _ => closed.pure _

theorem evaluateAll (names : List String) : P (registry.evaluateAll known names) := by
  induction names with
  | nil => exact closed.pure ()
  | cons name rest ih =>
      refine closed.lift_bind fun d found => ?_
      cases body : d.body with
      | template text =>
          simp only [Definition.recipe?, body]
          exact closed.bind (closed.pure ()) fun _ => ih
      | recipe recipe =>
          simp only [Definition.recipe?, body]
          have recorded : P (discard (d.record known recipe)) :=
            closed.bind (records name d recipe found body) fun _ => closed.pure ()
          exact closed.bind recorded fun _ => ih

end

end Query.Closed

namespace Query.Tolerant

variable {P : {α : Type} → Query α → Prop} (closed : Query.Tolerant P)

include closed

theorem attempt_bind {query : Query α} {next : Except Error α → Query β} (first : P query)
    (second : ∀ outcome, P (next outcome)) : P (query.attempt >>= next) :=
  closed.bind (closed.attempt first) second

variable {request : String → Query Unit} (requests : ∀ name, P (request name))

include requests

theorem perform (recording : Recording) (step : BuildStep) :
    P (step.perform request recording) := by
  cases step with
  | requestBody name | tryBody name =>
      exact closed.attempt_bind (requests name) fun _ => closed.pure _
  | accumulate combinator args => exact closed.pure _
  | transform operator args => exact closed.pure _
  | transformCall call => exact closed.pure _
  | fail error => exact closed.pure _

theorem performAll (recording : Recording) (steps : List BuildStep) :
    P (performAll request recording steps) := by
  induction steps generalizing recording with
  | nil => exact closed.pure recording
  | cons step rest ih =>
      refine closed.bind (closed.perform requests recording step) fun result => ?_
      exact closed.bind (closed.lift result.1) fun _ => ih result.2

end Query.Tolerant

end DistanceField
