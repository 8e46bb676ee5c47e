import DistanceField.Proofs.DepthFirst
import DistanceField.Proofs.Growth

/-! Requests whose outcome is known beforehand. If what each name needs is known, so is where
a walk leads; the stores that it passes through are of one kind until something fails. -/

namespace DistanceField

/-- From every store of the first kind the request has the given outcome. A success leaves a
store of that kind, a failure one of the second kind. -/
def Query.Follows (Holds Fails : Store → Prop) (query : Query α) (outcome : Except Error α) :
    Prop :=
  ∀ store, Holds store → ∃ later, query store = (outcome, later) ∧
    match outcome with
    | .ok _ => Holds later
    | .error _ => Fails later

namespace Query.Follows

variable {Holds Fails : Store → Prop}

theorem pure (value : α) : Query.Follows Holds Fails (Pure.pure value) (.ok value) :=
  fun store holds => ⟨store, rfl, holds⟩

theorem bind {query : Query α} {next : α → Query β} {after : α → Except Error β}
    (first : Query.Follows Holds Fails query outcome)
    (second : ∀ value, outcome = .ok value →
      Query.Follows Holds Fails (next value) (after value)) :
    Query.Follows Holds Fails (query >>= next) (outcome >>= after) := by
  intro store holds
  obtain ⟨middle, answer, kept⟩ := first store holds
  cases outcome with
  | error error => exact ⟨middle, Query.bind_of_error answer, kept⟩
  | ok value =>
      obtain ⟨later, onwards, last⟩ := second value rfl middle kept
      exact ⟨later, (Query.bind_of_ok answer).trans onwards, last⟩

/-- The outcome is the one that the request has with any one store. -/
theorem self {query : Query α} (follows : Query.Follows Holds Fails query outcome)
    (holds : Holds store) : Query.Follows Holds Fails query (query store).1 := by
  obtain ⟨later, answer, _⟩ := follows store holds
  rw [answer]
  exact follows

section

variable (lapse : ∀ store, Holds store → Fails store)

include lapse

theorem throw (error : Error) :
    Query.Follows Holds Fails (MonadExcept.throw error : Query α) (.error error) :=
  fun store holds => ⟨store, rfl, lapse store holds⟩

/-- That the outcome is known passes from requests to those that make them. -/
theorem closed : Query.Closed fun query => ∃ outcome, Query.Follows Holds Fails query outcome where
  pure := fun value => ⟨_, pure value⟩
  throw := fun error => ⟨_, throw lapse error⟩
  bind := by
    rintro _ _ query next ⟨outcome, first⟩ second
    choose after each using second
    exact ⟨_, first.bind fun value _ => each value⟩

theorem lift (outcome : Except Error α) :
    Query.Follows Holds Fails (liftExcept outcome) outcome := by
  cases outcome with
  | error error => exact throw lapse error
  | ok value => exact pure value

theorem visitAll {visit : String → Walk → Query Walk} {fixed : String → Walk → Except Error Walk}
    (visits : ∀ name ∈ names, ∀ walk,
      Query.Follows Holds Fails (visit name walk) (fixed name walk)) (walk : Walk) :
    Query.Follows Holds Fails (visitAll visit names walk) (visitAll fixed names walk) := by
  induction names generalizing walk with
  | nil => exact pure walk
  | cons name rest ih =>
      obtain ⟨first, others⟩ := List.forall_mem_cons.mp visits
      simp only [DistanceField.visitAll]
      split
      · exact throw lapse _
      · split
        · exact ih others walk
        · exact (first walk).bind fun later _ => ih others later

theorem visitWithin {needs : String → Query NameSet} {fixed : String → Except Error NameSet}
    (each : ∀ name, Reaches fixed root name → Query.Follows Holds Fails (needs name) (fixed name))
    (bound : Nat) (walk : Walk) (reaches : Reaches fixed root name) :
    Query.Follows Holds Fails (visitWithin needs bound name walk)
      (visitWithin fixed bound name walk) := by
  induction bound generalizing name walk with
  | zero => exact throw lapse _
  | succ bound ih =>
      refine (each name reaches).bind fun names answer => ?_
      have onwards : ∀ other ∈ names.names, ∀ walk,
          Query.Follows Holds Fails (DistanceField.visitWithin needs bound other walk)
            (DistanceField.visitWithin fixed bound other walk) :=
        fun other member walk => ih walk (reaches.tail ⟨names, answer, member⟩)
      exact (visitAll lapse onwards _).bind fun later _ => pure _

end

end Query.Follows

end DistanceField
