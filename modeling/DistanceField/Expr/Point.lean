import DistanceField.Expr.Basic

/-! The point that a call is evaluated at. Its transform must lead there by operators alone, and
the location of a shape moves it below all of them. -/

namespace DistanceField

namespace Call

def expectOperator (call : Call) : Except Error Unit :=
  if call.category = .operator then .ok ()
  else .error (.wrongCategory call.name .operator call.category)

/-- The point that the transform of a call leads to, which only an operator can. -/
def resolvedPoint (owner : String) : Option Expr → Except Error Expr
  | none => .error (.incomplete owner .noPoint)
  | some (.call call) => do
      call.expectOperator
      return .call call
  | some point => .ok point

end Call

/-- Moves the point at the bottom of a chain of operators by a location. -/
def Expr.translateInnermost (point location : Expr) : Except Error Expr :=
  match point with
  | .call (.operator name _ none) => .error (.incomplete name .noPoint)
  | .call (.operator name args (some inner)) => do
      return .call (.operator name args (some (← inner.translateInnermost location)))
  | raw => .ok (.call (.operator translateName [location] (some raw)))
termination_by structural point

/-- What a call is given before its arguments. -/
def Call.leading : Call → Except Error (List Expr)
  | .plain _ _ | .combinator _ _ => .ok []
  | .operator name _ transform => do return [← Call.resolvedPoint name transform]
  | .shape name kind _ offset transform => do
      let point ← Call.resolvedPoint name transform
      let point ← offset.elim (.ok point) fun location => point.translateInnermost location
      return point :: if kind = .object then [.var resultName] else []

theorem except_bind_ok {first : Except ε α} {next : α → Except ε β}
    (done : (first >>= next) = .ok result) :
    ∃ value, first = .ok value ∧ next value = .ok result := by
  cases first with
  | error error => cases done
  | ok value => exact ⟨value, rfl, done⟩

/-- The second expression is the first one with the point below its operators moved. -/
inductive Expr.Translated (location : Expr) : Expr → Expr → Prop
  | raw (bottom : ∀ name args transform, raw ≠ .call (.operator name args transform)) :
      Translated location raw (.call (.operator translateName [location] (some raw)))
  | under (name : String) (args : List Expr) (inner : Translated location point moved) :
      Translated location (.call (.operator name args (some point)))
        (.call (.operator name args (some moved)))

theorem Expr.translateInnermost_ok_iff {location point moved : Expr} :
    point.translateInnermost location = .ok moved ↔ Expr.Translated location point moved := by
  induction point using Expr.translateInnermost.induct generalizing moved with
  | case1 name args =>
      constructor
      · intro translated
        cases translated
      · intro translated
        cases translated with
        | raw bottom => exact absurd rfl (bottom name args none)
  | case2 name args inner ih =>
      constructor
      · intro translated
        obtain ⟨further, done, finish⟩ := except_bind_ok translated
        cases finish
        exact .under name args (ih.mp done)
      · intro translated
        cases translated with
        | raw bottom => exact absurd rfl (bottom name args (some inner))
        | under _ _ deeper =>
            rw [Expr.translateInnermost, ih.mpr deeper]
            rfl
  | case3 raw bare below =>
      rw [Expr.translateInnermost.eq_3 raw location bare below]
      constructor
      · rintro ⟨⟩
        refine .raw fun name args transform same => ?_
        cases transform with
        | none => exact bare name args same
        | some inner => exact below name args inner same
      · intro translated
        cases translated with
        | raw => rfl
        | under name args inner => exact absurd rfl (below name args _)

theorem Call.expectOperator_ok_iff {call : Call} :
    call.expectOperator = .ok () ↔ call.category = .operator := by
  unfold Call.expectOperator
  split <;> simp_all

theorem Call.resolvedPoint_ok_iff {transform : Option Expr} :
    Call.resolvedPoint owner transform = .ok point ↔
      transform = some point ∧ ∀ call, point = .call call → call.category = .operator := by
  unfold Call.resolvedPoint
  split
  · simp
  · next call =>
      constructor
      · intro resolved
        obtain ⟨_, expected, finish⟩ := except_bind_ok resolved
        cases finish
        refine ⟨rfl, ?_⟩
        rintro _ ⟨⟩
        exact Call.expectOperator_ok_iff.mp expected
      · rintro ⟨⟨⟩, operator⟩
        rw [Call.expectOperator_ok_iff.mpr (operator call rfl)]
        rfl
  · next raw other =>
      constructor
      · rintro ⟨⟩
        exact ⟨rfl, fun call same => absurd same (other call)⟩
      · rintro ⟨⟨⟩, _⟩
        rfl

/-- A call and what it is given before its arguments. -/
inductive Call.Given : Call → List Expr → Prop
  | plain (name : String) (args : List Expr) : Given (.plain name args) []
  | combinator (name : String) (args : List Expr) : Given (.combinator name args) []
  | operator (name : String) (args : List Expr)
      (leads : ∀ call, point = .call call → call.category = .operator) :
      Given (.operator name args (some point)) [point]
  | shape (name : String) (kind : ShapeKind) (args : List Expr)
      (leads : ∀ call, point = .call call → call.category = .operator) :
      Given (.shape name kind args none (some point))
        (point :: if kind = .object then [.var resultName] else [])
  | placed (name : String) (kind : ShapeKind) (args : List Expr)
      (leads : ∀ call, point = .call call → call.category = .operator)
      (translated : Expr.Translated location point moved) :
      Given (.shape name kind args (some location) (some point))
        (moved :: if kind = .object then [.var resultName] else [])

theorem Call.given_of_leading {call : Call} {leading : List Expr}
    (led : call.leading = .ok leading) : call.Given leading := by
  cases call with
  | plain name args =>
      cases led
      exact .plain name args
  | combinator name args =>
      cases led
      exact .combinator name args
  | operator name args transform =>
      obtain ⟨point, resolved, finish⟩ := except_bind_ok led
      cases finish
      obtain ⟨rfl, leads⟩ := Call.resolvedPoint_ok_iff.mp resolved
      exact .operator name args leads
  | shape name kind args offset transform =>
      obtain ⟨point, resolved, remaining⟩ := except_bind_ok led
      obtain ⟨moved, located, finish⟩ := except_bind_ok remaining
      cases finish
      obtain ⟨rfl, leads⟩ := Call.resolvedPoint_ok_iff.mp resolved
      cases offset with
      | none =>
          cases located
          exact .shape name kind args leads
      | some location =>
          exact .placed name kind args leads (Expr.translateInnermost_ok_iff.mp located)

mutual

/-- Bounds the work that is left. A shape weighs as much more as a translation does, since its
location may become one. -/
def Expr.weight : Expr → Nat
  | .number _ | .var _ => 1
  | .vector components => 1 + Expr.weightAll components
  | .call call => 1 + Call.weight call

def Call.weight : Call → Nat
  | .plain _ args | .combinator _ args => 1 + Expr.weightAll args
  | .operator _ args transform => 2 + Expr.weightAll args + Expr.weightOption transform
  | .shape _ _ args offset transform =>
      8 + Expr.weightAll args + Expr.weightOption offset + Expr.weightOption transform

def Expr.weightAll : List Expr → Nat
  | [] => 0
  | first :: rest => 1 + Expr.weight first + Expr.weightAll rest

def Expr.weightOption : Option Expr → Nat
  | none => 0
  | some e => Expr.weight e

end

theorem Expr.weightAll_append (es more : List Expr) :
    Expr.weightAll (es ++ more) = Expr.weightAll es + Expr.weightAll more := by
  induction es with
  | nil => simp [Expr.weightAll]
  | cons first rest ih =>
      simp only [List.cons_append, Expr.weightAll, ih]
      omega

theorem Expr.Translated.weight_eq {location point moved : Expr}
    (translated : Expr.Translated location point moved) :
    moved.weight = point.weight + location.weight + 4 := by
  induction translated with
  | raw =>
      simp only [Expr.weight, Call.weight, Expr.weightOption, Expr.weightAll]
      omega
  | under name args inner ih =>
      simp only [Expr.weight, Call.weight, Expr.weightOption, ih]
      omega

/-- What a call is given, a point that has been moved included, weighs less than the call. -/
theorem Call.weight_leading {call : Call} {leading : List Expr}
    (led : call.leading = .ok leading) :
    Expr.weightAll (leading ++ call.args) < call.weight := by
  rw [Expr.weightAll_append]
  cases Call.given_of_leading led with
  | plain name args | combinator name args =>
      simp [Expr.weightAll, Call.weight, Call.args]
  | operator name args =>
      simp only [Expr.weightAll, Call.weight, Call.args, Expr.weightOption]
      omega
  | shape name kind args =>
      cases kind <;>
        simp only [Expr.weightAll, Expr.weight, Call.weight, Call.args, Expr.weightOption,
          reduceCtorEq, if_true, if_false] <;>
        omega
  | placed name kind args leads translated =>
      have heavier := translated.weight_eq
      cases kind <;>
        simp only [Expr.weightAll, Expr.weight, Call.weight, Call.args, Expr.weightOption,
          reduceCtorEq, if_true, if_false] <;>
        omega

end DistanceField
