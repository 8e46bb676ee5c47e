import DistanceField.Expr.Application

/-! Transforming is an action: two transforms in turn are one composed transform, for
every kind of call and however deeply calls are nested in transforms and arguments. -/

namespace DistanceField

mutual

theorem Expr.transformBy_transformBy (e first second : Expr) :
    (e.transformBy first).transformBy second = e.transformBy (first.transformBy second) := by
  cases e with
  | number value => rfl
  | vector components => rfl
  | var text => rfl
  | call call => exact congrArg Expr.call (call.transformBy_transformBy first second)

theorem Call.transformBy_transformBy (call : Call) (first second : Expr) :
    (call.transformBy first).transformBy second =
      call.transformBy (first.transformBy second) := by
  cases call with
  | plain name args => rfl
  | shape name kind args offset old =>
      have composed := Expr.compose_transformBy old first second
      exact congrArg (fun e => Call.shape name kind args offset (some e)) composed
  | combinator name args =>
      have distributed := Expr.transformAllBy_transformAllBy args first second
      exact congrArg (Call.combinator name) distributed
  | operator name args old =>
      have composed := Expr.compose_transformBy old first second
      exact congrArg (fun e => Call.operator name args (some e)) composed

theorem Expr.compose_transformBy (old : Option Expr) (first second : Expr) :
    (Expr.compose old first).transformBy second =
      Expr.compose old (first.transformBy second) := by
  cases old with
  | none => rfl
  | some old => exact old.transformBy_transformBy first second

theorem Expr.transformAllBy_transformAllBy (args : List Expr) (first second : Expr) :
    Expr.transformAllBy (Expr.transformAllBy args first) second =
      Expr.transformAllBy args (first.transformBy second) := by
  cases args with
  | nil => rfl
  | cons arg rest =>
      simp only [Expr.transformAllBy]
      rw [arg.transformBy_transformBy first second,
        Expr.transformAllBy_transformAllBy rest first second]

end

theorem Call.mul_eq (first second : Call) :
    first * second = second.transformBy (.call first) :=
  rfl

/-- The transform that is supplied last comes closest to the point. Products of calls
may therefore be bracketed in any way, and a transform may be carried out on the point
beforehand. -/
theorem transform_composition :
    (∀ (call : Call) (first second : Expr),
      (call.transformBy first).transformBy second =
        call.transformBy (first.transformBy second)) ∧
    (∀ first second third : Call, first * second * third = first * (second * third)) ∧
    ∀ (call : Call) (transform point : Expr),
      (call.transformBy transform).render point =
        call.render (transform.transformBy point) := by
  refine ⟨Call.transformBy_transformBy, ?_, ?_⟩
  · intro first second third
    simp only [Call.mul_eq]
    rw [third.transformBy_transformBy]
    rfl
  · intro call transform point
    unfold Call.render
    rw [call.transformBy_transformBy]

end DistanceField
