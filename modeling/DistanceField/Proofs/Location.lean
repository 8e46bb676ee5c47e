import DistanceField.Proofs.Transform

/-! Laws of placing. The location given last is the only one that counts, placing and
transforming can be done in either order, and a call that has its point keeps it. All of this
holds of the calls themselves, at any depth below combinators, before anything is written. -/

namespace DistanceField

mutual

theorem Expr.placeAt_placeAt (e first last : Expr) :
    (e.placeAt first).placeAt last = e.placeAt last := by
  cases e with
  | number value => rfl
  | vector components => rfl
  | var text => rfl
  | call call => exact congrArg Expr.call (call.placeAt_placeAt first last)

theorem Call.placeAt_placeAt (call : Call) (first last : Expr) :
    (call.placeAt first).placeAt last = call.placeAt last := by
  cases call with
  | plain name args => rfl
  | shape name kind args offset transform => rfl
  | combinator name args =>
      have parts := Expr.placeAllAt_placeAllAt args first last
      exact congrArg (Call.combinator name) parts
  | operator name args transform => rfl

theorem Expr.placeAllAt_placeAllAt (args : List Expr) (first last : Expr) :
    Expr.placeAllAt (Expr.placeAllAt args first) last = Expr.placeAllAt args last := by
  cases args with
  | nil => rfl
  | cons arg rest =>
      simp only [Expr.placeAllAt]
      rw [arg.placeAt_placeAt first last, Expr.placeAllAt_placeAllAt rest first last]

end

mutual

theorem Expr.placeAt_transformBy (e location transform : Expr) :
    (e.placeAt location).transformBy transform = (e.transformBy transform).placeAt location := by
  cases e with
  | number value => rfl
  | vector components => rfl
  | var text => rfl
  | call call => exact congrArg Expr.call (call.placeAt_transformBy location transform)

theorem Call.placeAt_transformBy (call : Call) (location transform : Expr) :
    (call.placeAt location).transformBy transform =
      (call.transformBy transform).placeAt location := by
  cases call with
  | plain name args => rfl
  | shape name kind args offset old => rfl
  | combinator name args =>
      have parts := Expr.placeAllAt_transformAllBy args location transform
      exact congrArg (Call.combinator name) parts
  | operator name args old => rfl

theorem Expr.placeAllAt_transformAllBy (args : List Expr) (location transform : Expr) :
    Expr.transformAllBy (Expr.placeAllAt args location) transform =
      Expr.placeAllAt (Expr.transformAllBy args transform) location := by
  cases args with
  | nil => rfl
  | cons arg rest =>
      simp only [Expr.placeAllAt, Expr.transformAllBy]
      rw [arg.placeAt_transformBy location transform,
        Expr.placeAllAt_transformAllBy rest location transform]

end

/-- Only calls take a transform. -/
theorem Expr.transformBy_of_still {e : Expr} (still : ∀ call, e ≠ .call call) (transform : Expr) :
    e.transformBy transform = e := by
  cases e with
  | number value => rfl
  | vector components => rfl
  | var text => rfl
  | call call => exact absurd rfl (still call)

/-- A call placed twice is where it was placed last, it can be placed before it is transformed or
after, and once it has been given a point that is no call, later transforms change nothing. -/
theorem Call.placing_laws (call : Call) :
    (∀ first last : Expr, (call.placeAt first).placeAt last = call.placeAt last) ∧
    (∀ location transform : Expr,
      (call.placeAt location).transformBy transform =
        (call.transformBy transform).placeAt location) ∧
    ∀ point transform : Expr, (∀ inner, point ≠ .call inner) →
      (call.transformBy point).transformBy transform = call.transformBy point := by
  refine ⟨call.placeAt_placeAt, call.placeAt_transformBy, fun point transform still => ?_⟩
  rw [call.transformBy_transformBy, Expr.transformBy_of_still still]

/-- A turned ball beside a ring that has its point, under two combinators. -/
def ballAndRing : Call :=
  .combinator "Union"
    [.call (.combinator "Blend"
        [.call (.shape "Ball" .primitive [.var "r"] (some (.var "l"))
          (some (.call (.operator "Turn" [] none)))), .var "k"]),
      .call (.shape "Ring" .object [] none (some (.var "p")))]

theorem ballAndRing_laws :
    (ballAndRing.placeAt (.var "a")).placeAt (.var "b") =
      .combinator "Union"
        [.call (.combinator "Blend"
            [.call (.shape "Ball" .primitive [.var "r"] (some (.var "b"))
              (some (.call (.operator "Turn" [] none)))), .var "k"]),
          .call (.shape "Ring" .object [] (some (.var "b")) (some (.var "p")))] ∧
    (ballAndRing.transformBy (.var "q")).transformBy (.call (.operator "Bend" [] none)) =
      .combinator "Union"
        [.call (.combinator "Blend"
            [.call (.shape "Ball" .primitive [.var "r"] (some (.var "l"))
              (some (.call (.operator "Turn" [] (some (.var "q")))))), .var "k"]),
          .call (.shape "Ring" .object [] none (some (.var "p")))] := by
  obtain ⟨last, _, resolved⟩ := ballAndRing.placing_laws
  exact ⟨last (.var "a") (.var "b"), resolved (.var "q") _ nofun⟩

end DistanceField
