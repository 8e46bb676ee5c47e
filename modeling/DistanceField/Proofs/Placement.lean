import DistanceField.Proofs.Transform
import Mathlib.Data.List.Basic

/-! Placing is translating. A location is kept aside until a call is written, and moves the
point below all operators only then; a translation is composed with the operators right away.
For calls that are not placed and whose operators do not lead to a point yet, both come to the
same application. -/

namespace DistanceField

/-- Operators, or none at all, that lead to no point yet. -/
inductive OpenChain : Option Expr → Prop
  | nil : OpenChain none
  | cons (name : String) (args : List Expr) (rest : OpenChain transform) :
      OpenChain (some (.call (.operator name args transform)))

/-- The distance functions that a call combines are not placed, and there is no point yet
that they are evaluated at. Operators are nothing that can be combined. -/
inductive Call.Placeable : Call → Prop
  | plain (name : String) (args : List Expr) : Placeable (.plain name args)
  | shape (name : String) (kind : ShapeKind) (args : List Expr) (chain : OpenChain transform) :
      Placeable (.shape name kind args none transform)
  | combinator (name : String) (args : List Expr)
      (parts : ∀ call, .call call ∈ args → Placeable call) : Placeable (.combinator name args)

/-- The operator that moves points by a location. -/
def Call.translation (location : Expr) : Call :=
  .operator translateName [location] none

theorem OpenChain.resolvedPoint_eq (chain : OpenChain transform) (owner : String)
    (leads : ∀ call, point = .call call → call.category = .operator) :
    Call.resolvedPoint owner (some (Expr.compose transform point)) =
      .ok (Expr.compose transform point) := by
  refine Call.resolvedPoint_ok_iff.mpr ⟨rfl, ?_⟩
  cases chain with
  | nil => exact leads
  | cons name args rest =>
      rintro _ ⟨⟩
      rfl

/-- Below the operators, moving the point is translating it. -/
theorem OpenChain.translated (chain : OpenChain transform) (location point : Expr)
    (still : ∀ call, point ≠ .call call) :
    Expr.Translated location (Expr.compose transform point)
      (Expr.compose transform (.call ((Call.translation location).transformBy point))) := by
  induction chain with
  | nil => exact .raw fun name args transform => still (.operator name args transform)
  | cons name args rest ih => exact .under name args ih

/-- A shape that is placed is given what its translation is given. -/
theorem OpenChain.leading_placed (chain : OpenChain transform) (location point : Expr)
    (still : ∀ call, point ≠ .call call) :
    (Call.shape name kind args (some location) (some (Expr.compose transform point))).leading =
      (Call.shape name kind args none (some (Expr.compose transform
        (.call ((Call.translation location).transformBy point))))).leading := by
  have operator : ∀ call, Expr.call ((Call.translation location).transformBy point) =
      .call call → call.category = .operator := by
    rintro _ ⟨⟩
    rfl
  have plain := chain.resolvedPoint_eq name fun call same => absurd same (still call)
  have moved := chain.resolvedPoint_eq name operator
  have translated := Expr.translateInnermost_ok_iff.mpr (chain.translated location point still)
  simp only [Call.leading, plain, moved, bind, Except.bind, Option.elim_some, Option.elim_none,
    translated]

/-- The parts of a combinator come to the same applications if its calls do. -/
theorem Expr.resolveAll_placeAllAt (args : List Expr) (location point : Expr)
    (parts : ∀ call, .call call ∈ args →
      ((call.placeAt location).transformBy point).resolve =
        ((Call.translation location * call).transformBy point).resolve) :
    Expr.resolveAll (Expr.transformAllBy (Expr.placeAllAt args location) point) =
      Expr.resolveAll (Expr.transformAllBy
        (Expr.transformAllBy args (.call (Call.translation location))) point) := by
  induction args with
  | nil => rfl
  | cons first rest ih =>
      have others := ih fun call member => parts call (List.mem_cons_of_mem first member)
      simp only [Expr.placeAllAt, Expr.transformAllBy, Expr.resolveAll, others]
      cases first with
      | number value => rfl
      | vector components => rfl
      | var text => rfl
      | call call =>
          have same := parts call List.mem_cons_self
          rw [Call.mul_eq] at same
          simp only [Expr.placeAt, Expr.transformBy, Expr.resolve, same]

theorem Call.Placeable.resolve_placeAt (placeable : Call.Placeable call) (location point : Expr)
    (still : ∀ inner, point ≠ .call inner) :
    ((call.placeAt location).transformBy point).resolve =
      ((Call.translation location * call).transformBy point).resolve := by
  induction placeable with
  | plain name args => rfl
  | shape name kind args chain =>
      rw [Call.mul_eq, Call.transformBy_transformBy, Call.resolve_eq, Call.resolve_eq]
      simp only [Call.placeAt, Call.transformBy, Expr.transformBy]
      rw [chain.leading_placed location point still]
      rfl
  | combinator name args parts ih =>
      have same := Expr.resolveAll_placeAllAt args location point ih
      simp only [Call.mul_eq, Call.placeAt, Call.transformBy, Call.resolve_combinator, same]

/-- A call that is placed at a location is written at a point as its translation by the
location is, and fails to be written as that does. -/
theorem Call.render_placeAt {call : Call} (placeable : call.Placeable) (location point : Expr)
    (still : ∀ inner, point ≠ .call inner) :
    (call.placeAt location).render point = (Call.translation location * call).render point := by
  unfold Call.render Call.emit
  rw [placeable.resolve_placeAt location point still]

/-- A wheel that is bent and turned, joined with a blended ball. -/
def wheelAndBall : Call :=
  .combinator "Union"
    [.call (.shape "Wheel" .object [.var "r"] none (some (.call (.operator "Turn" [.var "a"]
        (some (.call (.operator "Bend" [] none))))))),
      .call (.combinator "Blend"
        [.call (.shape "Ball" .primitive [.var "r"] none none), .call (.plain "Noise" []),
          .var "k"])]

theorem wheelAndBall_placeable : wheelAndBall.Placeable := by
  refine .combinator _ _ fun call member => ?_
  simp only [List.mem_cons, Expr.call.injEq, List.not_mem_nil, or_false] at member
  rcases member with rfl | rfl
  · exact .shape _ _ _ (.cons _ _ (.cons _ _ .nil))
  · refine .combinator _ _ fun call member => ?_
    simp only [List.mem_cons, Expr.call.injEq, reduceCtorEq, List.not_mem_nil, or_false] at member
    rcases member with rfl | rfl
    · exact .shape _ _ _ .nil
    · exact .plain _ _

/-- At a location that lacks a point itself, neither can be written. -/
theorem wheelAndBall_placed :
    wheelAndBall.Placeable ∧
    (wheelAndBall.placeAt (.var "l")).render (.var "p") =
      .ok ("Union(Wheel(Turn(Bend(Translate(p, l)), a), res, r), " ++
        "Blend(Ball(Translate(p, l), r), Noise(), k))") ∧
    (Call.translation (.var "l") * wheelAndBall).render (.var "p") =
      (wheelAndBall.placeAt (.var "l")).render (.var "p") ∧
    (Call.translation (.call (Call.translation (.var "l"))) * wheelAndBall).render (.var "p") =
      .error (.incomplete "Translate" .noPoint) := by
  have still : ∀ inner, Expr.var "p" ≠ .call inner := nofun
  have written := Call.render_placeAt wheelAndBall_placeable (.var "l") _ still
  have refused := Call.render_placeAt wheelAndBall_placeable
    (.call (Call.translation (.var "l"))) _ still
  exact ⟨wheelAndBall_placeable, by decide +kernel, written.symm,
    refused.symm.trans (by decide +kernel)⟩

end DistanceField
