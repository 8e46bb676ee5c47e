import DistanceField.Expr.Application
import DistanceField.Expr.Usage

/-! The functions applied in what is written are those that the expression is said to
call: the point of a call is rebuilt on the way, but no application is lost or added. -/

namespace DistanceField

theorem Expr.headsAll_append (es more : List Expr) :
    Expr.headsAll (es ++ more) = Expr.headsAll es ++ Expr.headsAll more := by
  induction es with
  | nil => rfl
  | cons first rest ih => rw [List.cons_append, Expr.headsAll, ih, Expr.headsAll, List.append_assoc]

/-- Moving a point brings in a translation, and what the location calls. -/
theorem Expr.Translated.mem_heads {location point moved : Expr}
    (translated : Expr.Translated location point moved) (head : String) :
    head ∈ moved.heads ↔ head ∈ point.heads ∨ head ∈ Expr.headsOffset (some location) := by
  induction translated with
  | raw =>
      simp only [Expr.heads, Call.heads, Expr.headsAll, Expr.headsOption, Expr.headsOffset,
        List.mem_cons, List.mem_append, List.append_nil]
      exact or_assoc.symm.trans or_comm
  | under name args inner ih =>
      simp only [Expr.heads, Call.heads, Expr.headsOption, List.mem_cons, List.mem_append, ih]
      simp only [or_assoc]

/-- A call calls its function, and what it is given. -/
theorem Call.mem_heads_iff {call : Call} {leading : List Expr} (led : call.leading = .ok leading)
    (head : String) :
    head ∈ call.heads ↔ head = call.name ∨ head ∈ Expr.headsAll (leading ++ call.args) := by
  rw [Expr.headsAll_append, List.mem_append]
  have first (point : Expr) (kind : ShapeKind) : head ∈ Expr.headsAll
      (point :: if kind = .object then [.var resultName] else []) ↔ head ∈ point.heads := by
    cases kind <;> simp [Expr.headsAll, Expr.heads]
  cases Call.given_of_leading led with
  | plain name args | combinator name args =>
      simp [Call.heads, Call.name, Call.args, Expr.headsAll]
  | @operator point name args =>
      simp only [Call.heads, Call.name, Call.args, Expr.headsAll, Expr.headsOption, List.append_nil,
        List.mem_cons, List.mem_append]
      rw [or_comm (a := head ∈ point.heads)]
  | shape name kind args =>
      rw [first]
      simp only [Call.heads, Call.name, Call.args, Expr.headsOption, Expr.headsOffset,
        List.append_nil, List.mem_cons, List.mem_append]
      simp only [or_comm]
  | placed name kind args leads translated =>
      rw [first, translated.mem_heads head]
      simp only [Call.heads, Call.name, Call.args, Expr.headsOption, List.mem_cons, List.mem_append]
      simp only [or_comm, or_left_comm]

theorem Expr.heads_resolve :
    (∀ (e : Expr) written, e.resolve = .ok written →
      ∀ head, head ∈ written.heads ↔ head ∈ e.heads) ∧
    ∀ es written, Expr.resolveAll es = .ok written →
      ∀ head, head ∈ Application.headsAll written ↔ head ∈ Expr.headsAll es := by
  refine Expr.resolve_induction ?number ?vector ?var ?call ?nil ?cons
  case number =>
    intro value written resolved head
    rw [Expr.resolve] at resolved
    cases resolved
    simp [Application.heads, Expr.heads]
  case var =>
    intro text written resolved head
    rw [Expr.resolve] at resolved
    cases resolved
    simp [Application.heads, Expr.heads]
  case vector =>
    intro components ih written resolved head
    rw [Expr.resolve] at resolved
    obtain ⟨parts, each, finish⟩ := except_bind_ok resolved
    cases finish
    exact ih parts each head
  case call =>
    intro call ih written resolved head
    rw [Expr.resolve, Call.resolve_eq] at resolved
    obtain ⟨leading, led, remaining⟩ := except_bind_ok resolved
    obtain ⟨parts, each, finish⟩ := except_bind_ok remaining
    cases finish
    rw [Expr.heads, Call.mem_heads_iff led, ← ih leading led parts each head, Application.heads,
      List.mem_cons]
  case nil =>
    intro written resolved head
    rw [Expr.resolveAll] at resolved
    cases resolved
    rfl
  case cons =>
    intro first rest one others written resolved head
    rw [Expr.resolveAll] at resolved
    obtain ⟨part, done, remaining⟩ := except_bind_ok resolved
    obtain ⟨parts, each, finish⟩ := except_bind_ok remaining
    cases finish
    rw [Application.headsAll, Expr.headsAll, List.mem_append, List.mem_append,
      one part done head, others parts each head]

theorem Expr.mem_heads_resolve (e : Expr) (resolved : e.resolve = .ok written)
    (head : String) : head ∈ written.heads ↔ head ∈ e.heads :=
  Expr.heads_resolve.1 e written resolved head

theorem Call.mem_heads_resolve (call : Call) (resolved : call.resolve = .ok written)
    (head : String) : head ∈ written.heads ↔ head ∈ call.heads := by
  have whole : (Expr.call call).resolve = .ok written := by rw [Expr.resolve, resolved]
  exact Expr.heads_resolve.1 (.call call) written whole head

end DistanceField
