import DistanceField.Proofs.Usage
import Mathlib.Data.List.Sort

/-! Which expressions can be written out, and what is applied in the text. A call that is
evaluated at a point must have one, and only operators may lead to it; nothing else stands
in the way, and whatever does is found at one of the calls of the expression. -/

namespace DistanceField

namespace NameSet

theorem eq_of_mem_iff {a b : NameSet} (same : ∀ name, name ∈ a ↔ name ∈ b) : a = b := by
  apply NameSet.ext
  exact a.ascending.eq_of_mem_iff b.ascending same

end NameSet

/-- The functions applied in what is written for an expression are those of its usage:
every application is accounted for, and nothing else is. -/
theorem Expr.heads_eq_usage {e : Expr} (emitted : e.emit = .ok text) :
    ∃ application, e.resolve = .ok application ∧ application.text = text ∧
      NameSet.ofList application.heads = e.usage := by
  unfold Expr.emit at emitted
  cases resolved : e.resolve with
  | error error =>
      rw [resolved] at emitted
      cases emitted
  | ok application =>
      rw [resolved] at emitted
      refine ⟨application, rfl, Except.ok.inj emitted, ?_⟩
      apply NameSet.eq_of_mem_iff
      intro name
      rw [Expr.usage, NameSet.mem_ofList, NameSet.mem_ofList]
      exact e.mem_heads_resolve resolved name

/-- A ball on an arm: its location is itself computed, and its point is turned. -/
def ballOnArm : Expr :=
  .vector [.call (.combinator "Union"
    [.var "res", .call (.shape "Sphere" .primitive [.var "r"]
      (some (.vector [.var "0.0", .call (.plain "Height" [.var "r"])]))
      (some (.call (.operator "Turn" [.var "a"] (some (.var "p"))))))])]

theorem ballOnArm_heads :
    ballOnArm.emit =
        .ok "vec1(Union(res, Sphere(Turn(Translate(p, vec2(0.0, Height(r))), a), r)))" ∧
      ballOnArm.usage.names = ["Height", "Sphere", "Translate", "Turn", "Union"] ∧
      ∃ application, ballOnArm.resolve = .ok application ∧
        NameSet.ofList application.heads = ballOnArm.usage := by
  have emitted : ballOnArm.emit =
      .ok "vec1(Union(res, Sphere(Turn(Translate(p, vec2(0.0, Height(r))), a), r)))" := by
    decide +kernel
  obtain ⟨application, resolved, _, same⟩ := Expr.heads_eq_usage emitted
  exact ⟨emitted, by decide +kernel, application, resolved, same⟩

mutual

/-- The calls within an expression: in arguments, components, locations and transforms. -/
def Expr.calls : Expr → List Call
  | .number _ => []
  | .vector components => Expr.callsAll components
  | .var _ => []
  | .call call => Call.calls call

def Call.calls : Call → List Call
  | .plain name args => .plain name args :: Expr.callsAll args
  | .shape name kind args offset transform =>
      .shape name kind args offset transform ::
        (Expr.callsAll args ++ Expr.callsOption offset ++ Expr.callsOption transform)
  | .combinator name args => .combinator name args :: Expr.callsAll args
  | .operator name args transform =>
      .operator name args transform :: (Expr.callsAll args ++ Expr.callsOption transform)

def Expr.callsAll : List Expr → List Call
  | [] => []
  | first :: rest => Expr.calls first ++ Expr.callsAll rest

def Expr.callsOption : Option Expr → List Call
  | none => []
  | some e => Expr.calls e

end

/-- Functions of this category are evaluated at a point of their own. -/
def Category.takesPoint : Category → Bool
  | .primitive | .object | .operator => true
  | .combinator | .function => false

namespace Call

def transform? : Call → Option Expr
  | .plain _ _ | .combinator _ _ => none
  | .shape _ _ _ _ transform | .operator _ _ transform => transform

/-- What is wrong with a call, its parts apart. -/
inductive Fault (call : Call) : Error → Prop
  | noPoint (takes : call.category.takesPoint = true) (missing : call.transform? = none) :
      Fault call (.incomplete call.name .noPoint)
  | notOperator (inner : Call) (leads : call.transform? = some (.call inner))
      (other : inner.category ≠ .operator) :
      Fault call (.wrongCategory inner.name .operator inner.category)

end Call

theorem Call.mem_calls_self (call : Call) : call ∈ call.calls := by
  cases call <;> simp [Call.calls]

variable {call inner : Call}

theorem Expr.mem_callsOption_of_leads {transform : Option Expr}
    (leads : transform = some (.call inner)) : inner ∈ Expr.callsOption transform := by
  subst leads
  exact inner.mem_calls_self

mutual

theorem Expr.mem_calls_of_leads (e : Expr) (member : call ∈ e.calls)
    (leads : call.transform? = some (.call inner)) : inner ∈ e.calls := by
  cases e with
  | number value => cases member
  | var text => cases member
  | vector components => exact Expr.mem_callsAll_of_leads components member leads
  | call outer => exact Call.mem_calls_of_leads outer member leads

theorem Call.mem_calls_of_leads (outer : Call) (member : call ∈ outer.calls)
    (leads : call.transform? = some (.call inner)) : inner ∈ outer.calls := by
  cases outer with
  | plain name args =>
      rcases List.mem_cons.mp member with rfl | member
      · cases leads
      · exact List.mem_cons_of_mem _ (Expr.mem_callsAll_of_leads args member leads)
  | combinator name args =>
      rcases List.mem_cons.mp member with rfl | member
      · cases leads
      · exact List.mem_cons_of_mem _ (Expr.mem_callsAll_of_leads args member leads)
  | operator name args transform =>
      simp only [Call.calls, List.mem_cons, List.mem_append] at member ⊢
      rcases member with rfl | member | member
      · exact .inr (.inr (Expr.mem_callsOption_of_leads leads))
      · exact .inr (.inl (Expr.mem_callsAll_of_leads args member leads))
      · exact .inr (.inr (Expr.mem_callsOption_closed transform member leads))
  | shape name kind args offset transform =>
      simp only [Call.calls, List.mem_cons, List.mem_append] at member ⊢
      rcases member with rfl | (member | member) | member
      · exact .inr (.inr (Expr.mem_callsOption_of_leads leads))
      · exact .inr (.inl (.inl (Expr.mem_callsAll_of_leads args member leads)))
      · exact .inr (.inl (.inr (Expr.mem_callsOption_closed offset member leads)))
      · exact .inr (.inr (Expr.mem_callsOption_closed transform member leads))

theorem Expr.mem_callsAll_of_leads (es : List Expr) (member : call ∈ Expr.callsAll es)
    (leads : call.transform? = some (.call inner)) : inner ∈ Expr.callsAll es := by
  cases es with
  | nil => cases member
  | cons first rest =>
      simp only [Expr.callsAll, List.mem_append] at member ⊢
      rcases member with member | member
      · exact .inl (first.mem_calls_of_leads member leads)
      · exact .inr (Expr.mem_callsAll_of_leads rest member leads)

theorem Expr.mem_callsOption_closed (part : Option Expr) (member : call ∈ Expr.callsOption part)
    (leads : call.transform? = some (.call inner)) : inner ∈ Expr.callsOption part := by
  cases part with
  | none => cases member
  | some e => exact e.mem_calls_of_leads member leads

end

/-- One of the calls is at fault. -/
def Faulty (calls : List Call) (error : Error) : Prop :=
  ∃ call ∈ calls, call.Fault error

@[simp]
theorem faulty_nil : ¬ Faulty [] error := by
  simp [Faulty]

@[simp]
theorem faulty_cons : Faulty (call :: calls) error ↔ call.Fault error ∨ Faulty calls error := by
  simp [Faulty]

@[simp]
theorem faulty_append :
    Faulty (calls ++ others) error ↔ Faulty calls error ∨ Faulty others error := by
  simp only [Faulty, List.mem_append, or_and_right, exists_or]

/-- As a transform, the expression leads to no point. -/
def Expr.Misleads (e : Expr) (error : Error) : Prop :=
  ∃ inner, e = .call inner ∧ inner.category ≠ .operator ∧
    error = .wrongCategory inner.name .operator inner.category

theorem Call.fault_iff {call : Call} (given : call.transform? = some point) :
    call.Fault error ↔ point.Misleads error := by
  constructor
  · intro fault
    cases fault with
    | noPoint takes missing => cases given.symm.trans missing
    | notOperator inner leads other =>
        exact ⟨inner, Option.some.inj (given.symm.trans leads), other, rfl⟩
  · rintro ⟨inner, rfl, other, rfl⟩
    exact .notOperator inner given other

theorem Expr.not_misleads {e : Expr} (leads : ∀ call, e = .call call → call.category = .operator) :
    ¬ e.Misleads error := by
  rintro ⟨inner, same, other, _⟩
  exact other (leads inner same)

@[simp]
theorem Expr.not_misleads_operator :
    ¬ (Expr.call (.operator name args transform)).Misleads error := by
  apply Expr.not_misleads
  rintro _ ⟨⟩
  rfl

theorem Call.fault_operator_iff {name : String} {args : List Expr} :
    (Call.operator name args (some point)).Fault error ↔ point.Misleads error :=
  Call.fault_iff rfl

theorem Call.not_fault_of_category {call : Call} (free : call.category.takesPoint = false)
    (none : call.transform? = none) : ¬ call.Fault error := by
  intro fault
  cases fault with
  | noPoint takes missing => cases free.symm.trans takes
  | notOperator inner leading other => cases none.symm.trans leading

theorem Call.resolvedPoint_error {call : Call} (takes : call.category.takesPoint = true)
    (refused : Call.resolvedPoint call.name call.transform? = .error error) :
    call.Fault error := by
  unfold Call.resolvedPoint at refused
  split at refused
  · next missing =>
      cases refused
      exact .noPoint takes missing
  · next inner leads =>
      unfold Call.expectOperator at refused
      split at refused
      · cases refused
      · next other =>
          cases refused
          exact .notOperator inner leads other
  · cases refused

/-- The point that is to be moved may be missing below an operator. -/
theorem Expr.translateInnermost_error {point location : Expr}
    (refused : point.translateInnermost location = .error error) : Faulty point.calls error := by
  induction point using Expr.translateInnermost.induct with
  | case1 name args =>
      cases refused
      exact ⟨_, List.mem_cons_self, .noPoint rfl rfl⟩
  | case2 name args inner ih =>
      cases further : inner.translateInnermost location with
      | ok moved =>
          rw [Expr.translateInnermost, further] at refused
          cases refused
      | error other =>
          rw [Expr.translateInnermost, further] at refused
          cases refused
          simp only [Expr.calls, Call.calls, Expr.callsOption, faulty_cons, faulty_append]
          exact .inr (.inr (ih further))
  | case3 raw bare below =>
      rw [Expr.translateInnermost.eq_3 raw location bare below] at refused
      cases refused

theorem Expr.Translated.leads {location point moved : Expr}
    (translated : Expr.Translated location point moved) :
    ∀ call, moved = .call call → call.category = .operator := by
  cases translated <;>
  · rintro _ ⟨⟩
    rfl

/-- What was wrong with a point is wrong with the point that is moved, and so is what is wrong
with the location. -/
theorem Expr.Translated.faulty_iff {location point moved : Expr}
    (translated : Expr.Translated location point moved) :
    Faulty moved.calls error ↔
      (point.Misleads error ∨ Faulty point.calls error) ∨ Faulty location.calls error := by
  induction translated with
  | raw =>
      simp only [Expr.calls, Call.calls, Expr.callsAll, Expr.callsOption, faulty_cons,
        faulty_append, Call.fault_operator_iff, List.append_nil]
      tauto
  | under name args inner ih =>
      have operator : ¬ Expr.Misleads _ error := Expr.not_misleads inner.leads
      simp only [Expr.calls, Call.calls, Expr.callsOption, faulty_cons, faulty_append,
        Call.fault_operator_iff, Expr.not_misleads_operator, operator, false_or, ih]
      tauto

theorem Expr.callsAll_append (es more : List Expr) :
    Expr.callsAll (es ++ more) = Expr.callsAll es ++ Expr.callsAll more := by
  induction es with
  | nil => rfl
  | cons first rest ih => rw [List.cons_append, Expr.callsAll, ih, Expr.callsAll, List.append_assoc]

/-- What is wrong with a call is wrong with what it is given. -/
theorem Call.faulty_iff {call : Call} {leading : List Expr} (led : call.leading = .ok leading) :
    Faulty call.calls error ↔ Faulty (Expr.callsAll (leading ++ call.args)) error := by
  rw [Expr.callsAll_append, faulty_append]
  have first (point : Expr) (kind : ShapeKind) : Faulty (Expr.callsAll
      (point :: if kind = .object then [.var resultName] else [])) error ↔
      Faulty point.calls error := by
    cases kind <;> simp [Expr.callsAll, Expr.calls]
  cases Call.given_of_leading led with
  | plain name args | combinator name args =>
      rw [Call.calls, faulty_cons, or_iff_right (Call.not_fault_of_category rfl rfl)]
      simp [Expr.callsAll, Call.args]
  | @operator point name args leads =>
      have sound : ¬ point.Misleads error := Expr.not_misleads leads
      simp only [Call.calls, Call.args, Expr.callsAll, Expr.callsOption, faulty_cons, faulty_append,
        faulty_nil, Call.fault_operator_iff, sound, false_or, or_false]
      exact or_comm
  | @shape point name kind args leads =>
      have own : ¬ (Call.shape name kind args none (some point)).Fault error := by
        rw [Call.fault_iff rfl]
        exact Expr.not_misleads leads
      rw [first]
      simp only [Call.calls, Call.args, Expr.callsOption, faulty_cons, faulty_append, faulty_nil,
        own, false_or, or_false]
      exact or_comm
  | @placed point location moved name kind args leads translated =>
      have sound : ¬ point.Misleads error := Expr.not_misleads leads
      have own : ¬ (Call.shape name kind args (some location) (some point)).Fault error := by
        rw [Call.fault_iff rfl]
        exact sound
      rw [first, translated.faulty_iff]
      simp only [Call.calls, Call.args, Expr.callsOption, faulty_cons, faulty_append, own, sound,
        false_or]
      tauto

theorem Call.leading_error {call : Call} (refused : call.leading = .error error) :
    Faulty call.calls error := by
  cases call with
  | plain name args | combinator name args => cases refused
  | operator name args transform =>
      cases resolved : Call.resolvedPoint name transform with
      | ok point =>
          rw [Call.leading, resolved] at refused
          cases refused
      | error other =>
          rw [Call.leading, resolved] at refused
          cases refused
          exact ⟨_, List.mem_cons_self, Call.resolvedPoint_error rfl resolved⟩
  | shape name kind args offset transform =>
      have takes : (Call.shape name kind args offset transform).category.takesPoint = true := by
        cases kind <;> rfl
      cases resolved : Call.resolvedPoint name transform with
      | error other =>
          rw [Call.leading, resolved] at refused
          cases refused
          exact ⟨_, List.mem_cons_self, Call.resolvedPoint_error takes resolved⟩
      | ok point =>
          obtain ⟨rfl, _⟩ := Call.resolvedPoint_ok_iff.mp resolved
          rw [Call.leading, resolved] at refused
          cases offset with
          | none => cases refused
          | some location =>
              cases placed : point.translateInnermost location with
              | ok moved =>
                  simp only [placed, bind, Except.bind, Option.elim_some] at refused
                  cases refused
              | error other =>
                  simp only [placed, bind, Except.bind, Option.elim_some] at refused
                  cases refused
                  simp only [Call.calls, Expr.callsOption, faulty_cons, faulty_append]
                  exact .inr (.inr (Expr.translateInnermost_error placed))

/-- An outcome is a failure exactly if one of the calls is at fault, and the failure is
what is wrong with one of them. -/
def Explained (calls : List Call) : Except Error α → Prop
  | .ok _ => ∀ error, ¬ Faulty calls error
  | .error error => Faulty calls error

namespace Explained

theorem congr {outcome : Except Error α} (explained : Explained calls outcome)
    (same : ∀ error, Faulty others error ↔ Faulty calls error) : Explained others outcome := by
  cases outcome with
  | ok value => exact fun error fault => explained error ((same error).mp fault)
  | error error => exact (same error).mpr explained

theorem bind_pure {outcome : Except Error α} (explained : Explained calls outcome)
    (f : α → β) : Explained calls (outcome >>= fun value => pure (f value)) := by
  cases outcome with
  | ok value => exact explained
  | error error => exact explained

theorem bind {outcome : Except Error α} {next : α → Except Error β}
    (first : Explained calls outcome) (second : ∀ value, Explained others (next value)) :
    Explained (calls ++ others) (outcome >>= next) := by
  cases outcome with
  | error error => exact faulty_append.mpr (.inl first)
  | ok value =>
      refine (second value).congr fun error => ?_
      rw [faulty_append, or_iff_right (first error)]

end Explained

theorem Expr.resolve_explained :
    (∀ e : Expr, Explained e.calls e.resolve) ∧
      ∀ es, Explained (Expr.callsAll es) (Expr.resolveAll es) := by
  refine Expr.resolve_induction ?number ?vector ?var ?call ?nil ?cons
  case number =>
    intro value
    rw [Expr.resolve]
    exact fun _ => faulty_nil
  case var =>
    intro text
    rw [Expr.resolve]
    exact fun _ => faulty_nil
  case vector =>
    intro components each
    rw [Expr.resolve]
    exact each.bind_pure Application.vector
  case call =>
    intro call each
    rw [Expr.resolve, Call.resolve_eq]
    cases led : call.leading with
    | error error => exact Call.leading_error led
    | ok leading =>
        have parts := (each leading led).bind_pure (Application.apply call.name)
        exact parts.congr fun error => Call.faulty_iff led
  case nil =>
    rw [Expr.resolveAll]
    exact fun _ => faulty_nil
  case cons =>
    intro first rest one others
    rw [Expr.resolveAll]
    exact one.bind fun part => others.bind_pure fun parts => part :: parts

/-- Every call that is evaluated at a point has a transform, and a transform that is a
call is the call of an operator. -/
def Expr.Resolved (e : Expr) : Prop :=
  ∀ call ∈ e.calls,
    (call.category.takesPoint = true → ∃ transform, call.transform? = some transform) ∧
    ∀ inner, call.transform? = some (.call inner) → inner.category = .operator

theorem Expr.resolved_iff {e : Expr} : e.Resolved ↔ ∀ error, ¬ Faulty e.calls error := by
  constructor
  · rintro resolved error ⟨call, member, fault⟩
    obtain ⟨given, leads⟩ := resolved call member
    cases fault with
    | noPoint takes missing =>
        obtain ⟨transform, present⟩ := given takes
        cases missing.symm.trans present
    | notOperator inner leading other => exact other (leads inner leading)
  · intro sound call member
    constructor
    · intro takes
      apply Option.ne_none_iff_exists'.mp
      exact fun missing => sound _ ⟨call, member, .noPoint takes missing⟩
    · intro inner leading
      by_contra other
      exact sound _ ⟨call, member, .notOperator inner leading other⟩

/-- An expression can be written exactly if it is resolved. If it cannot, the error names
a call that lacks its point, or a call that is no operator and stands as a transform. -/
theorem Expr.emit_succeeds_iff (e : Expr) :
    ((∃ text, e.emit = .ok text) ↔ e.Resolved) ∧
    ∀ error, e.emit = .error error →
      (∃ call ∈ e.calls, call.category.takesPoint = true ∧ call.transform? = none ∧
        error = .incomplete call.name .noPoint) ∨
      ∃ call ∈ e.calls, call.category ≠ .operator ∧
        (∃ owner ∈ e.calls, owner.transform? = some (.call call)) ∧
        error = .wrongCategory call.name .operator call.category := by
  have explained := Expr.resolve_explained.1 e
  unfold Expr.emit
  rw [Expr.resolved_iff]
  cases resolved : e.resolve with
  | ok application =>
      rw [resolved] at explained
      exact ⟨⟨fun _ => explained, fun _ => ⟨_, rfl⟩⟩, nofun⟩
  | error error =>
      rw [resolved] at explained
      obtain ⟨call, member, fault⟩ := explained
      refine ⟨⟨nofun, fun sound => absurd ⟨call, member, fault⟩ (sound error)⟩, ?_⟩
      rintro _ ⟨⟩
      cases fault with
      | noPoint takes missing => exact .inl ⟨call, member, takes, missing, rfl⟩
      | notOperator inner leads other =>
          have within := e.mem_calls_of_leads member leads
          exact .inr ⟨inner, within, other, ⟨call, member, leads⟩, rfl⟩

end DistanceField
