import DistanceField.Expr.Point

/-! Applications: expressions in which every call has its point. They are what is
written into the program. -/

namespace DistanceField

/-- A tree of applications, each with all its arguments in place. -/
inductive Application where
  | leaf (text : String)
  | vector (components : List Application)
  | apply (name : String) (args : List Application)

namespace Application

mutual

def text : Application → String
  | .leaf text => text
  | .vector components =>
      "vec" ++ Nat.repr components.length ++ "(" ++ argsText components ++ ")"
  | .apply name args => name ++ "(" ++ argsText args ++ ")"

/-- The arguments, separated by commas. -/
def argsText : List Application → String
  | [] => ""
  | first :: rest => text first ++ moreText rest

def moreText : List Application → String
  | [] => ""
  | next :: rest => ", " ++ text next ++ moreText rest

end

mutual

/-- The functions applied, one entry for each application. -/
def heads : Application → List String
  | .leaf _ => []
  | .vector components => headsAll components
  | .apply name args => name :: headsAll args

def headsAll : List Application → List String
  | [] => []
  | first :: rest => heads first ++ headsAll rest

end

end Application

mutual

/-- The application an expression stands for. It exists when every call has a point
that is led to by operators alone. -/
def Expr.resolve (e : Expr) : Except Error Application :=
  match e with
  | .number value => .ok (.leaf value.text)
  | .vector components => do return .vector (← Expr.resolveAll components)
  | .var text => .ok (.leaf text)
  | .call call => call.resolve
termination_by e.weight
decreasing_by all_goals simp [Expr.weight]

def Call.resolve (call : Call) : Except Error Application :=
  match _led : call.leading with
  | .error error => .error error
  | .ok leading => do return .apply call.name (← Expr.resolveAll (leading ++ call.args))
termination_by call.weight
decreasing_by exact Call.weight_leading _led

def Expr.resolveAll (es : List Expr) : Except Error (List Application) :=
  match es with
  | [] => .ok []
  | first :: rest => do
      let first ← first.resolve
      return first :: (← Expr.resolveAll rest)
termination_by Expr.weightAll es
decreasing_by all_goals simp only [Expr.weightAll]; omega

end

theorem Call.resolve_eq (call : Call) :
    call.resolve = (do
      let leading ← call.leading
      return .apply call.name (← Expr.resolveAll (leading ++ call.args))) := by
  rw [Call.resolve]
  split <;> simp_all [bind, Except.bind]

theorem Call.resolve_combinator (name : String) (args : List Expr) :
    (Call.combinator name args).resolve = (do return .apply name (← Expr.resolveAll args)) := by
  rw [Call.resolve_eq]
  rfl

/-- Induction along the resolution of expressions: from what a call is given to the call. -/
theorem Expr.resolve_induction {One : Expr → Prop} {Each : List Expr → Prop}
    (number : ∀ value, One (.number value))
    (vector : ∀ components, Each components → One (.vector components))
    (var : ∀ text, One (.var text))
    (call : ∀ call : Call, (∀ leading, call.leading = .ok leading → Each (leading ++ call.args)) →
      One (.call call))
    (nil : Each []) (cons : ∀ first rest, One first → Each rest → Each (first :: rest)) :
    (∀ e, One e) ∧ ∀ es, Each es := by
  have whole := Expr.resolve.mutual_induct One (fun call => One (.call call)) Each number vector var
    (fun _ resolved => resolved) ?refused ?led nil cons
  · exact ⟨whole.1, whole.2.2⟩
  case refused =>
    intro failing error refused
    refine call failing fun leading led => ?_
    cases refused.symm.trans led
  case led =>
    intro given leading led each
    refine call given fun again same => ?_
    cases led.symm.trans same
    exact each

def Expr.emit (e : Expr) : Except Error String :=
  e.resolve.map Application.text

def Call.emit (call : Call) : Except Error String :=
  call.resolve.map Application.text

/-- The text of a call that is evaluated at a point. -/
def Call.render (call : Call) (point : Expr) : Except Error String :=
  (call.transformBy point).emit

end DistanceField
