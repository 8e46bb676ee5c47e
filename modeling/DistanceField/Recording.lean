import DistanceField.Expr.Application
import DistanceField.Expr.Usage

/-! The statements that make up the body of an object, as a builder records them. -/

namespace DistanceField

/-- The variable that a statement assigns. -/
inductive Target where
  | point
  | result
  deriving DecidableEq, Repr

def Target.name : Target → String
  | .point => pointName
  | .result => resultName

structure Statement where
  target : Target
  value : Call

def Statement.emit (statement : Statement) : Except Error String :=
  statement.value.emit.map fun text => statement.target.name ++ " = " ++ text ++ ";"

/-- The statements so far, and the functions they call. -/
structure Recording where
  statements : List Statement
  used : NameSet

namespace Recording

def empty : Recording := ⟨[], ∅⟩

def push (recording : Recording) (target : Target) (value : Call) : Recording :=
  ⟨recording.statements ++ [⟨target, value⟩], recording.used.union value.usage⟩

/-- Combines the result so far with the given distances at the current point. -/
def accumulate (recording : Recording) (combinator : Handle) (args : List Expr) :
    Except Error Unit × Recording :=
  if combinator.category = .combinator then
    (.ok (), recording.push .result
      ((combinator.call (.var resultName :: args)).transformBy (.var pointName)))
  else (.error (.wrongCategory combinator.name .combinator combinator.category), recording)

/-- Moves the current point by an operator. -/
def transform (recording : Recording) (operator : Handle) (args : List Expr) :
    Except Error Unit × Recording :=
  if operator.category = .operator then
    (.ok (), recording.push .point ((operator.call args).transformBy (.var pointName)))
  else (.error (.wrongCategory operator.name .operator operator.category), recording)

/-- Moves the current point by an operator call made beforehand. -/
def transformCall (recording : Recording) (call : Call) : Except Error Unit × Recording :=
  if call.category = .operator then
    (.ok (), recording.push .point (call.transformBy (.var pointName)))
  else (.error (.wrongCategory call.name .operator call.category), recording)

/-- The recording that an operation has led to, if it was not refused. -/
def changed : Except Error Unit × Recording → Except Error Recording
  | (outcome, recording) => outcome.map fun _ => recording

def body (recording : Recording) : Except Error String := do
  let lines ← recording.statements.mapM Statement.emit
  return "\n".intercalate (lines ++ ["return " ++ resultName ++ ";"])

end Recording

end DistanceField
