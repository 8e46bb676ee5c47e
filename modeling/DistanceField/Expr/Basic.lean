import DistanceField.Number.Single
import DistanceField.Error

/-! Expressions and calls of shader functions. A call may still lack the point it is
evaluated at; the point is supplied by transforming the call. -/

namespace DistanceField

/-- The two kinds of distance function that are evaluated at a point. -/
inductive ShapeKind where
  | primitive
  | object
  deriving DecidableEq, Repr

def ShapeKind.category : ShapeKind → Category
  | .primitive => .primitive
  | .object => .object

mutual

inductive Expr where
  | number (value : Single)
  | vector (components : List Expr)
  /-- A variable, or any other text that is written as it stands. -/
  | var (text : String)
  | call (call : Call)

inductive Call where
  | plain (name : String) (args : List Expr)
  /-- A distance function, with the location it is placed at and the transform that
  leads to its point. -/
  | shape (name : String) (kind : ShapeKind) (args : List Expr) (offset transform : Option Expr)
  | combinator (name : String) (args : List Expr)
  | operator (name : String) (args : List Expr) (transform : Option Expr)

end

instance : Inhabited Expr := ⟨.vector []⟩

/-- The bare call of a handle, without a location or a point. -/
def Handle.call (handle : Handle) (args : List Expr) : Call :=
  match handle.category with
  | .function => .plain handle.name args
  | .primitive => .shape handle.name .primitive args none none
  | .object => .shape handle.name .object args none none
  | .combinator => .combinator handle.name args
  | .operator => .operator handle.name args none

namespace Call

def name : Call → String
  | .plain name _ | .shape name _ _ _ _ | .combinator name _ | .operator name _ _ => name

/-- The arguments given, without the point and the result. -/
def args : Call → List Expr
  | .plain _ args | .shape _ _ args _ _ | .combinator _ args | .operator _ args _ => args

def category : Call → Category
  | .plain _ _ => .function
  | .shape _ kind _ _ _ => kind.category
  | .combinator _ _ => .combinator
  | .operator _ _ _ => .operator

end Call

mutual

/-- Supplies a transform to a call; anything else is complete already. -/
def Expr.transformBy : Expr → Expr → Expr
  | .number value, _ => .number value
  | .vector components, _ => .vector components
  | .var text, _ => .var text
  | .call call, transform => .call (call.transformBy transform)
termination_by structural e => e

/-- Supplies a transform, to be applied before the one that the call has. Combinators
pass it on to their arguments. -/
def Call.transformBy : Call → Expr → Call
  | .plain name args, _ => .plain name args
  | .shape name kind args offset old, transform =>
      .shape name kind args offset (some (Expr.compose old transform))
  | .combinator name args, transform => .combinator name (Expr.transformAllBy args transform)
  | .operator name args old, transform =>
      .operator name args (some (Expr.compose old transform))
termination_by structural call => call

/-- The transform that leads through a new one before an old one, if there is one. -/
def Expr.compose : Option Expr → Expr → Expr
  | none, transform => transform
  | some old, transform => old.transformBy transform
termination_by structural old => old

def Expr.transformAllBy : List Expr → Expr → List Expr
  | [], _ => []
  | first :: rest, transform =>
      first.transformBy transform :: Expr.transformAllBy rest transform
termination_by structural es => es

end

mutual

/-- Places a call; anything else has no place. -/
def Expr.placeAt : Expr → Expr → Expr
  | .number value, _ => .number value
  | .vector components, _ => .vector components
  | .var text, _ => .var text
  | .call call, location => .call (call.placeAt location)

/-- Places every distance function of a call, instead of where it was placed before.
Operators and plain calls have no place. -/
def Call.placeAt : Call → Expr → Call
  | .plain name args, _ => .plain name args
  | .shape name kind args _ transform, location =>
      .shape name kind args (some location) transform
  | .combinator name args, location => .combinator name (Expr.placeAllAt args location)
  | .operator name args transform, _ => .operator name args transform

def Expr.placeAllAt : List Expr → Expr → List Expr
  | [], _ => []
  | first :: rest, location => first.placeAt location :: Expr.placeAllAt rest location

end

def Call.mul (first second : Call) : Call :=
  second.transformBy (.call first)

instance : Mul Call := ⟨Call.mul⟩

end DistanceField
