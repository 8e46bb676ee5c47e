import DistanceField.Expr.Basic
import DistanceField.NameSet

/-! The functions that an expression calls. -/

namespace DistanceField

mutual

/-- The functions called, one entry for each call. A call that is placed also calls
the operator that will move its point. -/
def Expr.heads : Expr → List String
  | .number _ => []
  | .vector components => Expr.headsAll components
  | .var _ => []
  | .call call => Call.heads call

def Call.heads : Call → List String
  | .plain name args => name :: Expr.headsAll args
  | .shape name _ args offset transform =>
      name :: (Expr.headsAll args ++ Expr.headsOffset offset ++ Expr.headsOption transform)
  | .combinator name args => name :: Expr.headsAll args
  | .operator name args transform => name :: (Expr.headsAll args ++ Expr.headsOption transform)

def Expr.headsAll : List Expr → List String
  | [] => []
  | first :: rest => Expr.heads first ++ Expr.headsAll rest

def Expr.headsOption : Option Expr → List String
  | none => []
  | some e => Expr.heads e

def Expr.headsOffset : Option Expr → List String
  | none => []
  | some location => translateName :: Expr.heads location

end

def Expr.usage (e : Expr) : NameSet :=
  .ofList e.heads

def Call.usage (call : Call) : NameSet :=
  .ofList call.heads

end DistanceField
