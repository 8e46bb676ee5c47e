import DistanceField.Expr.Basic

/-! Equality of expressions, with numbers compared by value. -/

namespace DistanceField

mutual

/-- The expressions are built alike from numbers that are numerically equal. -/
def Expr.equal : Expr → Expr → Bool
  | .number a, .number b => a.equal b
  | .vector a, .vector b => Expr.equalAll a b
  | .var a, .var b => a == b
  | .call a, .call b => Call.equal a b
  | _, _ => false
termination_by structural e => e

def Call.equal : Call → Call → Bool
  | .plain a as, .plain b bs => a == b && Expr.equalAll as bs
  | .shape a kind as offset transform, .shape b kind' bs offset' transform' =>
      a == b && kind == kind' && Expr.equalAll as bs && Expr.equalOption offset offset' &&
        Expr.equalOption transform transform'
  | .combinator a as, .combinator b bs => a == b && Expr.equalAll as bs
  | .operator a as transform, .operator b bs transform' =>
      a == b && Expr.equalAll as bs && Expr.equalOption transform transform'
  | _, _ => false
termination_by structural call => call

def Expr.equalAll : List Expr → List Expr → Bool
  | [], [] => true
  | a :: as, b :: bs => Expr.equal a b && Expr.equalAll as bs
  | _, _ => false
termination_by structural es => es

def Expr.equalOption : Option Expr → Option Expr → Bool
  | none, none => true
  | some a, some b => Expr.equal a b
  | _, _ => false
termination_by structural e => e

end

end DistanceField
