import DistanceField.Recording

/-! Recipes: how the body of an object is built when it is first needed. -/

namespace DistanceField

inductive BuildStep where
  | accumulate (combinator : Handle) (args : List Expr)
  | transform (operator : Handle) (args : List Expr)
  | transformCall (call : Call)
  /-- Asks for the body of another definition, and gives up if it is refused. -/
  | requestBody (name : String)
  /-- Asks for the body of another definition, and goes on even if it is refused. -/
  | tryBody (name : String)
  | fail (error : Error)

/-- What a step does to a recording when its request, if it makes one, is met. -/
def BuildStep.record (recording : Recording) : BuildStep → Except Error Unit × Recording
  | .accumulate combinator args => recording.accumulate combinator args
  | .transform operator args => recording.transform operator args
  | .transformCall call => recording.transformCall call
  | .requestBody _ | .tryBody _ => (.ok (), recording)
  | .fail error => (.error error, recording)

/-- What a builder finds when it starts. -/
structure Surroundings where
  /-- How often it has been started, this time included. -/
  run : Nat
  /-- The parameters of its object, as expressions. -/
  placeholders : List Expr
  handle? : String → Option Handle

/-- The actions of a builder, which may differ from run to run. -/
structure Recipe where
  steps : Surroundings → List BuildStep

end DistanceField
