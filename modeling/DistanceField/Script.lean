import DistanceField.Definition

/-! Scripts: recipes written down as data. The names in a script are looked up when
its builder runs. -/

namespace DistanceField

/-- The function that a drafted call refers to. -/
inductive Callee where
  /-- Whatever is known under the name. -/
  | named (name : String)
  /-- A function of its own, of the given name and category. -/
  | loose (name : String) (category : Category)
  deriving DecidableEq, Repr

mutual

/-- An expression whose names have not been looked up. -/
inductive Draft where
  | number (value : Single)
  | vector (components : List Draft)
  | var (text : String)
  /-- A parameter of the object, by its position. -/
  | placeholder (index : Nat)
  | call (call : DraftCall)

/-- A call whose names have not been looked up, and what is done to it in turn. -/
inductive DraftCall where
  | apply (callee : Callee) (args : List Draft) (changes : List Change)
  | product (first : DraftCall) (rest : List DraftCall) (changes : List Change)

inductive Change where
  | place (location : Draft)
  | transform (transform : Draft)

end

/-- What the names and placeholders of a draft stand for. -/
structure Scope where
  handle? : String → Option Handle
  placeholders : List Expr

def Callee.resolve (scope : Scope) : Callee → Except Error Handle
  | .named name =>
      match scope.handle? name with
      | some handle => .ok handle
      | none => .error (.unknownName name)
  | .loose name category => do
      checkIdentifier name
      return ⟨name, category⟩

mutual

def Draft.resolve (scope : Scope) : Draft → Except Error Expr
  | .number value => .ok (.number value)
  | .vector components => do return .vector (← Draft.resolveAll scope components)
  | .var text => .ok (.var text)
  | .placeholder index => .ok (scope.placeholders.getD index default)
  | .call call => do return .call (← DraftCall.resolve scope call)

def Draft.resolveAll (scope : Scope) : List Draft → Except Error (List Expr)
  | [] => .ok []
  | first :: rest => do
      let first ← Draft.resolve scope first
      return first :: (← Draft.resolveAll scope rest)

def DraftCall.resolve (scope : Scope) : DraftCall → Except Error Call
  | .apply callee args changes => do
      let handle ← callee.resolve scope
      let args ← Draft.resolveAll scope args
      Change.applyAll scope changes (handle.call args)
  | .product first rest changes => do
      let first ← DraftCall.resolve scope first
      let product ← DraftCall.multiply scope first rest
      Change.applyAll scope changes product

/-- The product of a call and further drafted ones. -/
def DraftCall.multiply (scope : Scope) (product : Call) : List DraftCall → Except Error Call
  | [] => .ok product
  | next :: rest => do
      let next ← DraftCall.resolve scope next
      DraftCall.multiply scope (product * next) rest

def Change.applyAll (scope : Scope) : List Change → Call → Except Error Call
  | [], call => .ok call
  | change :: rest, call => do
      let call ← Change.apply scope change call
      Change.applyAll scope rest call

def Change.apply (scope : Scope) : Change → Call → Except Error Call
  | .place location, call => do return call.placeAt (← Draft.resolve scope location)
  | .transform transform, call => do return call.transformBy (← Draft.resolve scope transform)

end

/-- An action of a script. -/
inductive Action where
  | accumulate (combinator : String) (args : List Draft)
  | transform (operator : String) (args : List Draft)
  | transformCall (call : DraftCall)
  | fail (name : String)
  | requestBody (name : String)

/-- An action, with the last run in which it is performed if there is one. -/
structure ScriptLine where
  action : Action
  lastRun : Option Nat

abbrev Script := List ScriptLine

def BuildStep.ofExcept : Except Error BuildStep → BuildStep
  | .ok step => step
  | .error error => .fail error

/-- The action with its names looked up; a name that is not found makes it fail. -/
def Action.toStep (scope : Scope) (action : Action) : BuildStep :=
  .ofExcept <| match action with
  | .accumulate combinator args => do
      let handle ← (Callee.named combinator).resolve scope
      return .accumulate handle (← Draft.resolveAll scope args)
  | .transform operator args => do
      let handle ← (Callee.named operator).resolve scope
      return .transform handle (← Draft.resolveAll scope args)
  | .transformCall call => do return .transformCall (← call.resolve scope)
  | .fail name => .ok (.fail (.unknownName name))
  | .requestBody name => .ok (.requestBody name)

def ScriptLine.activeIn (line : ScriptLine) (run : Nat) : Bool :=
  match line.lastRun with
  | none => true
  | some last => run ≤ last

/-- The steps of a script in a given run. -/
def Script.steps (script : Script) (surroundings : Surroundings) : List BuildStep :=
  (script.filter fun line => line.activeIn surroundings.run).map fun line =>
    line.action.toStep ⟨surroundings.handle?, surroundings.placeholders⟩

def Script.recipe (script : Script) : Recipe :=
  ⟨script.steps⟩

end DistanceField
