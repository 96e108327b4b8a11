import SmallLisp.Eval.Basic

/-!
# Special forms

The conditional, definitions, assignment and procedure expressions. Each checks the shape of its
operands before it evaluates any of them.

A definition names a variable and its value, or it has the shape of a call with the names of a
procedure and its parameters, followed by the body. In both cases the name is bound in the frame in
which the definition is evaluated.
-/

namespace SmallLisp

/-- Evaluates the branch that a condition selects. A missing alternative counts as the empty list. -/
def evalBranch (ev : Evaluator) (operands : List Value) (frame : FrameId) : EvalM Value := do
  match ← ev (← operand operands 0) frame with
  | .bool true => ev (← operand operands 1) frame
  | .bool false =>
    match operands[2]? with
    | some alternative => ev alternative frame
    | none => pure .nil
  | other => fail (.notBoolean other.describe)

/-- Binds a variable to the value of an expression. -/
def defineVariable
    (ev : Evaluator)
    (name : String)
    (operands : List Value)
    (frame : FrameId) :
    EvalM Value :=
  if operands.length = 2 then do
    let value ← ev (← operand operands 1) frame
    modify (Store.define frame name value)
    pure (.sym name)
  else fail (.variableOperandCount operands.length)

/-- Makes a closure and binds it to the name in front of its parameters. -/
def defineProcedure
    (signature : Value)
    (operands : List Value)
    (frame : FrameId) :
    EvalM Value := do
  if operands.length < 2 then fail .missingBody
  else if (← get).isList signature then
    let names ← elements signature
    let name ← toName "define" (← operand names 0)
    let parameters ← toNames "define" (← operandsFrom names 1)
    let body ← operandsFrom operands 1
    let closure ← modifyGet (Store.newClosure ⟨parameters, body, frame⟩)
    modify (Store.define frame name closure)
    pure (.sym name)
  else fail (.malformedSignature signature.describe)

/-- Defines a variable or a procedure. -/
def evalDefine (ev : Evaluator) (operands : List Value) (frame : FrameId) : EvalM Value := do
  match ← operand operands 0 with
  | .sym name => defineVariable ev name operands frame
  | .pair id => defineProcedure (.pair id) operands frame
  | other => fail (.notDefinable other.describe)

/-- Changes the nearest binding of a variable to the value of an expression. -/
def evalAssign (ev : Evaluator) (operands : List Value) (frame : FrameId) : EvalM Value := do
  match ← operand operands 0 with
  | .sym name =>
    let value ← ev (← operand operands 1) frame
    if ← modifyGet (Store.assign frame name value) then pure value
    else fail (.unboundTarget name)
  | other => fail (.targetNotSymbol "set!" other.describe)

/-- Makes a closure. -/
def evalLambda (operands : List Value) (frame : FrameId) : EvalM Value := do
  let signature ← operand operands 0
  if (← get).isList signature then
    let parameters ← toNames "lambda" (← elements signature)
    let body ← operandsFrom operands 1
    modifyGet (Store.newClosure ⟨parameters, body, frame⟩)
  else fail (.notParameterList "lambda" signature.describe)

/-- Evaluates a special form. -/
def SpecialForm.apply
    (ev : Evaluator)
    (operands : List Value)
    (frame : FrameId) :
    SpecialForm → EvalM Value
  | branch => evalBranch ev operands frame
  | define => evalDefine ev operands frame
  | assign => evalAssign ev operands frame
  | lambda => evalLambda operands frame

end SmallLisp
