import SmallLisp.Eval.Apply

/-!
# Evaluation

Numbers and truth values stand for themselves and symbols for what they are bound to. A pair is a
call: its first slot is evaluated, and the result is applied to the elements of its second slot as
they are then.

`eval` is `evalStep` repeated: `eval fuel` follows expressions up to `fuel` levels of nesting and
does not finish beyond. `apply` applies a value with that evaluator.
-/

namespace SmallLisp

/-- Evaluates an expression, given an evaluator for the expressions inside it. -/
def evalStep (ev : Evaluator) (expression : Value) (frame : FrameId) : EvalM Value :=
  match expression with
  | .int value => pure (.int value)
  | .bool value => pure (.bool value)
  | .sym name => do
    let store ← get
    match store.lookup frame name with
    | some value => pure value
    | none => fail (.unboundVariable name (store.depth frame))
  | .pair id => do
    let pair := (← get).pair id
    let procedure ← ev pair.first frame
    let operands ← elements pair.second
    applyValue ev procedure operands frame
  | .nil => fail .emptyExpression
  | .closure _ => fail .procedureExpression
  | .primitive _ => fail .procedureExpression

/-- Evaluates an expression in a frame. -/
def eval (fuel : Nat) (expression : Value) (frame : FrameId) : EvalM Value :=
  match fuel with
  | 0 => throw .unfinished
  | fuel + 1 => evalStep (eval fuel) expression frame

/-- Applies a value to operands as written in a frame. -/
def apply (fuel : Nat) (procedure : Value) (operands : List Value) (frame : FrameId) :
    EvalM Value :=
  applyValue (eval fuel) procedure operands frame

/-- One more level of fuel is one more step. -/
theorem eval_succ (fuel : Nat) : eval (fuel + 1) = evalStep (eval fuel) :=
  rfl

end SmallLisp
