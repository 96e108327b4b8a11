import SmallLisp.Proofs.Agreement

/-!
# Evaluation with some primitives only

`evalGiven given` is evaluation that is stuck as soon as a primitive comes to be applied that is not among
the given ones. Unless it is stuck, it ends as evaluation does. So where it is not stuck, evaluation
applies given primitives only.

* `evalGiven` is `evalStepGiven` repeated, as `eval` is `evalStep` repeated;
* `evalGiven_agrees` compares the two.
-/

namespace SmallLisp

/-- Applies a value that is not a primitive or is a given one. -/
def applyGiven
    (given : Primitive → Bool)
    (ev : Evaluator)
    (procedure : Value)
    (operands : List Value)
    (frame : FrameId) :
    EvalM Value :=
  match procedure with
  | .primitive primitive =>
    if given primitive then primitive.apply ev operands frame else throw .stuck
  | other => applyValue ev other operands frame

/-- `apply` refuses no primitive. -/
theorem apply_eq_applyGiven
    (fuel : Nat)
    (procedure : Value)
    (operands : List Value)
    (frame : FrameId) :
    apply fuel procedure operands frame =
      applyGiven (fun _ => true) (eval fuel) procedure operands frame := by
  cases procedure <;> rfl

/-- Evaluates an expression, applying no primitive itself that is not given. -/
def evalStepGiven
    (given : Primitive → Bool)
    (ev : Evaluator)
    (expression : Value)
    (frame : FrameId) :
    EvalM Value :=
  match expression with
  | .pair id => do
    let pair := (← get).pair id
    let procedure ← ev pair.first frame
    let operands ← elements pair.second
    applyGiven given ev procedure operands frame
  | other => evalStep ev other frame

/-- Evaluates an expression, applying no primitive that is not given. -/
def evalGiven
    (given : Primitive → Bool)
    (fuel : Nat)
    (expression : Value)
    (frame : FrameId) :
    EvalM Value :=
  match fuel with
  | 0 => throw .unfinished
  | fuel + 1 => evalStepGiven given (evalGiven given fuel) expression frame

variable {given : Primitive → Bool}

theorem applyGiven_agrees
    (ev : Evaluator)
    (procedure : Value)
    (operands : List Value)
    (frame : FrameId) :
    AgreesUnless .stuck (applyGiven given ev procedure operands frame)
      (applyValue ev procedure operands frame) := by
  cases procedure with
  | primitive primitive =>
      dsimp only [applyGiven]
      split
      · exact .refl _
      · exact .halted _
  | _ => exact .refl _

theorem evalStepGiven_agrees (ev : Evaluator) :
    Evaluator.AgreesUnless .stuck (evalStepGiven given ev) (evalStep ev) := by
  intro expression frame
  cases expression with
  | pair id =>
      refine .bindRight fun store => ?_
      refine .bindRight fun procedure => ?_
      exact .bindRight fun operands => applyGiven_agrees ev procedure operands frame
  | _ => exact .refl _

/-- Unless it is stuck, evaluation with the given primitives ends as evaluation does. -/
theorem evalGiven_agrees (fuel : Nat) :
    Evaluator.AgreesUnless .stuck (evalGiven given fuel) (eval fuel) := by
  induction fuel with
  | zero => exact fun _ _ => .refl _
  | succ fuel ih =>
      intro expression frame
      exact (evalStepGiven_agrees _ expression frame).trans (evalStep_agrees ih expression frame)

end SmallLisp
