import SmallLisp.Eval.Special
import SmallLisp.Eval.Strict

/-!
# Applying procedures

A procedure is applied to its operands as written, in the frame of the caller, and decides itself
which of them are evaluated. Procedures call an evaluator for the expressions in them.

* `Comparison.apply` and `Connective.apply` evaluate operands until the result is decided;
* `Primitive.apply` checks the number of operands first;
* `Closure.apply` makes a frame inside the one in which the closure was made, fills it with
  `bindInTurn` while the operands are evaluated in the frame of the caller, and then evaluates the
  body in it.
-/

namespace SmallLisp

/-- Compares adjacent operands and stops at the first two that do not stand in the relation. The
integer before the operands is `previous`. -/
def Comparison.apply
    (relation : Comparison)
    (ev : Evaluator)
    (frame : FrameId)
    (previous : Option Int64) :
    List Value → EvalM Value
  | [] => pure (.bool true)
  | expression :: expressions => do
    let number ← toNumber relation.name (← ev expression frame)
    match previous with
    | none => relation.apply ev frame (some number) expressions
    | some before =>
      if relation.holds before number then relation.apply ev frame (some number) expressions
      else pure (.bool false)

/-- Whether a value decides a connective. -/
def Connective.decidedBy : Connective → Value → Bool
  | conjunction, value => !value.isTrue
  | disjunction, value => value.isTrue

/-- The result of a connective without operands. -/
def Connective.neutral : Connective → Value
  | conjunction => .bool true
  | disjunction => .bool false

/-- Evaluates operands up to the first that decides the connective. The result is the last value, or
`last` if there is none. -/
def Connective.apply
    (junction : Connective)
    (ev : Evaluator)
    (frame : FrameId)
    (last : Value) :
    List Value → EvalM Value
  | [] => pure last
  | expression :: expressions => do
    let value ← ev expression frame
    if junction.decidedBy value then pure value
    else junction.apply ev frame value expressions

/-- Applies a primitive whose number of operands is right. -/
def Primitive.applyChecked
    (primitive : Primitive)
    (ev : Evaluator)
    (operands : List Value)
    (frame : FrameId) :
    EvalM Value :=
  match primitive with
  | strict procedure => do procedure.apply (← evalAll ev frame operands)
  | comparison relation => relation.apply ev frame none operands
  | connective junction => junction.apply ev frame junction.neutral operands
  | negation => do
    let value ← operand operands 0
    pure (.bool !value.isTrue)
  | quote => operand operands 0
  | list => modifyGet (Store.newChain operands .nil)
  | special form => form.apply ev operands frame

/-- Applies a primitive. -/
def Primitive.apply
    (primitive : Primitive)
    (ev : Evaluator)
    (operands : List Value)
    (frame : FrameId) :
    EvalM Value :=
  if primitive.arity.accepts operands.length then primitive.applyChecked ev operands frame
  else fail (.operandCount primitive operands.length)

/-- Evaluates the operands of some parameters for a caller. The argument of each is bound in a frame
before the next operand is evaluated. -/
def bindInTurn
    (ev : Evaluator)
    (caller scope : FrameId) :
    List (String × Value) → EvalM Unit
  | [] => pure ()
  | entry :: entries => do
    let argument ← ev entry.2 caller
    modify (Store.define scope entry.1 argument)
    bindInTurn ev caller scope entries

/-- Applies a closure. The frame of the call is there before the operands are evaluated, and a
parameter that is repeated is bound to the last of its arguments. -/
def Closure.apply
    (closure : Closure)
    (ev : Evaluator)
    (operands : List Value)
    (caller : FrameId) :
    EvalM Value :=
  if operands.length = closure.parameters.length then do
    let scope ← modifyGet (Store.newFrame ⟨some closure.frame, []⟩)
    bindInTurn ev caller scope (closure.parameters.zip operands)
    evalBody ev scope .nil closure.body
  else fail (.argumentCount closure.parameters.length operands.length)

/-- Applies a value to operands as written. -/
def applyValue
    (ev : Evaluator)
    (procedure : Value)
    (operands : List Value)
    (frame : FrameId) :
    EvalM Value :=
  match procedure with
  | .primitive primitive => primitive.apply ev operands frame
  | .closure id => do
    let closure := (← get).closure id
    closure.apply ev operands frame
  | other => fail (.notProcedure other.describe)

end SmallLisp
