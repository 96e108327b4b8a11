import SmallLisp.Datum.Printer
import SmallLisp.Datum.Reader
import SmallLisp.Primitive

/-!
# Errors

The causes for which reading or evaluating fails, each with its kind and its text.

* `Fault` lists the causes met by evaluation;
* `Error` joins them with the causes met by reading;
* `Halt` adds the two ways in which an evaluation has no outcome in the language.
-/

namespace SmallLisp

/-- The three kinds of error. -/
inductive ErrorKind where
  /-- The input is malformed. -/
  | malformed
  /-- A symbol has no binding. -/
  | unbound
  /-- A well-formed expression cannot be evaluated. -/
  | runtime
deriving DecidableEq, Repr

/-- The label that a report of the error starts with. -/
def ErrorKind.label : ErrorKind → String
  | malformed => "SyntaxError"
  | unbound => "NameError"
  | runtime => "RuntimeError"

/-- Why an evaluation failed. The text in a field `got` describes the value that was refused, and a
field `operation` names the operation that refused it. -/
inductive Fault where
  /-- A variable has no binding in a scope of the given depth. -/
  | unboundVariable (name : String) (depth : Nat)
  /-- An assignment finds no binding to change. -/
  | unboundTarget (name : String)
  /-- The empty list was evaluated. -/
  | emptyExpression
  /-- A procedure was evaluated. -/
  | procedureExpression
  /-- A value that is no procedure was applied. -/
  | notProcedure (got : String)
  /-- A primitive has the wrong number of operands. -/
  | operandCount (primitive : Primitive) (count : Nat)
  /-- A closure has the wrong number of operands. -/
  | argumentCount (expected count : Nat)
  /-- An integer was needed. -/
  | notNumber (operation : String) (got : String)
  /-- A quotient by zero was asked for. -/
  | divisionByZero
  /-- A pair was needed. -/
  | notPair (operation : String) (got : String)
  /-- An index into a list is below zero. -/
  | negativeIndex (operation : String) (index : Int64)
  /-- An index into a list is too large. -/
  | indexOutOfRange (operation : String) (index : Int64)
  /-- A condition is no truth value. -/
  | notBoolean (got : String)
  /-- A definition of a variable has the wrong number of operands. -/
  | variableOperandCount (count : Nat)
  /-- A definition of a procedure has no body. -/
  | missingBody
  /-- The signature in a definition is no list. -/
  | malformedSignature (got : String)
  /-- Neither a variable nor a procedure is defined. -/
  | notDefinable (got : String)
  /-- The parameters of a procedure are no list. -/
  | notParameterList (operation : String) (got : String)
  /-- A name in a signature or a parameter list is no symbol. -/
  | notSymbol (operation : String) (got : String)
  /-- The target of an assignment is no symbol. -/
  | targetNotSymbol (operation : String) (got : String)
  /-- A procedure was printed. -/
  | unprintable
deriving DecidableEq, Repr

namespace Fault

/-- The kind of a fault. A wrong operand count is malformed input for special forms only. -/
def kind : Fault → ErrorKind
  | unboundVariable .. => .unbound
  | unboundTarget _ => .unbound
  | operandCount primitive _ => if primitive.isSpecial then .malformed else .runtime
  | variableOperandCount _ => .malformed
  | malformedSignature _ => .malformed
  | notDefinable _ => .malformed
  | notParameterList .. => .malformed
  | notSymbol .. => .malformed
  | emptyExpression => .runtime
  | procedureExpression => .runtime
  | notProcedure _ => .runtime
  | argumentCount .. => .runtime
  | notNumber .. => .runtime
  | divisionByZero => .runtime
  | notPair .. => .runtime
  | negativeIndex .. => .runtime
  | indexOutOfRange .. => .runtime
  | notBoolean _ => .runtime
  | missingBody => .runtime
  | targetNotSymbol .. => .runtime
  | unprintable => .runtime

/-- The text that reports a fault. -/
def message : Fault → String
  | unboundVariable name depth => s!"unbound variable `{name}` (scope depth {depth})"
  | unboundTarget name => s!"cannot set! undefined variable `{name}`"
  | emptyExpression => "cannot evaluate the empty list"
  | procedureExpression => "procedures do not evaluate to themselves"
  | notProcedure got => s!"{got} is not a functor"
  | operandCount primitive count =>
    s!"{primitive.name} expects {primitive.arity.describe}, got {count} operand(s)"
  | argumentCount expected count => s!"lambda expects {expected} argument(s), got {count}"
  | notNumber operation got => s!"{operation} expects numbers, got {got}"
  | divisionByZero => "division by zero"
  | notPair operation got => s!"{operation} expects a pair, got {got}"
  | negativeIndex operation index =>
    s!"{operation} index " ++ String.ofList (integerChars index) ++ " is negative"
  | indexOutOfRange operation index =>
    s!"{operation} index " ++ String.ofList (integerChars index) ++ " is out of range"
  | notBoolean got => s!"if expects a boolean condition, got {got}"
  | variableOperandCount count => s!"define of a variable expects 2 operands, got {count}"
  | missingBody => "define of a procedure needs a body"
  | malformedSignature got => s!"malformed procedure signature {got}"
  | notDefinable got => s!"cannot define {got}"
  | notParameterList operation got => s!"{operation} expects a parameter list, got {got}"
  | notSymbol operation got => s!"{operation} expects a symbol, got {got}"
  | targetNotSymbol operation got => s!"{operation} expects a symbol, got {got}"
  | unprintable => "procedures have no printed representation"

end Fault

/-- Why an answer is an error. -/
inductive Error where
  /-- The text could not be read. -/
  | reading (e : ReadError)
  /-- The expression could not be evaluated or its value not printed. -/
  | evaluating (fault : Fault)
deriving DecidableEq, Repr

namespace Error

/-- The kind of an error. What cannot be read is malformed. -/
def kind : Error → ErrorKind
  | reading _ => .malformed
  | evaluating fault => fault.kind

/-- The text of an error, without its kind. -/
def message : Error → String
  | reading e => e.message
  | evaluating fault => fault.message

/-- An error as it is reported: its kind, then its text. -/
def report (e : Error) : String :=
  s!"{e.kind.label}: {e.message}"

end Error

/-- How an evaluation ends without a value. -/
inductive Halt where
  /-- With an error of the language. -/
  | error (e : Error)
  /-- At an operation that has no result at all, such as an access to an operand that is not
  there. -/
  | stuck
  /-- Not within the bounds that were set for it. -/
  | unfinished
deriving DecidableEq, Repr

end SmallLisp
