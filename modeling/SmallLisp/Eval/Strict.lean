import SmallLisp.Eval.Arithmetic

/-!
# Strict primitives

What the primitives do that take the values of all their operands: arithmetic, tests, and the reading
and writing of pairs.
-/

namespace SmallLisp

/-- Whether a value belongs to a class. -/
def Kind.holds (store : Store) : Kind → Value → Bool
  | number, .int _ => true
  | boolean, .bool _ => true
  | pair, .pair _ => true
  | symbol, .sym _ => true
  | null, .nil => true
  | list, value => store.isList value
  | _, _ => false

/-- The identity of the pair that a value is. -/
def toPair (operation : String) : Value → Except Halt PairId
  | .pair id => .ok id
  | other => .error (Fault.notPair operation other.describe).halt

/-- The place that an index into a chain means. -/
def toPlace (operation : String) (index : Value) : Except Halt Int64 := do
  let place ← toNumber operation index
  if place < 0 then .error (Fault.negativeIndex operation place).halt else .ok place

/-- The part of a chain behind as many links as `place` says. -/
def tailAt (operation : String) (chain : Value) (place : Int64) : EvalM Value := do
  match (← get).follow place.toInt.toNat chain with
  | some tail => pure tail
  | none => fail (.indexOutOfRange operation place)

/-- The element at a place in a chain. An end that is not the empty list counts as the last element,
unless it is the whole chain. -/
def elementAt (operation : String) (chain : Value) (place : Int64) : EvalM Value := do
  let tail ← tailAt operation chain place
  match (← get).first? tail with
  | some element => pure element
  | none =>
    if 0 < place ∧ tail ≠ .nil then pure tail else fail (.indexOutOfRange operation place)

/-- Applies a strict primitive to the values of its operands. -/
def Strict.apply (procedure : Strict) (arguments : List Value) : EvalM Value :=
  match procedure with
  | arithmetic operation => do
    let numbers ← toNumbers operation.name arguments
    let result ← operation.result numbers
    pure (.int result)
  | isA kind => do
    let value ← operand arguments 0
    pure (.bool (kind.holds (← get) value))
  | car => do
    let id ← toPair procedure.name (← operand arguments 0)
    pure ((← get).pair id).first
  | cdr => do
    let id ← toPair procedure.name (← operand arguments 0)
    pure ((← get).pair id).second
  | cons => do
    let first ← operand arguments 0
    let second ← operand arguments 1
    modifyGet (Store.newPair first second)
  | listRef => do
    let chain ← operand arguments 0
    let _ ← toPair procedure.name chain
    let place ← toPlace procedure.name (← operand arguments 1)
    elementAt procedure.name chain place
  | listTail => do
    let chain ← operand arguments 0
    let _ ← toPair procedure.name chain
    let place ← toPlace procedure.name (← operand arguments 1)
    tailAt procedure.name chain place
  | setCar => do
    let id ← toPair procedure.name (← operand arguments 0)
    modify (Store.setFirst id (← operand arguments 1))
    pure .nil
  | setCdr => do
    let id ← toPair procedure.name (← operand arguments 0)
    modify (Store.setSecond id (← operand arguments 1))
    pure .nil

end SmallLisp
