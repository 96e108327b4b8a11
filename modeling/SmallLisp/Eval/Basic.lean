import SmallLisp.Error
import SmallLisp.Store.Chain
import SmallLisp.Store.Scope

/-!
# Effects of evaluation

An evaluation changes the store and ends with a value or halts; what it did to the store before it
halted stays done. The procedures of the language are written over an `Evaluator`, which they call
for the expressions that they evaluate.

* `outcome` runs an evaluation on a store;
* `fail` halts with an error of the language, and `FailsAs` says of what kind it is;
* `operand` and `operandsFrom` get at operands, and are stuck where there is none;
* `evalAll` evaluates operands from left to right, `evalBody` evaluates expressions in order and
  keeps the last value.
-/

namespace SmallLisp

/-- An evaluation. -/
abbrev EvalM := ExceptT Halt (StateM Store)

/-- What an evaluation that starts with a store ends with: a value or how it halted, and the store. -/
def outcome {α : Type} (run : EvalM α) (store : Store) : Except Halt α × Store :=
  run store

/-- A way to evaluate an expression in a frame. -/
abbrev Evaluator := Value → FrameId → EvalM Value

/-- The way in which an evaluation halts at a fault. -/
def Fault.halt (fault : Fault) : Halt :=
  .error (.evaluating fault)

/-- Halts at a fault. -/
def fail {α : Type} (fault : Fault) : EvalM α :=
  throw fault.halt

/-- The evaluation halts at a fault of the given kind and leaves the store alone. -/
def FailsAs {α : Type} (kind : ErrorKind) (run : EvalM α) (store : Store) : Prop :=
  ∃ fault : Fault, fault.kind = kind ∧ outcome run store = (.error fault.halt, store)

/-- The operand of a number, counted from zero. -/
def operand (operands : List Value) (number : Nat) : EvalM Value :=
  match operands[number]? with
  | some value => pure value
  | none => throw .stuck

/-- The operands from a number on. -/
def operandsFrom (operands : List Value) (number : Nat) : EvalM (List Value) :=
  if number ≤ operands.length then pure (operands.drop number) else throw .stuck

/-- The elements of a chain. The evaluation does not finish if the chain is circular. -/
def elements (value : Value) : EvalM (List Value) := do
  match (← get).elements? value with
  | some values => pure values
  | none => throw .unfinished

/-- Evaluates operands from left to right. -/
def evalAll (ev : Evaluator) (frame : FrameId) : List Value → EvalM (List Value)
  | [] => pure []
  | expression :: expressions => do
    let value ← ev expression frame
    let values ← evalAll ev frame expressions
    pure (value :: values)

/-- Evaluates expressions in order. The result is the value of the last one, or `last` if there is
none. -/
def evalBody (ev : Evaluator) (frame : FrameId) (last : Value) : List Value → EvalM Value
  | [] => pure last
  | expression :: expressions => do
    let value ← ev expression frame
    evalBody ev frame value expressions

/-- The integer that a value is. -/
def toNumber (operation : String) : Value → Except Halt Int64
  | .int value => .ok value
  | other => .error (Fault.notNumber operation other.describe).halt

/-- The integers that values are. -/
def toNumbers (operation : String) (values : List Value) : Except Halt (List Int64) :=
  values.mapM (toNumber operation)

/-- The name of the symbol that a value is. -/
def toName (operation : String) : Value → Except Halt String
  | .sym name => .ok name
  | other => .error (Fault.notSymbol operation other.describe).halt

/-- The names of the symbols that values are. -/
def toNames (operation : String) (values : List Value) : Except Halt (List String) :=
  values.mapM (toName operation)

/-- A value leaves the store alone. -/
@[simp]
theorem outcome_pure
    {α : Type}
    (value : α)
    (store : Store) :
    outcome (pure value) store = (.ok value, store) :=
  rfl

/-- An evaluation goes on with the value and the store of its first part, and halts with it. -/
theorem outcome_bind
    {α β : Type}
    (run : EvalM α)
    (next : α → EvalM β)
    (store : Store) :
    outcome (run >>= next) store =
      match outcome run store with
      | (.ok value, store) => outcome (next value) store
      | (.error halt, store) => (.error halt, store) := by
  simp only [outcome, bind, ExceptT.bind, ExceptT.mk, ExceptT.bindCont, StateT.bind]
  rcases run store with ⟨_ | _, _⟩ <;> rfl

/-- Going on after a first part that is known to end with a value. -/
theorem outcome_bind_ok
    {α β : Type}
    {run : EvalM α}
    {next : α → EvalM β}
    {store middle : Store}
    {value : α}
    (h : outcome run store = (.ok value, middle)) :
    outcome (run >>= next) store = outcome (next value) middle := by
  rw [outcome_bind, h]

/-- An evaluation in two parts halts in the first one or in the second one. -/
theorem outcome_bind_error
    {α β : Type}
    {run : EvalM α}
    {next : α → EvalM β}
    {store after : Store}
    {halt : Halt}
    (h : outcome (run >>= next) store = (.error halt, after)) :
    outcome run store = (.error halt, after) ∨
      ∃ value middle, outcome run store = (.ok value, middle) ∧
        outcome (next value) middle = (.error halt, after) := by
  rw [outcome_bind] at h
  rcases hrun : outcome run store with ⟨other | value, middle⟩ <;> rw [hrun] at h
  · cases h
    exact .inl rfl
  · exact .inr ⟨value, middle, rfl, h⟩

/-- Halting leaves the store alone. -/
@[simp]
theorem outcome_throw
    {α : Type}
    (halt : Halt)
    (store : Store) :
    outcome (throw halt : EvalM α) store = (.error halt, store) :=
  rfl

/-- A fault leaves the store alone. -/
@[simp]
theorem outcome_fail
    {α : Type}
    (fault : Fault)
    (store : Store) :
    outcome (fail fault : EvalM α) store = (.error fault.halt, store) :=
  rfl

/-- The store can be looked at. -/
@[simp]
theorem outcome_get (store : Store) :
    outcome get store = (.ok store, store) :=
  rfl

/-- The store can be changed. -/
@[simp]
theorem outcome_modify (change : Store → Store) (store : Store) :
    outcome (modify change) store = (.ok (), change store) :=
  rfl

/-- Objects can be made. -/
@[simp]
theorem outcome_modifyGet
    {α : Type}
    (make : Store → α × Store)
    (store : Store) :
    outcome (modifyGet make) store = (.ok (make store).1, (make store).2) :=
  rfl

/-- What needs no store leaves it alone. -/
@[simp]
theorem outcome_lift
    {α : Type}
    (result : Except Halt α)
    (store : Store) :
    outcome (liftM result) store = (result, store) :=
  rfl

/-- Getting at an operand leaves the store alone. -/
@[simp]
theorem outcome_operand
    (operands : List Value)
    (number : Nat)
    (store : Store) :
    outcome (operand operands number) store =
      (operands[number]?.elim (.error .stuck) .ok, store) := by
  unfold operand
  cases operands[number]? <;> rfl

/-- Getting at the operands from a number on leaves the store alone. -/
@[simp]
theorem outcome_operandsFrom
    (operands : List Value)
    (number : Nat)
    (store : Store) :
    outcome (operandsFrom operands number) store =
      (if number ≤ operands.length then .ok (operands.drop number) else .error .stuck, store) := by
  unfold operandsFrom
  split <;> rfl

/-- Getting at the elements of a chain leaves the store alone. -/
@[simp]
theorem outcome_elements
    (value : Value)
    (store : Store) :
    outcome (elements value) store =
      ((store.elements? value).elim (.error .unfinished) .ok, store) := by
  unfold elements
  rw [outcome_bind, outcome_get]
  dsimp only
  cases store.elements? value <;> rfl

end SmallLisp
