import SmallLisp.Proofs.Confinement

/-!
# Evaluation is never stuck

An access to an operand that is not there and a machine division by zero have no result: `operand`,
`operandsFrom`, `combine` and `quotient` are stuck at them. The numbers of operands are checked in one place
and the accesses are in others, so what has to be shown is that the checks cover the accesses. The rules of
`Within` do this on the way: no evaluation that is confined to a world is stuck. Here the world is the largest
one there is, so that nothing has to be known about the store, the frame or the procedure. An evaluation with a
stuck part is stuck, since nothing goes on after it, so this says as well that there is no such part.

* `World.unrestricted` is the world of code that has got hold of everything;
* `Within.regular`: what is confined to a world is not stuck;
* `evaluation_is_never_stuck` says it of evaluation and application, and joins what `Arithmetic.result_cases`
  says about integers of any size.
-/

namespace SmallLisp

/-- How an evaluation ends if there is no operation on its way that has no result: with a value, with an error,
or not within its bounds. -/
inductive Regular {α : Type} : Except Halt α → Prop
  | value (value : α) : Regular (.ok value)
  | error (e : Error) : Regular (.error (.error e))
  | unfinished : Regular (.error .unfinished)

/-- The world of code that has got hold of every item, whether it is in the store or not, and may bind names in
every frame. -/
def World.unrestricted (store : Store) : World fun _ => true where
  store := store
  items := Set.univ
  homes := Set.univ
  closed _ _ := Set.mem_univ _
  homes_held _ := Set.mem_univ _
  primitive_given _ := rfl

/-- Code in the unrestricted world has got hold of every value. -/
theorem World.unrestricted_has
    (store : Store)
    (value : Value) :
    (World.unrestricted store).Has value :=
  fun item _ => Set.mem_univ item

/-- An evaluation that is confined to a world is not stuck. -/
theorem Within.regular
    {α : Type}
    {given : Primitive → Bool}
    {w : World given}
    {run : EvalM α}
    {post : World given → α → Prop}
    (h : Within run w post) :
    Regular (outcome run w.store).1 := by
  obtain ⟨w', -, -, hend⟩ := h
  cases hresult : (outcome run w.store).1 with
  | ok value => exact .value value
  | error halt =>
      rw [hresult] at hend
      cases halt with
      | error e => exact .error e
      | stuck => exact hend.elim
      | unfinished => exact .unfinished

/-- No evaluation is stuck, in whatever store and frame. -/
theorem regular_eval
    (fuel : Nat)
    (expression : Value)
    (frame : FrameId)
    (store : Store) :
    Regular (outcome (eval fuel expression frame) store).1 :=
  (eval_confined (w := World.unrestricted store) fuel (World.unrestricted_has store expression)
    (Set.mem_univ frame)).regular

/-- No application is stuck, whatever is applied to however many operands. -/
theorem regular_apply
    (fuel : Nat)
    (procedure : Value)
    (operands : List Value)
    (frame : FrameId)
    (store : Store) :
    Regular (outcome (apply fuel procedure operands frame) store).1 := by
  rw [apply_eq_applyGiven]
  have hoperands : (World.unrestricted store).HasAll operands :=
    fun operand _ => World.unrestricted_has store operand
  exact (within_applyGiven (eval_confined fuel) (World.unrestricted_has store procedure)
    (Set.mem_univ frame) hoperands).regular

/-- The check of the number of operands is needed: the access in `car` is not covered without it. -/
example (store : Store) (frame : FrameId) :
    (outcome ((Primitive.strict .car).applyChecked (eval 0) [] frame) store).1 =
      .error .stuck :=
  rfl

/-- In every store, evaluating any expression and applying any value to any operands, as many as there may be,
ends with a value or an error if it ends: there is no access to an operand that is not there and no division by
zero. No arithmetic operation relies on its result fitting into 64 bits: with a number of operands that it takes
it has a result for all integers, except where a divisor is zero, which is reported as an error. -/
theorem evaluation_is_never_stuck :
    (∀ (fuel : Nat) (procedure : Value) (operands : List Value) (frame : FrameId) (store : Store),
      Regular (outcome (apply fuel procedure operands frame) store).1) ∧
    (∀ (fuel : Nat) (expression : Value) (frame : FrameId) (store : Store),
      Regular (outcome (eval fuel expression frame) store).1) ∧
    ∀ (operation : Arithmetic) (numbers : List Int64),
      operation.arity.accepts numbers.length = true →
        (operation = .divide ∧ 0 ∈ numbers.tail ∧
            operation.result numbers = .error Fault.divisionByZero.halt) ∨
          (¬(operation = .divide ∧ 0 ∈ numbers.tail) ∧
            ∃ result, operation.result numbers = .ok result) := by
  refine ⟨regular_apply, regular_eval, fun operation numbers hcount => ?_⟩
  rcases operation.result_cases numbers with ⟨hwrong, -⟩ | hdivision | hresult
  · cases hwrong.symm.trans hcount
  · exact .inl hdivision
  · exact .inr hresult

/-- The least integer has a quotient by minus one, though the exact quotient exceeds 64 bits, and a quotient by
zero is an error. -/
theorem evaluation_is_never_stuck_at_the_least_integer :
    (∃ result, Arithmetic.divide.result [Int64.minValue, -1] = .ok result) ∧
      Arithmetic.divide.result [Int64.minValue, 0] = .error Fault.divisionByZero.halt := by
  have hcount : Arithmetic.divide.arity.accepts 2 = true := rfl
  obtain ⟨-, -, harithmetic⟩ := evaluation_is_never_stuck
  constructor
  · rcases harithmetic .divide [Int64.minValue, -1] hcount with ⟨-, hzero, -⟩ | ⟨-, hresult⟩
    · exact absurd hzero (by decide)
    · exact hresult
  · rcases harithmetic .divide [Int64.minValue, 0] hcount with ⟨-, -, hresult⟩ | ⟨hnot, -⟩
    · exact hresult
    · exact absurd ⟨rfl, List.mem_singleton_self 0⟩ hnot

end SmallLisp
