import SmallLisp.Eval.Basic

/-!
# Integer arithmetic

Sums, differences and products wrap at 64 bits. A quotient is truncated toward zero; the one quotient
that exceeds 64 bits wraps, and zero has no quotients.

Sums and products start from their neutral element; the other operations start from their first
operand, so they are stuck without one.
-/

namespace SmallLisp

/-- The quotient of two integers, where there is one. -/
def quotient (dividend divisor : Int64) : Except Halt Int64 :=
  if divisor = 0 then .error .stuck else .ok (dividend / divisor)

/-- The quotient of two integers; it is a fault to divide by zero. -/
def checkedQuotient (dividend divisor : Int64) : Except Halt Int64 :=
  if divisor = 0 then .error Fault.divisionByZero.halt else quotient dividend divisor

/-- Combines integers from left to right, starting from the first. -/
def combine (step : Int64 → Int64 → Except Halt Int64) : List Int64 → Except Halt Int64
  | [] => .error .stuck
  | number :: numbers => numbers.foldlM step number

/-- The result of an operation. A difference of one operand is its negation. -/
def Arithmetic.result : Arithmetic → List Int64 → Except Halt Int64
  | add, numbers => .ok (numbers.foldl (· + ·) 0)
  | multiply, numbers => .ok (numbers.foldl (· * ·) 1)
  | subtract, [number] => .ok (-number)
  | subtract, numbers => combine (fun a b => .ok (a - b)) numbers
  | divide, numbers => combine checkedQuotient numbers
  | maximum, numbers => combine (fun a b => .ok (if a < b then b else a)) numbers
  | minimum, numbers => combine (fun a b => .ok (if b < a then b else a)) numbers
  | absolute, [] => .error .stuck
  | absolute, number :: _ => .ok (if number < 0 then -number else number)

/-- Whether two adjacent integers stand in a relation. -/
def Comparison.holds : Comparison → Int64 → Int64 → Bool
  | less, a, b => a < b
  | greater, a, b => b < a
  | equal, a, b => a = b
  | lessEqual, a, b => a ≤ b
  | greaterEqual, a, b => b ≤ a

/-- A checked quotient never divides by zero. -/
theorem checkedQuotient_eq
    (dividend divisor : Int64) :
    checkedQuotient dividend divisor =
      if divisor = 0 then .error Fault.divisionByZero.halt else .ok (dividend / divisor) := by
  unfold checkedQuotient quotient
  split <;> rfl

/-- The least integer divided by minus one wraps to itself. -/
example : checkedQuotient Int64.minValue (-1) = .ok Int64.minValue := by
  simp [checkedQuotient_eq]

/-- Steps that have results have a result together. -/
theorem foldlM_ok
    {step : Int64 → Int64 → Except Halt Int64}
    {numbers : List Int64}
    (first : Int64)
    (hstep : ∀ number ∈ numbers, ∀ previous, ∃ next, step previous number = .ok next) :
    ∃ result, numbers.foldlM step first = .ok result := by
  induction numbers generalizing first with
  | nil => exact ⟨first, rfl⟩
  | cons number numbers ih =>
      obtain ⟨next, hnext⟩ := hstep number List.mem_cons_self first
      rw [List.foldlM_cons, hnext]
      exact ih next fun other hother => hstep other (List.mem_cons_of_mem _ hother)

/-- A zero among the divisors is met: no quotient before it fails for another reason. -/
theorem foldlM_checkedQuotient_zero
    {numbers : List Int64}
    (first : Int64)
    (hzero : 0 ∈ numbers) :
    numbers.foldlM checkedQuotient first = .error Fault.divisionByZero.halt := by
  induction numbers generalizing first with
  | nil => cases hzero
  | cons number numbers ih =>
      rw [List.foldlM_cons, checkedQuotient_eq]
      split
      · rfl
      case isFalse hnumber =>
          have hrest : 0 ∈ numbers := (List.mem_cons.mp hzero).resolve_left (Ne.symm hnumber)
          exact ih (first / number) hrest

/-- An operation is stuck only without the operands that it takes, and it fails only where a divisor is zero.
Otherwise it has a result, whatever the integers are. -/
theorem Arithmetic.result_cases
    (operation : Arithmetic)
    (numbers : List Int64) :
    (operation.arity.accepts numbers.length = false ∧ operation.result numbers = .error .stuck) ∨
      (operation = .divide ∧ 0 ∈ numbers.tail ∧
        operation.result numbers = .error Fault.divisionByZero.halt) ∨
      (¬(operation = .divide ∧ 0 ∈ numbers.tail) ∧
        ∃ result, operation.result numbers = .ok result) := by
  cases operation with
  | add => exact .inr (.inr ⟨by simp, _, rfl⟩)
  | multiply => exact .inr (.inr ⟨by simp, _, rfl⟩)
  | subtract =>
      match numbers with
      | [] => exact .inl ⟨rfl, rfl⟩
      | [number] => exact .inr (.inr ⟨by simp, _, rfl⟩)
      | first :: second :: numbers =>
          exact .inr (.inr ⟨by simp, foldlM_ok first fun _ _ _ => ⟨_, rfl⟩⟩)
  | divide =>
      cases numbers with
      | nil => exact .inl ⟨rfl, rfl⟩
      | cons first numbers =>
          by_cases hzero : 0 ∈ numbers
          · exact .inr (.inl ⟨rfl, hzero, foldlM_checkedQuotient_zero first hzero⟩)
          · refine .inr (.inr ⟨fun h => hzero h.2, foldlM_ok first ?_⟩)
            intro number hnumber previous
            have hne : number ≠ 0 := fun h => hzero (h ▸ hnumber)
            exact ⟨previous / number, by rw [checkedQuotient_eq, if_neg hne]⟩
  | maximum =>
      cases numbers with
      | nil => exact .inl ⟨rfl, rfl⟩
      | cons first numbers =>
          exact .inr (.inr ⟨by simp, foldlM_ok first fun _ _ _ => ⟨_, rfl⟩⟩)
  | minimum =>
      cases numbers with
      | nil => exact .inl ⟨rfl, rfl⟩
      | cons first numbers =>
          exact .inr (.inr ⟨by simp, foldlM_ok first fun _ _ _ => ⟨_, rfl⟩⟩)
  | absolute =>
      cases numbers with
      | nil => exact .inl ⟨rfl, rfl⟩
      | cons number numbers => exact .inr (.inr ⟨by simp, _, rfl⟩)

end SmallLisp
