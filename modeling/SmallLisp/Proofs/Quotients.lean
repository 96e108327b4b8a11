import SmallLisp.Proofs.Wrapping

/-!
# Division by many divisors

Dividing by one divisor after another is dividing once by their product, also where the product is far beyond 64
bits. What can come in between is the one quotient of 64-bit integers that is none.

* `wrappingQuotient` is the quotient of exact integers, but for this one;
* `foldl_wrappingQuotient_eq`: where it is not met, one division by the product does as well;
* `natAbs_foldl_wrappingQuotient_le`: as quotients do not grow, it is not met unless the dividend is the least
  integer;
* `division_is_by_the_product` is the main result.
-/

namespace SmallLisp

/-- The quotient of two integers, truncated toward zero. The negation of the least 64-bit integer is taken to be
this integer. -/
def wrappingQuotient (dividend divisor : Int) : Int :=
  if dividend = -2 ^ 63 ∧ divisor = -1 then -2 ^ 63 else dividend.tdiv divisor

section Integers

/-- Truncated twice or once, a quotient is the same. -/
theorem tdiv_tdiv (a b c : Int) : (a.tdiv b).tdiv c = a.tdiv (b * c) := by
  have hnatural : ∀ m n k : Nat, ((m : Int).tdiv n).tdiv k = (m : Int).tdiv (n * k) := by
    intro m n k
    rw [← Int.natCast_mul, ← Int.ofNat_tdiv, ← Int.ofNat_tdiv, ← Int.ofNat_tdiv, Nat.div_div_eq_div_mul]
  obtain ⟨m, rfl | rfl⟩ := a.eq_nat_or_neg <;> obtain ⟨n, rfl | rfl⟩ := b.eq_nat_or_neg <;>
    obtain ⟨k, rfl | rfl⟩ := c.eq_nat_or_neg <;>
    simp only [Int.neg_tdiv, Int.tdiv_neg, Int.neg_mul, Int.mul_neg, Int.neg_neg, hnatural]

theorem natAbs_wrappingQuotient_le (dividend divisor : Int) :
    (wrappingQuotient dividend divisor).natAbs ≤ dividend.natAbs := by
  unfold wrappingQuotient
  split
  case isTrue h => exact Nat.le_of_eq (congrArg Int.natAbs h.1.symm)
  · exact Int.natAbs_tdiv_le_natAbs dividend divisor

theorem natAbs_foldl_wrappingQuotient_le
    (dividend : Int)
    (divisors : List Int) :
    (divisors.foldl wrappingQuotient dividend).natAbs ≤ dividend.natAbs := by
  induction divisors generalizing dividend with
  | nil => exact Nat.le_refl _
  | cons divisor divisors ih =>
      exact Nat.le_trans (ih (wrappingQuotient dividend divisor)) (natAbs_wrappingQuotient_le dividend divisor)

/-- Some step divides the least 64-bit integer by minus one. -/
def Overflows (dividend : Int) (divisors : List Int) : Prop :=
  ∃ before rest, divisors = before ++ -1 :: rest ∧ before.foldl wrappingQuotient dividend = -2 ^ 63

/-- If no step overflows, one step is enough. -/
theorem foldl_wrappingQuotient_eq
    {dividend : Int}
    {divisors : List Int}
    (h : ¬Overflows dividend divisors) :
    divisors.foldl wrappingQuotient dividend = dividend.tdiv divisors.prod := by
  induction divisors generalizing dividend with
  | nil => simp
  | cons divisor divisors ih =>
      have hfirst : wrappingQuotient dividend divisor = dividend.tdiv divisor := by
        unfold wrappingQuotient
        rw [if_neg]
        rintro ⟨hdividend, rfl⟩
        exact h ⟨[], divisors, rfl, hdividend⟩
      have hrest : ¬Overflows (dividend.tdiv divisor) divisors := by
        rintro ⟨before, rest, rfl, hbefore⟩
        exact h ⟨divisor :: before, rest, rfl, by rw [List.foldl_cons, hfirst, hbefore]⟩
      rw [List.foldl_cons, hfirst, ih hrest, tdiv_tdiv, List.prod_cons]

/-- Quotients do not grow, so only from the least integer one comes to the least integer. -/
theorem not_overflows
    {dividend : Int}
    (hdividend : dividend.natAbs < 2 ^ 63)
    (divisors : List Int) :
    ¬Overflows dividend divisors := by
  rintro ⟨before, rest, -, hbefore⟩
  have hle := natAbs_foldl_wrappingQuotient_le dividend before
  rw [hbefore] at hle
  omega

end Integers

/-- What the machine computes is the quotient of exact integers but for the one that wraps. -/
theorem toInt_div_eq_wrappingQuotient (dividend divisor : Int64) :
    (dividend / divisor).toInt = wrappingQuotient dividend.toInt divisor.toInt := by
  unfold wrappingQuotient
  split
  case isTrue h =>
    obtain ⟨hdividend, hdivisor⟩ := h
    have hleast : dividend = Int64.minValue := Int64.toInt_inj.mp (hdividend.trans Int64.toInt_minValue.symm)
    have hminus : divisor = -1 := Int64.toInt_inj.mp hdivisor
    rw [hleast, hminus]
    rfl
  case isFalse h =>
    by_cases hleast : dividend = Int64.minValue
    · refine Int64.toInt_div_of_ne_right dividend divisor ?_
      rintro rfl
      exact h ⟨by rw [hleast, Int64.toInt_minValue], rfl⟩
    · exact Int64.toInt_div_of_ne_left dividend divisor hleast

/-- Without a zero among the divisors there is a quotient. -/
theorem foldlM_checkedQuotient
    {divisors : List Int64}
    (dividend : Int64)
    (hzero : 0 ∉ divisors) :
    ∃ quotient, divisors.foldlM checkedQuotient dividend = .ok quotient ∧
      quotient.toInt = (divisors.map Int64.toInt).foldl wrappingQuotient dividend.toInt := by
  induction divisors generalizing dividend with
  | nil => exact ⟨dividend, rfl, rfl⟩
  | cons divisor divisors ih =>
      obtain ⟨hdivisor, hdivisors⟩ := not_or.mp (mt List.mem_cons.mpr hzero)
      obtain ⟨quotient, hquotient, hvalue⟩ := ih (dividend / divisor) hdivisors
      refine ⟨quotient, ?_, ?_⟩
      · rw [List.foldlM_cons, checkedQuotient_eq, if_neg (Ne.symm hdivisor)]
        exact hquotient
      · rw [hvalue, toInt_div_eq_wrappingQuotient, List.map_cons, List.foldl_cons]

namespace Arithmetic

theorem divide_gives_zero
    (dividend : Int64)
    {divisors : List Int64}
    (hzero : 0 ∈ divisors) :
    divide.Gives ((dividend :: divisors).map .int) (.error Fault.divisionByZero.halt) := by
  have hresult : divide.result (dividend :: divisors) = .error Fault.divisionByZero.halt :=
    foldlM_checkedQuotient_zero dividend hzero
  have hgives : divide.Gives _ (Value.int <$> divide.result _) := gives_integers (dividend :: divisors) rfl
  rw [hresult] at hgives
  exact hgives

theorem divide_gives_quotient
    (dividend : Int64)
    {divisors : List Int64}
    (hzero : 0 ∉ divisors) :
    ∃ quotient : Int64, divide.Gives ((dividend :: divisors).map .int) (.ok (.int quotient)) ∧
      quotient.toInt = (divisors.map Int64.toInt).foldl wrappingQuotient dividend.toInt ∧
      (dividend.toInt ≠ -2 ^ 63 ∨ ¬Overflows dividend.toInt (divisors.map Int64.toInt) →
        quotient.toInt = dividend.toInt.tdiv (divisors.map Int64.toInt).prod) := by
  obtain ⟨quotient, hquotient, hvalue⟩ := foldlM_checkedQuotient dividend hzero
  refine ⟨quotient, gives_integer rfl hquotient, hvalue, ?_⟩
  intro h
  rw [hvalue]
  refine foldl_wrappingQuotient_eq ?_
  rcases h with hleast | hoverflows
  · have hlow : -2 ^ 63 ≤ dividend.toInt := dividend.le_toInt
    have hhigh : dividend.toInt < 2 ^ 63 := dividend.toInt_lt
    exact not_overflows (by omega) _
  · exact hoverflows

theorem divide_fails_iff
    (dividend : Value)
    (divisors : List Value) :
    (∃ fault : Fault, fault.kind = .runtime ∧ divide.Gives (dividend :: divisors) (.error fault.halt)) ↔
      (∃ value ∈ dividend :: divisors, ∀ number, value ≠ .int number) ∨ .int 0 ∈ divisors := by
  rcases integers_or_refused (dividend :: divisors) with hintegers | ⟨numbers, refused, rest, hsplit, hrefused⟩
  · obtain ⟨numbers, hnumbers⟩ := hintegers
    obtain ⟨first, rest, rfl, rfl, rfl⟩ := List.map_eq_cons_iff.mp hnumbers.symm
    refine ⟨?_, ?_⟩
    · rintro ⟨fault, -, hfails⟩
      by_cases hzero : 0 ∈ rest
      · exact .inr (List.mem_map_of_mem hzero)
      · obtain ⟨quotient, hquotient, -⟩ := divide_gives_quotient first hzero
        cases hfails.unique hquotient
    · rintro (⟨value, hvalue, hrefused⟩ | hzero)
      · obtain ⟨number, -, rfl⟩ := List.mem_map.mp (hnumbers ▸ hvalue)
        exact (hrefused number rfl).elim
      · obtain ⟨number, hnumber, ⟨⟩⟩ := List.mem_map.mp hzero
        exact ⟨.divisionByZero, rfl, divide_gives_zero first hnumber⟩
  · rw [hsplit]
    refine ⟨fun _ => .inl ⟨refused, List.mem_append_right _ List.mem_cons_self, hrefused⟩, ?_⟩
    exact fun _ => ⟨_, rfl, gives_refused (by decide) numbers hrefused rest⟩

end Arithmetic

/-- Division fails exactly if some value is no integer or some divisor is zero; the first value that is no integer
is reported, also where a divisor is zero. Otherwise its result is what dividing by one divisor after the other
comes to, truncating toward zero at each step and taking the negation of the least 64-bit integer to be this
integer. This is one quotient by the exact product of all divisors, however large the product is, unless the
dividend is the least integer and some step divides it by minus one. -/
theorem division_is_by_the_product
    (dividend : Value)
    (divisors : List Value) :
    ((∃ fault : Fault, fault.kind = .runtime ∧
          Arithmetic.divide.Gives (dividend :: divisors) (.error fault.halt)) ↔
        (∃ value ∈ dividend :: divisors, ∀ number, value ≠ .int number) ∨ .int 0 ∈ divisors) ∧
      (∀ (numbers : List Int64) (refused : Value) (rest : List Value),
        dividend :: divisors = numbers.map .int ++ refused :: rest → (∀ number, refused ≠ .int number) →
          Arithmetic.divide.Gives (dividend :: divisors)
            (.error (Fault.notNumber Arithmetic.divide.name refused.describe).halt)) ∧
      ∀ (first : Int64) (rest : List Int64), dividend = .int first → divisors = rest.map .int →
        (0 ∈ rest →
          Arithmetic.divide.Gives (dividend :: divisors) (.error Fault.divisionByZero.halt)) ∧
        (0 ∉ rest → ∃ quotient : Int64,
          Arithmetic.divide.Gives (dividend :: divisors) (.ok (.int quotient)) ∧
            quotient.toInt = (rest.map Int64.toInt).foldl wrappingQuotient first.toInt ∧
            (first.toInt ≠ -2 ^ 63 ∨ ¬Overflows first.toInt (rest.map Int64.toInt) →
              quotient.toInt = first.toInt.tdiv (rest.map Int64.toInt).prod)) := by
  refine ⟨Arithmetic.divide_fails_iff dividend divisors, ?_, ?_⟩
  · intro numbers refused rest hsplit hrefused
    rw [hsplit]
    exact Arithmetic.gives_refused (by decide) numbers hrefused rest
  · rintro first rest rfl rfl
    exact ⟨Arithmetic.divide_gives_zero first, Arithmetic.divide_gives_quotient first⟩

/-- A quotient by a product that is far beyond 64 bits is zero. From the least integer, divided first by minus one
and then by two, one comes to half of it and not to the half of its negation. Dividing by zero is an error, but a
divisor that is no integer is reported instead. -/
theorem division_is_by_the_product_or_wraps :
    let applied (operands : List Value) :=
      outcome (apply 1 (.primitive (.strict (.arithmetic .divide))) operands ⟨0⟩) .empty
    let large : Int64 := 4294967296
    applied [.int (-7), .int large, .int large, .int large] = (.ok (.int 0), .empty) ∧
      applied [.int Int64.minValue, .int (-1), .int 2] = (.ok (.int (-4611686018427387904)), .empty) ∧
      applied [.int 7, .int 0] = (.error Fault.divisionByZero.halt, .empty) ∧
      applied [.int 7, .int 0, .bool true] =
        (.error (Fault.notNumber "/" (Value.bool true).describe).halt, .empty) := by
  intro applied large
  refine ⟨?_, ?_, ?_, ?_⟩
  · obtain ⟨-, -, hintegers⟩ := division_is_by_the_product (.int (-7)) [.int large, .int large, .int large]
    obtain ⟨-, hquotient⟩ := hintegers (-7) [large, large, large] rfl rfl
    obtain ⟨quotient, hgives, -, hexact⟩ := hquotient (by decide)
    have hvalue : quotient = 0 := Int64.toInt_inj.mp ((hexact (.inl (by decide))).trans (by decide))
    rw [← hvalue]
    exact hgives (eval 1) _ ⟨0⟩ .empty .empty rfl
  · obtain ⟨-, -, hintegers⟩ := division_is_by_the_product (.int Int64.minValue) [.int (-1), .int 2]
    obtain ⟨-, hquotient⟩ := hintegers Int64.minValue [-1, 2] rfl rfl
    obtain ⟨quotient, hgives, hsteps, -⟩ := hquotient (by decide)
    have hvalue : quotient = -4611686018427387904 := Int64.toInt_inj.mp (hsteps.trans (by decide))
    rw [← hvalue]
    exact hgives (eval 1) _ ⟨0⟩ .empty .empty rfl
  · obtain ⟨-, -, hintegers⟩ := division_is_by_the_product (.int 7) [.int 0]
    exact (hintegers 7 [0] rfl rfl).1 (by decide) (eval 1) _ ⟨0⟩ .empty .empty rfl
  · obtain ⟨-, hrefused, -⟩ := division_is_by_the_product (.int 7) [.int 0, .bool true]
    exact hrefused [7, 0] (.bool true) [] rfl nofun (eval 1) _ ⟨0⟩ .empty .empty rfl

end SmallLisp
