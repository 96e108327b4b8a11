import SmallLisp.Proofs.Operands
import Mathlib.Algebra.BigOperators.Group.List.Basic
import Mathlib.Algebra.Order.Ring.Int

/-!
# Arithmetic on exact integers

Sums, products and differences wrap after each step. As wrapping keeps sums, differences and products, the result
is the exact one, wrapped once.

* `Arithmetic.Gives` says what an operation comes to for operands with given values, and `Arithmetic.gives_apply`
  computes it: first all values have to be integers, then the operation combines them;
* `foldl_wrapping`: wrapping after each step of a fold is wrapping at its end;
* `Arithmetic.Totals` is what sums and products have in common, and `Arithmetic.Totals.gives_iff_of_groups` says
  that it does not matter how the integers are grouped;
* `foldl_chosen`: an operation that chooses one of two integers at each step chooses one of all;
* `integer_arithmetic_wraps_once` is the main result.
-/

namespace SmallLisp

/-- Operands with these values make an operation come to this result, whatever they are and whatever evaluates
them, and only their evaluation changes the store. With `eval` as the evaluator this is about `apply`. -/
def Arithmetic.Gives (operation : Arithmetic) (values : List Value) (result : Except Halt Value) : Prop :=
  ∀ (ev : Evaluator) (operands : List Value) (frame : FrameId) (store after : Store),
    outcome (evalAll ev frame operands) store = (.ok values, after) →
      outcome (applyValue ev (.primitive (.strict (.arithmetic operation))) operands frame) store = (result, after)

section Values

variable {ev : Evaluator} {frame : FrameId} {store after : Store} {operands values : List Value}
variable {operation : Arithmetic} {result other : Except Halt Value}

/-- Values that are given as they are come to themselves. -/
theorem outcome_evalAll_given
    (values : List Value)
    (frame : FrameId)
    (store : Store) :
    outcome (evalAll (fun value _ => pure value) frame values) store = (.ok values, store) := by
  induction values with
  | nil => rfl
  | cons value values ih => exact outcome_evalAll_cons rfl ih

theorem toNumbers_integers
    (name : String)
    (numbers : List Int64) :
    toNumbers name (numbers.map .int) = .ok numbers := by
  unfold toNumbers
  rw [List.mapM_map]
  exact List.mapM_pure.trans (congrArg _ numbers.map_id')

/-- The first value that is no integer is refused. -/
theorem toNumbers_refused
    {refused : Value}
    (name : String)
    (numbers : List Int64)
    (hrefused : ∀ number, refused ≠ .int number)
    (rest : List Value) :
    toNumbers name (numbers.map .int ++ refused :: rest) =
      .error (Fault.notNumber name refused.describe).halt := by
  have hvalue : toNumber name refused = .error (Fault.notNumber name refused.describe).halt := by
    cases refused with
    | int number => exact (hrefused number rfl).elim
    | _ => rfl
  have hnumbers := toNumbers_integers name numbers
  unfold toNumbers at *
  rw [List.mapM_append, hnumbers, List.mapM_cons, hvalue]
  rfl

/-- Values are all integers, or there is a first one that is none. -/
theorem integers_or_refused (values : List Value) :
    (∃ numbers : List Int64, values = numbers.map .int) ∨
      ∃ (numbers : List Int64) (refused : Value) (rest : List Value),
        values = numbers.map .int ++ refused :: rest ∧ ∀ number, refused ≠ .int number := by
  induction values with
  | nil => exact .inl ⟨[], rfl⟩
  | cons value values ih =>
      cases value with
      | int number =>
          rcases ih with ⟨numbers, rfl⟩ | ⟨numbers, refused, rest, rfl, hrefused⟩
          · exact .inl ⟨number :: numbers, rfl⟩
          · exact .inr ⟨number :: numbers, refused, rest, rfl, hrefused⟩
      | _ => exact .inr ⟨[], _, values, rfl, nofun⟩

/-- An operation comes to one result. -/
theorem Arithmetic.Gives.unique
    (h : operation.Gives values result)
    (h' : operation.Gives values other) :
    result = other := by
  have hvalues := outcome_evalAll_given values ⟨0⟩ .empty
  exact congrArg Prod.fst ((h _ _ _ _ _ hvalues).symm.trans (h' _ _ _ _ _ hvalues))

theorem Arithmetic.Gives.iff_eq (h : operation.Gives values result) :
    operation.Gives values other ↔ result = other :=
  ⟨h.unique, fun hother => hother ▸ h⟩

/-- All values have to be integers before any of them are combined. -/
theorem Arithmetic.gives_apply
    (operation : Arithmetic)
    (values : List Value)
    (haccepts : operation.arity.accepts values.length = true) :
    operation.Gives values
      (toNumbers operation.name values >>= fun numbers => Value.int <$> operation.result numbers) := by
  intro ev operands frame store after hvalues
  unfold applyValue Primitive.apply
  rw [length_of_evalAll hvalues] at haccepts
  dsimp only
  rw [if_pos (by exact haccepts)]
  unfold Primitive.applyChecked Strict.apply
  dsimp only
  rw [outcome_bind_ok hvalues, outcome_bind, outcome_lift]
  cases toNumbers operation.name values with
  | error halt => rfl
  | ok numbers =>
      change outcome (liftM (operation.result numbers) >>= fun result => pure (Value.int result)) after =
        (Value.int <$> operation.result numbers, after)
      rw [outcome_bind, outcome_lift]
      cases operation.result numbers <;> rfl

/-- The operations except that of an absolute value take any number of operands, if at least one. -/
theorem Arithmetic.accepts_of_ne_nil
    (hoperation : operation ≠ .absolute)
    (hvalues : values ≠ []) :
    operation.arity.accepts values.length = true := by
  have hlength : 1 ≤ values.length := List.length_pos_of_ne_nil hvalues
  cases operation with
  | absolute => exact (hoperation rfl).elim
  | _ => simp [arity, Arity.accepts, hlength]

theorem Arithmetic.gives_refused
    {refused : Value}
    (hoperation : operation ≠ .absolute)
    (numbers : List Int64)
    (hrefused : ∀ number, refused ≠ .int number)
    (rest : List Value) :
    operation.Gives (numbers.map .int ++ refused :: rest)
      (.error (Fault.notNumber operation.name refused.describe).halt) := by
  have hgives := operation.gives_apply (numbers.map .int ++ refused :: rest)
    (accepts_of_ne_nil hoperation (List.append_ne_nil_of_right_ne_nil _ (List.cons_ne_nil _ _)))
  rw [toNumbers_refused operation.name numbers hrefused rest] at hgives
  exact hgives

theorem Arithmetic.gives_integers
    (numbers : List Int64)
    (haccepts : operation.arity.accepts numbers.length = true) :
    operation.Gives (numbers.map .int) (Value.int <$> operation.result numbers) := by
  have hgives := operation.gives_apply (numbers.map .int) (by rw [List.length_map, haccepts])
  rw [toNumbers_integers] at hgives
  exact hgives

theorem Arithmetic.gives_integer
    {numbers : List Int64}
    {number : Int64}
    (haccepts : operation.arity.accepts numbers.length = true)
    (hresult : operation.result numbers = .ok number) :
    operation.Gives (numbers.map .int) (.ok (.int number)) := by
  have hgives := gives_integers numbers haccepts
  rw [hresult] at hgives
  exact hgives

end Values

section Folds

/-- Where a step on exact integers can be taken on wrapped ones, wrapping may wait until the end of a fold. -/
theorem foldl_wrapping
    {step : Int64 → Int64 → Int64}
    {exact : Int → Int → Int}
    (hstep : ∀ a b, Int64.ofInt (exact a b) = step (.ofInt a) (.ofInt b))
    (start : Int)
    (integers : List Int) :
    (integers.map Int64.ofInt).foldl step (.ofInt start) = .ofInt (integers.foldl exact start) := by
  rw [List.foldl_map]
  exact List.foldl_hom Int64.ofInt fun a b => (hstep a b).symm

theorem map_ofInt_toInt (numbers : List Int64) :
    (numbers.map Int64.toInt).map Int64.ofInt = numbers := by
  rw [List.map_map]
  exact (List.map_congr_left fun number _ => number.ofInt_toInt).trans numbers.map_id

theorem foldl_sub_eq
    (start : Int)
    (integers : List Int) :
    integers.foldl (· - ·) start = start - integers.sum := by
  induction integers generalizing start with
  | nil => simp
  | cons integer integers ih => rw [List.foldl_cons, ih, List.sum_cons, Int.sub_sub]

/-- If each step chooses one of two integers that beats the other, the last choice is one of all integers that
beats all of them. -/
theorem foldl_chosen
    {choose : Int64 → Int64 → Int64}
    (beats : Int → Int → Prop)
    (hrefl : ∀ a, beats a a)
    (htrans : ∀ {a b c}, beats a b → beats b c → beats a c)
    (hchoose : ∀ a b, choose a b = a ∧ beats a.toInt b.toInt ∨ choose a b = b ∧ beats b.toInt a.toInt)
    (first : Int64)
    (numbers : List Int64) :
    numbers.foldl choose first ∈ first :: numbers ∧
      ∀ number ∈ first :: numbers, beats (numbers.foldl choose first).toInt number.toInt := by
  induction numbers generalizing first with
  | nil =>
      refine ⟨List.mem_cons_self, ?_⟩
      rintro number hnumber
      obtain rfl := List.mem_singleton.mp hnumber
      exact hrefl _
  | cons second numbers ih =>
      obtain ⟨hmem, hall⟩ := ih (choose first second)
      have hchosen := hall _ List.mem_cons_self
      have hfirst : beats (choose first second).toInt first.toInt := by
        rcases hchoose first second with ⟨hchoice, hbeats⟩ | ⟨hchoice, hbeats⟩ <;> rw [hchoice]
        · exact hrefl _
        · exact hbeats
      have hsecond : beats (choose first second).toInt second.toInt := by
        rcases hchoose first second with ⟨hchoice, hbeats⟩ | ⟨hchoice, hbeats⟩ <;> rw [hchoice]
        · exact hbeats
        · exact hrefl _
      rw [List.foldl_cons]
      refine ⟨?_, ?_⟩
      · rcases List.mem_cons.mp hmem with heq | hrest
        · rw [heq]
          rcases hchoose first second with ⟨hchoice, -⟩ | ⟨hchoice, -⟩ <;> simp [hchoice]
        · exact List.mem_cons_of_mem _ (List.mem_cons_of_mem _ hrest)
      · simp only [List.forall_mem_cons]
        exact ⟨htrans hchosen hfirst, htrans hchosen hsecond, fun number hnumber =>
          hall number (List.mem_cons_of_mem _ hnumber)⟩

end Folds

namespace Arithmetic

/-- An operation makes a total of any number of integers, with a step that can be taken on wrapped ones. The total
does not depend on their order, and totals of groups have the same total. -/
structure Totals (operation : Arithmetic) (total : List Int → Int) : Prop where
  accepts : ∀ count, operation.arity.accepts count = true
  result : ∀ integers : List Int, operation.result (integers.map Int64.ofInt) = .ok (.ofInt (total integers))
  perm : ∀ {integers others : List Int}, integers.Perm others → total integers = total others
  flatten : ∀ groups : List (List Int), total groups.flatten = total (groups.map total)

theorem totals_add : add.Totals List.sum where
  accepts _ := rfl
  result integers := by
    have hfold := foldl_wrapping Int64.ofInt_add 0 integers
    rw [← List.sum_eq_foldl] at hfold
    exact congrArg Except.ok hfold
  perm := List.Perm.sum_eq
  flatten _ := List.sum_flatten

theorem totals_multiply : multiply.Totals List.prod where
  accepts _ := rfl
  result integers := by
    have hfold := foldl_wrapping Int64.ofInt_mul 1 integers
    rw [← List.prod_eq_foldl] at hfold
    exact congrArg Except.ok hfold
  perm := List.Perm.prod_eq
  flatten _ := List.prod_flatten

namespace Totals

variable {operation : Arithmetic} {total : List Int → Int} (h : operation.Totals total)
include h

theorem gives (numbers : List Int64) :
    operation.Gives (numbers.map .int) (.ok (.int (.ofInt (total (numbers.map Int64.toInt))))) := by
  refine gives_integer (h.accepts _) ?_
  rw [← h.result, map_ofInt_toInt]

/-- Integers in another order have the same total. -/
theorem gives_iff_of_perm
    {numbers others : List Int64}
    (hperm : others.Perm numbers)
    (result : Except Halt Value) :
    operation.Gives (others.map .int) result ↔ operation.Gives (numbers.map .int) result := by
  rw [(h.gives others).iff_eq, (h.gives numbers).iff_eq, h.perm (hperm.map _)]

/-- Integers that are equal up to wrapping have totals that are equal up to wrapping. -/
theorem ofInt_congr
    {integers others : List Int}
    (hwrapped : integers.map Int64.ofInt = others.map Int64.ofInt) :
    Int64.ofInt (total integers) = Int64.ofInt (total others) := by
  have hresult := h.result integers
  rw [hwrapped, h.result] at hresult
  exact (Except.ok.inj hresult).symm

/-- The totals of groups of integers have the total of all of them. -/
theorem gives_iff_of_groups
    {groups : List (List Int64)}
    {parts : List Int64}
    (hparts : List.Forall₂ (fun group part => operation.Gives (group.map .int) (.ok (.int part))) groups parts)
    (result : Except Halt Value) :
    operation.Gives (parts.map .int) result ↔ operation.Gives (groups.flatten.map .int) result := by
  have hwrapped : parts = ((groups.map (List.map Int64.toInt)).map total).map Int64.ofInt := by
    induction hparts with
    | nil => rfl
    | @cons group part groups parts hpart _ ih =>
        cases (h.gives group).unique hpart
        rw [List.map_cons, List.map_cons, List.map_cons, ← ih]
  have htotal : Int64.ofInt (total (parts.map Int64.toInt)) =
      .ofInt (total (groups.flatten.map Int64.toInt)) := by
    rw [List.map_flatten, h.flatten]
    exact h.ofInt_congr ((map_ofInt_toInt parts).trans hwrapped)
  rw [(h.gives parts).iff_eq, (h.gives groups.flatten).iff_eq, htotal]

end Totals

theorem result_subtract_cons
    (first second : Int64)
    (numbers : List Int64) :
    subtract.result (first :: second :: numbers) =
      .ok (.ofInt (first.toInt - ((second :: numbers).map Int64.toInt).sum)) := by
  have hfold := foldl_wrapping Int64.ofInt_sub first.toInt ((second :: numbers).map Int64.toInt)
  rw [map_ofInt_toInt, Int64.ofInt_toInt, foldl_sub_eq] at hfold
  rw [← hfold]
  exact List.foldlM_pure

theorem result_subtract_singleton (number : Int64) :
    subtract.result [number] = .ok (.ofInt (-number.toInt)) := by
  rw [Int64.ofInt_neg, Int64.ofInt_toInt]
  rfl

theorem result_maximum
    (first : Int64)
    (numbers : List Int64) :
    ∃ greatest ∈ first :: numbers, maximum.result (first :: numbers) = .ok greatest ∧
      ∀ number ∈ first :: numbers, number.toInt ≤ greatest.toInt := by
  let larger (a b : Int64) : Int64 := if a < b then b else a
  have hlarger : ∀ a b : Int64, larger a b = a ∧ a.toInt ≥ b.toInt ∨ larger a b = b ∧ b.toInt ≥ a.toInt := by
    intro a b
    by_cases hless : a < b
    · exact .inr ⟨if_pos hless, Int.le_of_lt (Int64.lt_iff_toInt_lt.mp hless)⟩
    · exact .inl ⟨if_neg hless, Int.not_lt.mp (mt Int64.lt_iff_toInt_lt.mpr hless)⟩
  obtain ⟨hmem, hgreatest⟩ :=
    foldl_chosen (· ≥ ·) Int.le_refl (fun hab hbc => ge_trans hab hbc) hlarger first numbers
  exact ⟨_, hmem, List.foldlM_pure, hgreatest⟩

theorem result_minimum
    (first : Int64)
    (numbers : List Int64) :
    ∃ least ∈ first :: numbers, minimum.result (first :: numbers) = .ok least ∧
      ∀ number ∈ first :: numbers, least.toInt ≤ number.toInt := by
  let smaller (a b : Int64) : Int64 := if b < a then b else a
  have hsmaller : ∀ a b : Int64, smaller a b = a ∧ a.toInt ≤ b.toInt ∨ smaller a b = b ∧ b.toInt ≤ a.toInt := by
    intro a b
    by_cases hless : b < a
    · exact .inr ⟨if_pos hless, Int.le_of_lt (Int64.lt_iff_toInt_lt.mp hless)⟩
    · exact .inl ⟨if_neg hless, Int.not_lt.mp (mt Int64.lt_iff_toInt_lt.mpr hless)⟩
  obtain ⟨hmem, hleast⟩ := foldl_chosen (· ≤ ·) Int.le_refl Int.le_trans hsmaller first numbers
  exact ⟨_, hmem, List.foldlM_pure, hleast⟩

end Arithmetic

/-- Whatever the operands do, if they come to integers the operations come to what exact arithmetic says, wrapped
to 64 bits once: sums and products of any number of integers, the negation of one integer, and the difference of
one integer and the sum of others. Neither order nor grouping matters to sums and products. The greatest and the
least of some integers are themselves. If the values are not all integers, the first one that is not is reported,
wherever it stands. -/
theorem integer_arithmetic_wraps_once (numbers : List Int64) :
    Arithmetic.add.Gives (numbers.map .int) (.ok (.int (.ofInt (numbers.map Int64.toInt).sum))) ∧
      Arithmetic.multiply.Gives (numbers.map .int) (.ok (.int (.ofInt (numbers.map Int64.toInt).prod))) ∧
      (∀ number : Int64, Arithmetic.subtract.Gives [.int number] (.ok (.int (.ofInt (-number.toInt))))) ∧
      (∀ first : Int64, numbers ≠ [] →
        Arithmetic.subtract.Gives (.int first :: numbers.map .int)
          (.ok (.int (.ofInt (first.toInt - (numbers.map Int64.toInt).sum))))) ∧
      (∀ operation : Arithmetic, operation = .add ∨ operation = .multiply → ∀ result,
        (∀ others : List Int64, others.Perm numbers →
          (operation.Gives (others.map .int) result ↔ operation.Gives (numbers.map .int) result)) ∧
        ∀ (groups : List (List Int64)) (parts : List Int64), groups.flatten = numbers →
          List.Forall₂ (fun group part => operation.Gives (group.map .int) (.ok (.int part))) groups parts →
            (operation.Gives (parts.map .int) result ↔ operation.Gives (numbers.map .int) result)) ∧
      (numbers ≠ [] → ∃ greatest ∈ numbers,
        Arithmetic.maximum.Gives (numbers.map .int) (.ok (.int greatest)) ∧
          ∀ number ∈ numbers, number.toInt ≤ greatest.toInt) ∧
      (numbers ≠ [] → ∃ least ∈ numbers,
        Arithmetic.minimum.Gives (numbers.map .int) (.ok (.int least)) ∧
          ∀ number ∈ numbers, least.toInt ≤ number.toInt) ∧
      ∀ (operation : Arithmetic) (refused : Value) (rest : List Value),
        operation ≠ .absolute → (∀ number, refused ≠ .int number) →
          (Fault.notNumber operation.name refused.describe).kind = .runtime ∧
            operation.Gives (numbers.map .int ++ refused :: rest)
              (.error (Fault.notNumber operation.name refused.describe).halt) := by
  refine ⟨Arithmetic.totals_add.gives numbers, Arithmetic.totals_multiply.gives numbers, ?_, ?_, ?_, ?_, ?_, ?_⟩
  · intro number
    exact Arithmetic.gives_integer rfl (Arithmetic.result_subtract_singleton number)
  · intro first hnumbers
    obtain ⟨second, rest, rfl⟩ := List.exists_cons_of_ne_nil hnumbers
    exact Arithmetic.gives_integer rfl (Arithmetic.result_subtract_cons first second rest)
  · intro operation hoperation result
    have htotals : ∃ total, operation.Totals total := by
      rcases hoperation with rfl | rfl
      · exact ⟨_, Arithmetic.totals_add⟩
      · exact ⟨_, Arithmetic.totals_multiply⟩
    obtain ⟨total, htotals⟩ := htotals
    refine ⟨fun others hperm => htotals.gives_iff_of_perm hperm result, ?_⟩
    rintro groups parts rfl hparts
    exact htotals.gives_iff_of_groups hparts result
  · intro hnumbers
    obtain ⟨first, rest, rfl⟩ := List.exists_cons_of_ne_nil hnumbers
    obtain ⟨greatest, hmem, hresult, hgreatest⟩ := Arithmetic.result_maximum first rest
    exact ⟨greatest, hmem, Arithmetic.gives_integer rfl hresult, hgreatest⟩
  · intro hnumbers
    obtain ⟨first, rest, rfl⟩ := List.exists_cons_of_ne_nil hnumbers
    obtain ⟨least, hmem, hresult, hleast⟩ := Arithmetic.result_minimum first rest
    exact ⟨least, hmem, Arithmetic.gives_integer rfl hresult, hleast⟩
  · intro operation refused rest hoperation hrefused
    exact ⟨rfl, Arithmetic.gives_refused hoperation numbers hrefused rest⟩

/-- One more than the greatest integer is the least one, which is its own negation. Adding one to the greatest
integer before or after taking one away makes no difference, and of two values that are no integers the first one
is reported. -/
theorem integer_arithmetic_wraps_once_beyond_the_bounds :
    let numbers : List Int64 := [Int64.maxValue, 1, -1]
    let parts : List Int64 := [Int64.minValue, -1]
    let applied (operation : Arithmetic) (operands : List Value) :=
      outcome (apply 1 (.primitive (.strict (.arithmetic operation))) operands ⟨0⟩) .empty
    applied .add (numbers.map .int) = (.ok (.int Int64.maxValue), .empty) ∧
      applied .add (parts.map .int) = (.ok (.int Int64.maxValue), .empty) ∧
      applied .subtract [.int Int64.minValue] = (.ok (.int Int64.minValue), .empty) ∧
      (∃ greatest ∈ numbers, applied .maximum (numbers.map .int) = (.ok (.int greatest), .empty)) ∧
      applied .multiply (numbers.map .int ++ [.bool true, .bool false]) =
        (.error (Fault.notNumber "*" (Value.bool true).describe).halt, .empty) := by
  intro numbers parts applied
  obtain ⟨hadd, -, hnegation, -, hregard, hmaximum, -, hrefused⟩ := integer_arithmetic_wraps_once numbers
  have hfirst : Arithmetic.add.Gives ([Int64.maxValue, 1].map .int) (.ok (.int Int64.minValue)) :=
    (integer_arithmetic_wraps_once [Int64.maxValue, 1]).1
  have hsecond : Arithmetic.add.Gives ([-1].map .int) (.ok (.int (-1))) :=
    (integer_arithmetic_wraps_once [-1]).1
  obtain ⟨-, hgroups⟩ := hregard .add (.inl rfl) (.ok (.int Int64.maxValue))
  have hparts : Arithmetic.add.Gives (parts.map .int) (.ok (.int Int64.maxValue)) :=
    (hgroups [[Int64.maxValue, 1], [-1]] parts rfl (.cons hfirst (.cons hsecond .nil))).mpr hadd
  obtain ⟨greatest, hmem, hgreatest, -⟩ := hmaximum (List.cons_ne_nil _ _)
  obtain ⟨-, htrue⟩ := hrefused .multiply (.bool true) [.bool false] nofun nofun
  exact ⟨hadd (eval 1) _ ⟨0⟩ .empty .empty rfl, hparts (eval 1) _ ⟨0⟩ .empty .empty rfl,
    hnegation Int64.minValue (eval 1) _ ⟨0⟩ .empty .empty rfl,
    ⟨greatest, hmem, hgreatest (eval 1) _ ⟨0⟩ .empty .empty rfl⟩, htrue (eval 1) _ ⟨0⟩ .empty .empty rfl⟩

end SmallLisp
