import SmallLisp.Proofs.Operands
import Mathlib.Data.Int.Order.Basic
import Mathlib.Data.List.Chain

/-!
# Stopping at the operand that decides

Comparisons and connectives evaluate their operands one at a time and stop at the first one that decides the
result. What an operand comes to may depend on all that the operands before it have done, so this is said about
values in successive stores, and about every evaluator: also about one that keeps a record of what it is asked
for. Each kind of primitive has a rule that says when a value decides, given the values before it.

* `Undecided` says that operands are evaluated to values none of which decides, `StopsAfter` that a value decides,
  or an evaluation halts, or no value decides; `StopsAfter.unique`: one of these is the case, in one way;
* `Scans` lists what a primitive has to do with the next operand, and `Scans.stopsOnceDecided` is what follows
  for all operands;
* `Comparison.scans_apply` and `Connective.scans_apply`: both kinds of primitive go by their rules;
* `Comparison.undecided_iff_pairwise`: if no operand decides a comparison, all of them stand in order;
* `incremental_primitives_stop_once_decided` is the main result.
-/

namespace SmallLisp

/-- When a value decides the result, given the values before it. -/
abbrev DecisionRule := List Value → Value → Except Halt Value → Prop

section Operands

variable (rule : DecisionRule) (ev : Evaluator) (frame : FrameId)

/-- The operands are evaluated from left to right, once each, and none of their values decides. -/
def Undecided (store : Store) (operands values : List Value) (after : Store) : Prop :=
  outcome (evalAll ev frame operands) store = (.ok values, after) ∧
    ∀ front value back result, values = front ++ value :: back → ¬rule front value result

/-- The next operand settles the result: its evaluation halts, or its value decides. -/
inductive SettledBy (values : List Value) (next : Value) (store : Store) : Except Halt Value → Store → Prop
  | halted
      {halt : Halt}
      {after : Store}
      (hnext : outcome (ev next frame) store = (.error halt, after)) :
      SettledBy values next store (.error halt) after
  | decided
      {value : Value}
      {result : Except Halt Value}
      {after : Store}
      (hnext : outcome (ev next frame) store = (.ok value, after))
      (hrule : rule values value result) :
      SettledBy values next store result after

/-- The operands that are evaluated, with the result and the store afterwards. They end with the first one that
settles the result; if there is none, they are all operands, and the result is made of their values. -/
inductive StopsAfter
    (final : List Value → Value)
    (store : Store)
    (operands : List Value) :
    List Value → Except Halt Value → Store → Prop
  | settled
      {before rest values : List Value}
      {last : Value}
      {middle after : Store}
      {result : Except Halt Value}
      (hoperands : operands = before ++ last :: rest)
      (hbefore : Undecided rule ev frame store before values middle)
      (hlast : SettledBy rule ev frame values last middle result after) :
      StopsAfter final store operands (before ++ [last]) result after
  | through
      {values : List Value}
      {after : Store}
      (hall : Undecided rule ev frame store operands values after) :
      StopsAfter final store operands operands (.ok (final values)) after

/-- An evaluation of operands stops after some of the first ones, and after these in no other way. What it does to
the store is what their evaluation does. -/
def StopsOnceDecided
    (final : List Value → Value)
    (store : Store)
    (operands : List Value)
    (run : Except Halt Value × Store) :
    Prop :=
  ∃ evaluated,
    StopsAfter rule ev frame final store operands evaluated run.1 run.2 ∧
      evaluated <+: operands ∧
      run.2 = (outcome (evalAll ev frame evaluated) store).2 ∧
      ∀ others result after, StopsAfter rule ev frame final store operands others result after →
        others = evaluated ∧ (result, after) = run

/-- What evaluating operands one at a time comes to: `run values` goes on after operands with these values. -/
structure Scans (final : List Value → Value) (run : List Value → List Value → EvalM Value) : Prop where
  nil : ∀ values store, outcome (run values []) store = (.ok (final values), store)
  settled : ∀ {values next rest store result after},
    SettledBy rule ev frame values next store result after →
      outcome (run values (next :: rest)) store = (result, after)
  undecided : ∀ {values next rest value store after},
    outcome (ev next frame) store = (.ok value, after) →
      (∀ result, ¬rule values value result) →
        outcome (run values (next :: rest)) store = outcome (run (values ++ [value]) rest) after

end Operands

section Prefixes

variable {rule : DecisionRule} {ev : Evaluator} {frame : FrameId} {store middle after : Store}
variable {operands before rest values seen evaluated : List Value} {last : Value} {result : Except Halt Value}
variable {final : List Value → Value}

/-- Operands in two parts are evaluated one part after the other. -/
theorem evalAll_append
    (ev : Evaluator)
    (frame : FrameId)
    (before rest : List Value) :
    evalAll ev frame (before ++ rest) =
      (do
        let values ← evalAll ev frame before
        let more ← evalAll ev frame rest
        pure (values ++ more)) := by
  induction before with
  | nil => simp [evalAll]
  | cons expression before ih => simp [evalAll, ih]

theorem outcome_evalAll_append
    (hbefore : outcome (evalAll ev frame before) store = (.ok values, middle)) :
    outcome (evalAll ev frame (before ++ rest)) store =
      outcome (evalAll ev frame rest >>= fun more => pure (values ++ more)) middle := by
  rw [evalAll_append, outcome_bind_ok hbefore]

theorem exists_of_evalAll_append
    (h : outcome (evalAll ev frame (before ++ rest)) store = (.ok seen, after)) :
    ∃ values more middle, seen = values ++ more ∧
      outcome (evalAll ev frame before) store = (.ok values, middle) ∧
      outcome (evalAll ev frame rest) middle = (.ok more, after) := by
  rw [evalAll_append, outcome_bind] at h
  rcases hbefore : outcome (evalAll ev frame before) store with ⟨halt | values, middle⟩ <;>
    rw [hbefore] at h
  · cases h
  dsimp only at h
  rw [outcome_bind] at h
  rcases hrest : outcome (evalAll ev frame rest) middle with ⟨halt | more, last⟩ <;> rw [hrest] at h
  · cases h
  · cases h
    exact ⟨values, more, middle, rfl, rfl, hrest⟩

/-- The first ones of undecided operands are undecided. -/
theorem Undecided.of_append (h : Undecided rule ev frame store (before ++ rest) seen after) :
    ∃ values middle, Undecided rule ev frame store before values middle := by
  obtain ⟨hevaluated, hrule⟩ := h
  obtain ⟨values, more, middle, rfl, hbefore, -⟩ := exists_of_evalAll_append hevaluated
  refine ⟨values, middle, hbefore, ?_⟩
  rintro front value back result rfl
  exact hrule front value (back ++ more) result (by rw [List.append_assoc, List.cons_append])

/-- With one more operand they stay undecided if its value does not decide. -/
theorem undecided_concat_iff :
    Undecided rule ev frame store (before ++ [last]) seen after ↔
      ∃ values value middle, seen = values ++ [value] ∧
        Undecided rule ev frame store before values middle ∧
        outcome (ev last frame) middle = (.ok value, after) ∧
        ∀ result, ¬rule values value result := by
  refine ⟨?_, ?_⟩
  · rintro ⟨hevaluated, hrule⟩
    obtain ⟨values, more, middle, rfl, hbefore, hmore⟩ := exists_of_evalAll_append hevaluated
    obtain ⟨value, _, _, rfl, hlast, ⟨⟩⟩ := exists_of_evalAll_cons hmore
    refine ⟨values, value, middle, rfl, ⟨hbefore, ?_⟩, hlast, fun result => hrule values value [] result rfl⟩
    rintro front other back result rfl
    exact hrule front other (back ++ [value]) result (by rw [List.append_assoc, List.cons_append])
  · rintro ⟨values, value, middle, rfl, ⟨hbefore, hrule⟩, hlast, hopen⟩
    refine ⟨?_, ?_⟩
    · rw [outcome_evalAll_append hbefore, outcome_bind_ok (outcome_evalAll_singleton hlast), outcome_pure]
    · intro front other back result hsplit
      rcases List.eq_nil_or_concat back with rfl | ⟨back, next, rfl⟩
      · obtain ⟨rfl, ⟨⟩⟩ := List.append_inj' hsplit rfl
        exact hopen result
      · rw [List.concat_eq_append, ← List.cons_append, ← List.append_assoc] at hsplit
        obtain ⟨rfl, -⟩ := List.append_inj' hsplit rfl
        exact hrule front other back result rfl

theorem undecided_nil : Undecided rule ev frame store [] [] store := by
  refine ⟨rfl, ?_⟩
  intro front value back result hsplit
  cases List.append_eq_nil_iff.mp hsplit.symm with
  | intro _ hcons => cases hcons

/-- Where an operand settles the result, the operands up to it are not undecided. -/
theorem SettledBy.not_undecided
    (h : SettledBy rule ev frame values last middle result after)
    (hbefore : Undecided rule ev frame store before values middle)
    (seen : List Value)
    (later : Store) :
    ¬Undecided rule ev frame store (before ++ [last]) seen later := by
  rw [undecided_concat_iff]
  rintro ⟨others, value, reached, -, hothers, hvalue, hopen⟩
  cases hbefore.1.symm.trans hothers.1
  cases h with
  | halted hnext => cases hnext.symm.trans hvalue
  | decided hnext hrule =>
      cases hnext.symm.trans hvalue
      exact hopen _ hrule

/-- Evaluation stops somewhere, if not at an operand then behind the last one. -/
theorem exists_stopsAfter_of_undecided
    (hbefore : Undecided rule ev frame store before values middle)
    (rest : List Value) :
    ∃ evaluated result after,
      StopsAfter rule ev frame final store (before ++ rest) evaluated result after := by
  induction rest generalizing before values middle with
  | nil =>
      rw [List.append_nil]
      exact ⟨before, _, middle, .through hbefore⟩
  | cons next rest ih =>
      rcases hnext : outcome (ev next frame) middle with ⟨halt | value, after⟩
      · exact ⟨_, _, after, .settled rfl hbefore (.halted hnext)⟩
      · by_cases hrule : ∃ result, rule values value result
        · obtain ⟨result, hrule⟩ := hrule
          exact ⟨_, result, after, .settled rfl hbefore (.decided hnext hrule)⟩
        · have hlonger : Undecided rule ev frame store (before ++ [next]) (values ++ [value]) after :=
            undecided_concat_iff.mpr ⟨values, value, middle, rfl, hbefore, hnext, not_exists.mp hrule⟩
          have hstops := ih hlonger
          rw [List.append_assoc, List.singleton_append] at hstops
          exact hstops

namespace StopsAfter

variable (h : StopsAfter rule ev frame final store operands evaluated result after)
include h

theorem isPrefix : evaluated <+: operands := by
  cases h with
  | settled hoperands _ _ =>
      rw [hoperands]
      exact ⟨_, (List.append_cons _ _ _).symm⟩
  | through => exact List.prefix_rfl

/-- The operands that are evaluated account for all that has happened to the store. -/
theorem store_eq : after = (outcome (evalAll ev frame evaluated) store).2 := by
  cases h with
  | settled _ hbefore hlast =>
      rw [outcome_evalAll_append hbefore.1]
      cases hlast with
      | halted hnext => rw [evalAll, outcome_bind, outcome_bind, hnext]
      | decided hnext _ => rw [outcome_bind_ok (outcome_evalAll_singleton hnext), outcome_pure]
  | through hall => rw [hall.1]

/-- Fewer of the operands are undecided. -/
theorem undecided_of_shorter
    {shorter : List Value}
    (hshorter : shorter <+: evaluated)
    (hne : shorter ≠ evaluated) :
    ∃ values middle, Undecided rule ev frame store shorter values middle := by
  cases h with
  | settled _ hbefore _ =>
      obtain ⟨beyond, hbeyond⟩ := (List.prefix_concat_iff.mp hshorter).resolve_left hne
      rw [← hbeyond] at hbefore
      exact hbefore.of_append
  | through hall =>
      obtain ⟨beyond, hbeyond⟩ := hshorter
      rw [← hbeyond] at hall
      exact hall.of_append

/-- All operands are evaluated unless those that are evaluated are not undecided. -/
theorem eq_or_not_undecided :
    evaluated = operands ∨ ∀ values later, ¬Undecided rule ev frame store evaluated values later := by
  cases h with
  | settled _ hbefore hlast => exact .inr (hlast.not_undecided hbefore)
  | through => exact .inl rfl

theorem eq_of_prefix
    {others : List Value}
    {other : Except Halt Value}
    {later : Store}
    (h' : StopsAfter rule ev frame final store operands others other later)
    (hwithin : evaluated <+: others) :
    evaluated = others := by
  by_contra hne
  obtain ⟨values, middle, hundecided⟩ := h'.undecided_of_shorter hwithin hne
  rcases h.eq_or_not_undecided with rfl | hnot
  · exact hne (hwithin.eq_of_length_le h'.isPrefix.length_le)
  · exact hnot values middle hundecided

/-- Operands are evaluated up to one place. -/
theorem unique
    {others : List Value}
    {other : Except Halt Value}
    {later : Store}
    (h' : StopsAfter rule ev frame final store operands others other later) :
    others = evaluated := by
  rcases List.prefix_or_prefix_of_prefix h.isPrefix h'.isPrefix with hshorter | hshorter
  · exact (h.eq_of_prefix h' hshorter).symm
  · exact h'.eq_of_prefix h hshorter

end StopsAfter

namespace Scans

variable {run : List Value → List Value → EvalM Value} (h : Scans rule ev frame final run)
include h

/-- Undecided operands are passed. -/
theorem outcome_of_undecided
    (hbefore : Undecided rule ev frame store before values middle)
    (rest : List Value) :
    outcome (run [] (before ++ rest)) store = outcome (run values rest) middle := by
  induction before using List.reverseRecOn generalizing values middle rest with
  | nil =>
      cases hbefore.1
      rfl
  | append_singleton before last ih =>
      obtain ⟨values, value, reached, rfl, hbefore, hlast, hopen⟩ := undecided_concat_iff.mp hbefore
      rw [List.append_assoc, List.singleton_append, ih hbefore, h.undecided hlast hopen]

/-- What settles the result is the result. -/
theorem outcome_eq (hstops : StopsAfter rule ev frame final store operands evaluated result after) :
    outcome (run [] operands) store = (result, after) := by
  cases hstops with
  | settled hoperands hbefore hlast => rw [hoperands, h.outcome_of_undecided hbefore, h.settled hlast]
  | through hall =>
      have hpassed := h.outcome_of_undecided hall []
      rw [List.append_nil] at hpassed
      rw [hpassed, h.nil]

theorem stopsOnceDecided
    (store : Store)
    (operands : List Value) :
    StopsOnceDecided rule ev frame final store operands (outcome (run [] operands) store) := by
  have hnone : Undecided rule ev frame store [] [] store := undecided_nil
  obtain ⟨evaluated, result, after, hstops⟩ := exists_stopsAfter_of_undecided hnone operands
  rw [List.nil_append] at hstops
  have hrun := h.outcome_eq hstops
  rw [hrun]
  refine ⟨evaluated, hstops, hstops.isPrefix, hstops.store_eq, ?_⟩
  intro others other later hothers
  exact ⟨hstops.unique hothers, (h.outcome_eq hothers).symm.trans hrun⟩

end Scans

end Prefixes

section Comparisons

/-- The relation that a comparison tests. -/
def Comparison.Relates : Comparison → Int → Int → Prop
  | less, a, b => a < b
  | greater, a, b => a > b
  | equal, a, b => a = b
  | lessEqual, a, b => a ≤ b
  | greaterEqual, a, b => a ≥ b

instance (relation : Comparison) (a b : Int) : Decidable (relation.Relates a b) :=
  match relation with
  | .less => inferInstanceAs (Decidable (a < b))
  | .greater => inferInstanceAs (Decidable (a > b))
  | .equal => inferInstanceAs (Decidable (a = b))
  | .lessEqual => inferInstanceAs (Decidable (a ≤ b))
  | .greaterEqual => inferInstanceAs (Decidable (a ≥ b))

/-- A value decides a comparison if it is no integer, or does not stand in the relation to the one before it. -/
inductive Comparison.Decides (relation : Comparison) : DecisionRule
  | notNumber
      {values : List Value}
      {value : Value}
      (hvalue : ∀ number, value ≠ .int number) :
      Decides relation values value (.error (Fault.notNumber relation.name value.describe).halt)
  | unrelated
      {values : List Value}
      {previous number : Int64}
      (hprevious : values.getLast? = some (.int previous))
      (hunrelated : ¬relation.Relates previous.toInt number.toInt) :
      Decides relation values (.int number) (.ok (.bool false))

instance (relation : Comparison) : Trans relation.Relates relation.Relates relation.Relates where
  trans := by
    intro a b c hab hbc
    cases relation with
    | less => exact Int.lt_trans hab hbc
    | greater => exact Int.lt_trans hbc hab
    | equal => exact hab.trans hbc
    | lessEqual => exact Int.le_trans hab hbc
    | greaterEqual => exact Int.le_trans hbc hab

/-- The test of a comparison is that of the exact integers. -/
theorem Comparison.holds_iff
    (relation : Comparison)
    (a b : Int64) :
    relation.holds a b = true ↔ relation.Relates a.toInt b.toInt := by
  cases relation with
  | less => exact decide_eq_true_iff.trans Int64.lt_iff_toInt_lt
  | greater => exact decide_eq_true_iff.trans Int64.lt_iff_toInt_lt
  | equal => exact decide_eq_true_iff.trans Int64.toInt_inj.symm
  | lessEqual => exact decide_eq_true_iff.trans Int64.le_iff_toInt_le
  | greaterEqual => exact decide_eq_true_iff.trans Int64.le_iff_toInt_le

variable {relation : Comparison} {ev : Evaluator} {frame : FrameId} {store after : Store}
variable {operands values : List Value} {numbers : List Int64}

/-- The integer that a comparison has met last. -/
def lastNumber? (values : List Value) : Option Int64 :=
  match values.getLast? with
  | some (.int number) => some number
  | _ => none

theorem lastNumber?_concat (number : Int64) : lastNumber? (values ++ [.int number]) = some number := by
  unfold lastNumber?
  rw [List.getLast?_concat]

theorem lastNumber?_eq_some_iff {number : Int64} :
    lastNumber? values = some number ↔ values.getLast? = some (.int number) := by
  unfold lastNumber?
  split
  case h_1 found hfound => simp [hfound]
  case h_2 hnone => exact ⟨nofun, fun h => (hnone number h).elim⟩

/-- A comparison goes on behind an integer that does not decide. -/
theorem Comparison.scans_apply
    (relation : Comparison)
    (ev : Evaluator)
    (frame : FrameId) :
    Scans relation.Decides ev frame (fun _ => .bool true) fun values =>
      relation.apply ev frame (lastNumber? values) where
  nil _ _ := rfl
  settled := by
    intro values next rest store result after hsettled
    unfold Comparison.apply
    cases hsettled with
    | halted hnext => rw [outcome_bind, hnext]
    | @decided value _ _ hnext hdecides =>
        rw [outcome_bind_ok hnext, outcome_bind, outcome_lift]
        cases hdecides with
        | notNumber hvalue =>
            cases value with
            | int number => exact (hvalue number rfl).elim
            | _ => rfl
        | @unrelated _ previous number hprevious hunrelated =>
            have hholds : relation.holds previous number = false := by
              rw [← Bool.not_eq_true, relation.holds_iff]
              exact hunrelated
            rw [lastNumber?_eq_some_iff.mpr hprevious]
            simp [toNumber, hholds]
  undecided := by
    intro values next rest value store after hnext hopen
    cases value with
    | int number =>
        rw [lastNumber?_concat]
        conv => lhs; unfold Comparison.apply
        rw [outcome_bind_ok hnext, outcome_bind, outcome_lift]
        cases hprevious : lastNumber? values with
        | none => rfl
        | some previous =>
            have hholds : relation.holds previous number = true := by
              by_contra hnot
              rw [relation.holds_iff] at hnot
              exact hopen _ (.unrelated (lastNumber?_eq_some_iff.mp hprevious) hnot)
            simp [toNumber, hholds]
    | _ => exact (hopen _ (.notNumber nofun)).elim

/-- Where all operands have integers as their values, only false can come of a comparison that stops early. -/
theorem Comparison.eq_false_of_settledBy
    {before rest : List Value}
    {last : Value}
    {middle stopped : Store}
    {result : Except Halt Value}
    (hnumbers : outcome (evalAll ev frame (before ++ last :: rest)) store = (.ok (numbers.map .int), after))
    (hbefore : outcome (evalAll ev frame before) store = (.ok values, middle))
    (hlast : SettledBy relation.Decides ev frame values last middle result stopped) :
    result = .ok (.bool false) := by
  obtain ⟨_, more, _, hsplit, hothers, hmore⟩ := exists_of_evalAll_append hnumbers
  cases hbefore.symm.trans hothers
  obtain ⟨value, _, _, rfl, hvalue, -⟩ := exists_of_evalAll_cons hmore
  cases hlast with
  | halted hnext => cases hnext.symm.trans hvalue
  | decided hnext hdecides =>
      cases hnext.symm.trans hvalue
      cases hdecides with
      | notNumber hvalue =>
          obtain ⟨_, _, -, -, hfront⟩ := List.map_eq_append_iff.mp hsplit
          obtain ⟨number, _, -, rfl, -⟩ := List.map_eq_cons_iff.mp hfront
          exact (hvalue number rfl).elim
      | unrelated => rfl

/-- Integers none of which decides a comparison are those that stand in order, each one before all later ones. -/
theorem Comparison.undecided_iff_pairwise
    (hnumbers : outcome (evalAll ev frame operands) store = (.ok (numbers.map .int), after)) :
    Undecided relation.Decides ev frame store operands (numbers.map .int) after ↔
      (numbers.map Int64.toInt).Pairwise relation.Relates := by
  rw [← List.isChain_iff_pairwise, List.isChain_map, List.isChain_iff_forall_rel_of_append_cons_cons]
  refine ⟨?_, ?_⟩
  · rintro ⟨-, hopen⟩ previous number front back rfl
    by_contra hunrelated
    refine hopen (front.map .int ++ [.int previous]) (.int number) (back.map .int) _ (by simp)
      (.unrelated List.getLast?_concat hunrelated)
  · intro hordered
    refine ⟨hnumbers, ?_⟩
    intro front value back result hsplit hdecides
    obtain ⟨first, more, rfl, rfl, hmore⟩ := List.map_eq_append_iff.mp hsplit
    obtain ⟨number, rest, rfl, rfl, rfl⟩ := List.map_eq_cons_iff.mp hmore
    cases hdecides with
    | notNumber hvalue => exact hvalue number rfl
    | @unrelated _ previous _ hprevious hunrelated =>
        obtain ⟨front, hfront⟩ := List.getLast?_eq_some_iff.mp hprevious
        obtain ⟨first, one, rfl, -, hone⟩ := List.map_eq_append_iff.mp hfront
        obtain ⟨_, _, rfl, ⟨⟩, hnil⟩ := List.map_eq_cons_iff.mp hone
        obtain rfl := List.map_eq_nil_iff.mp hnil
        exact hunrelated (hordered (by rw [List.append_assoc, List.singleton_append]))

end Comparisons

section Connectives

/-- False decides a conjunction, and every other value decides a disjunction. -/
inductive Connective.Decides : Connective → DecisionRule
  | falsity (values : List Value) : Decides .conjunction values (.bool false) (.ok (.bool false))
  | truth
      {values : List Value}
      {value : Value}
      (hvalue : value ≠ .bool false) :
      Decides .disjunction values value (.ok value)

theorem Value.isTrue_iff {value : Value} : value.isTrue = true ↔ value ≠ .bool false := by
  refine ⟨?_, ?_⟩
  · rintro htrue rfl
    cases htrue
  · intro hvalue
    unfold Value.isTrue
    split
    · exact (hvalue rfl).elim
    · rfl

theorem Connective.decidedBy_of_decides
    {junction : Connective}
    {values : List Value}
    {value : Value}
    {result : Except Halt Value}
    (h : junction.Decides values value result) :
    junction.decidedBy value = true ∧ result = .ok value := by
  cases h with
  | falsity => exact ⟨rfl, rfl⟩
  | truth hvalue => exact ⟨Value.isTrue_iff.mpr hvalue, rfl⟩

theorem Connective.decides_of_decidedBy
    {junction : Connective}
    {value : Value}
    (h : junction.decidedBy value = true)
    (values : List Value) :
    junction.Decides values value (.ok value) := by
  cases junction with
  | conjunction =>
      have hfalse : value = .bool false := by
        by_contra hvalue
        simp [decidedBy, Value.isTrue_iff.mpr hvalue] at h
      rw [hfalse]
      exact .falsity values
  | disjunction => exact .truth (Value.isTrue_iff.mp h)

/-- A connective goes on behind a value that does not decide, and keeps it. -/
theorem Connective.scans_apply
    (junction : Connective)
    (ev : Evaluator)
    (frame : FrameId) :
    Scans junction.Decides ev frame (fun values => values.getLastD junction.neutral) fun values =>
      junction.apply ev frame (values.getLastD junction.neutral) where
  nil _ _ := rfl
  settled := by
    intro values next rest store result after hsettled
    unfold Connective.apply
    cases hsettled with
    | halted hnext => rw [outcome_bind, hnext]
    | decided hnext hdecides =>
        obtain ⟨hdecided, rfl⟩ := decidedBy_of_decides hdecides
        rw [outcome_bind_ok hnext, if_pos hdecided, outcome_pure]
  undecided := by
    intro values next rest value store after hnext hopen
    have hdecided : ¬junction.decidedBy value = true :=
      fun hdecided => hopen _ (decides_of_decidedBy hdecided values)
    rw [List.getLastD_concat]
    conv => lhs; unfold Connective.apply
    rw [outcome_bind_ok hnext, if_neg hdecided]

end Connectives

/-- Comparisons and connectives evaluate the operands up to the first one that decides, in order and each of them
once, and no operand behind it, whatever the evaluator does. A comparison is decided by an operand whose evaluation
halts, with what halts it; by one whose value is no integer, with an error; and by an integer that does not stand in
the relation to the one before it, with false. If no operand decides it, it is true. If all operands have integers
as their values in order, it is true exactly if each one stands in the relation to all later ones. A conjunction is
decided by an operand whose evaluation halts and by a value that is false, and a disjunction by a value that is not
false; the result is then this value, and otherwise the last one, or if there are no operands the neutral value,
which is true for a conjunction and false for a disjunction. -/
theorem incremental_primitives_stop_once_decided
    (ev : Evaluator)
    (operands : List Value)
    (frame : FrameId)
    (store : Store) :
    (∀ relation : Comparison,
      let run := outcome (applyValue ev (.primitive (.comparison relation)) operands frame) store
      StopsOnceDecided relation.Decides ev frame (fun _ => .bool true) store operands run ∧
        ∀ (numbers : List Int64) after,
          outcome (evalAll ev frame operands) store = (.ok (numbers.map .int), after) →
            run.1 = .ok (.bool (decide ((numbers.map Int64.toInt).Pairwise relation.Relates)))) ∧
    ∀ junction : Connective,
      StopsOnceDecided junction.Decides ev frame (fun values => values.getLastD junction.neutral) store operands
        (outcome (applyValue ev (.primitive (.connective junction)) operands frame) store) := by
  refine ⟨fun relation => ?_, fun junction => (junction.scans_apply ev frame).stopsOnceDecided store operands⟩
  intro run
  have hstops : StopsOnceDecided relation.Decides ev frame (fun _ => .bool true) store operands run :=
    (relation.scans_apply ev frame).stopsOnceDecided store operands
  refine ⟨hstops, ?_⟩
  intro numbers after hnumbers
  have hpasses := relation.undecided_iff_pairwise hnumbers
  obtain ⟨evaluated, hevaluated, -, -, hunique⟩ := hstops
  by_cases hordered : (numbers.map Int64.toInt).Pairwise relation.Relates
  · obtain ⟨-, hrun⟩ := hunique operands _ after (.through (hpasses.mpr hordered))
    rw [← hrun, decide_eq_true hordered]
  · rw [decide_eq_false hordered]
    generalize run.1 = result, run.2 = stopped at hevaluated
    cases hevaluated with
    | settled hoperands hbefore hlast =>
        rw [hoperands] at hnumbers
        exact Comparison.eq_false_of_settledBy hnumbers hbefore.1 hlast
    | through hall =>
        cases hnumbers.symm.trans hall.1
        exact (hordered (hpasses.mp hall)).elim

/-- The expressions `(set! x 5)` and `(set! x 9)`, and a frame in which `x` is 1. -/
def countingStore : Store where
  pairs :=
    #[⟨.sym "set!", .pair ⟨1⟩⟩, ⟨.sym "x", .pair ⟨2⟩⟩, ⟨.int 5, .nil⟩,
      ⟨.sym "set!", .pair ⟨4⟩⟩, ⟨.sym "x", .pair ⟨5⟩⟩, ⟨.int 9, .nil⟩]
  closures := #[]
  frames := #[⟨none, [("x", .int 1), ("set!", .primitive (.special .assign))]⟩]

/-- In `(< x (set! x 5) x (set! x 9))` the second `x` is not greater than the value before it, so the comparison
is false and the last operand is not evaluated. -/
theorem incremental_primitives_stop_once_decided_at_an_assignment :
    let operands := [.sym "x", .pair ⟨0⟩, .sym "x", .pair ⟨3⟩]
    let run := outcome (apply 3 (.primitive (.comparison .less)) operands ⟨0⟩) countingStore
    (outcome (evalAll (eval 3) ⟨0⟩ operands) countingStore).1 = .ok [.int 1, .int 5, .int 5, .int 9] ∧
      StopsOnceDecided Comparison.less.Decides (eval 3) ⟨0⟩ (fun _ => .bool true) countingStore operands run ∧
      run.1 = .ok (.bool false) ∧
      run.2.lookup ⟨0⟩ "x" = some (.int 5) := by
  intro operands run
  have hnumbers : (outcome (evalAll (eval 3) ⟨0⟩ operands) countingStore).1 =
      .ok ([1, 5, 5, 9].map .int) := by
    decide +kernel
  obtain ⟨hcomparisons, -⟩ := incremental_primitives_stop_once_decided (eval 3) operands ⟨0⟩ countingStore
  obtain ⟨hstops, hresult⟩ := hcomparisons .less
  have hordered : ¬(([1, 5, 5, 9] : List Int64).map Int64.toInt).Pairwise Comparison.less.Relates := by
    decide +kernel
  refine ⟨hnumbers, hstops, ?_, by decide +kernel⟩
  rw [← decide_eq_false hordered]
  exact hresult [1, 5, 5, 9] _ (Prod.ext hnumbers rfl)

end SmallLisp
