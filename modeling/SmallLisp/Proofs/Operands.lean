import SmallLisp.Eval.Evaluator

/-!
# Operands in turn

Operands are evaluated from left to right, up to one at which evaluation halts or until all of them have values.
Each may find what those before it have done to the store.

* `outcome_evalAll_of_halt` and `outcome_evalAll_of_value` take one operand off, and
  `outcome_bindInTurn_of_halt` and `outcome_bindInTurn_of_value` do so where its value is bound at once;
* `StopsAt` says that operands are evaluated up to one that halts;
* `Closure.outcome_apply` and its siblings say what an application comes to once its operands have been counted.
-/

namespace SmallLisp

section Operands

variable {ev : Evaluator} {frame : FrameId} {store middle after : Store} {halt : Halt}
variable {before rest operands values : List Value} {expression failing value : Value}

/-- Operands are not evaluated behind one that halts. -/
theorem outcome_evalAll_of_halt
    (h : outcome (ev expression frame) store = (.error halt, middle))
    (rest : List Value) :
    outcome (evalAll ev frame (expression :: rest)) store = (.error halt, middle) := by
  rw [evalAll, outcome_bind, h]

theorem outcome_evalAll_of_value
    (h : outcome (ev expression frame) store = (.ok value, middle))
    (rest : List Value) :
    outcome (evalAll ev frame (expression :: rest)) store =
      ((outcome (evalAll ev frame rest) middle).1.map (value :: ·),
        (outcome (evalAll ev frame rest) middle).2) := by
  rw [evalAll, outcome_bind_ok h, outcome_bind]
  rcases outcome (evalAll ev frame rest) middle with ⟨halt | values, after⟩ <;> rfl

theorem outcome_evalAll_cons
    (hfirst : outcome (ev expression frame) store = (.ok value, middle))
    (hrest : outcome (evalAll ev frame rest) middle = (.ok values, after)) :
    outcome (evalAll ev frame (expression :: rest)) store = (.ok (value :: values), after) := by
  rw [outcome_evalAll_of_value hfirst, hrest]
  rfl

/-- The first one of operands that are evaluated is evaluated first. -/
theorem exists_of_evalAll_cons
    (h : outcome (evalAll ev frame (expression :: rest)) store = (.ok values, after)) :
    ∃ value more middle, values = value :: more ∧
      outcome (ev expression frame) store = (.ok value, middle) ∧
      outcome (evalAll ev frame rest) middle = (.ok more, after) := by
  rcases hfirst : outcome (ev expression frame) store with ⟨halt | value, middle⟩
  · rw [outcome_evalAll_of_halt hfirst] at h
    cases h
  rw [outcome_evalAll_of_value hfirst] at h
  rcases hrest : outcome (evalAll ev frame rest) middle with ⟨halt | more, stopped⟩ <;> rw [hrest] at h
  · cases h
  · cases h
    exact ⟨value, more, middle, rfl, rfl, hrest⟩

/-- There is one value for each operand. -/
theorem length_of_evalAll
    (h : outcome (evalAll ev frame operands) store = (.ok values, after)) :
    values.length = operands.length := by
  induction operands generalizing store values with
  | nil =>
      cases h
      rfl
  | cons expression operands ih =>
      obtain ⟨value, more, middle, rfl, -, hmore⟩ := exists_of_evalAll_cons h
      rw [List.length_cons, List.length_cons, ih hmore]

/-- Evaluating one operand is evaluating it as a list of operands. -/
theorem outcome_evalAll_singleton
    (h : outcome (ev expression frame) store = (.ok value, after)) :
    outcome (evalAll ev frame [expression]) store = (.ok [value], after) :=
  outcome_evalAll_cons h rfl

/-- Some operands are evaluated from left to right to values, and then the evaluation of another one halts. -/
inductive StopsAt
    (ev : Evaluator)
    (frame : FrameId)
    (failing : Value)
    (halt : Halt)
    (after : Store) :
    Store → List Value → Prop
  | here
      {store : Store}
      (h : outcome (ev failing frame) store = (.error halt, after)) :
      StopsAt ev frame failing halt after store []
  | later
      {store middle : Store}
      {expression value : Value}
      {before : List Value}
      (hfirst : outcome (ev expression frame) store = (.ok value, middle))
      (hrest : StopsAt ev frame failing halt after middle before) :
      StopsAt ev frame failing halt after store (expression :: before)

/-- Operands behind the failing one are not evaluated. -/
theorem StopsAt.outcome_evalAll
    (h : StopsAt ev frame failing halt after store before)
    (rest : List Value) :
    outcome (evalAll ev frame (before ++ failing :: rest)) store = (.error halt, after) := by
  induction h with
  | here h => exact outcome_evalAll_of_halt h rest
  | later hfirst _ ih =>
      rw [List.cons_append, outcome_evalAll_of_value hfirst, ih]
      rfl

/-- The operands up to the failing one account for all that has happened to the store. -/
theorem StopsAt.store_eq (h : StopsAt ev frame failing halt after store before) :
    after = (outcome (evalAll ev frame (before ++ [failing])) store).2 := by
  rw [h.outcome_evalAll []]

/-- If evaluating operands fails, one of them is the first that fails. -/
theorem stopsAt_of_evalAll
    (h : outcome (evalAll ev frame operands) store = (.error halt, after)) :
    ∃ before failing rest, operands = before ++ failing :: rest ∧
      StopsAt ev frame failing halt after store before := by
  induction operands generalizing store with
  | nil => cases h
  | cons expression operands ih =>
      rcases outcome_bind_error h with hfirst | ⟨value, middle, hfirst, hrest⟩
      · exact ⟨[], expression, operands, rfl, .here hfirst⟩
      · rcases outcome_bind_error hrest with hrest | ⟨values, stopped, -, hpure⟩
        · obtain ⟨before, failing, rest, rfl, hstops⟩ := ih hrest
          exact ⟨expression :: before, failing, rest, rfl, .later hfirst hstops⟩
        · cases hpure

end Operands

section InTurn

variable {ev : Evaluator} {caller scope : FrameId} {operand : Value} {store middle : Store}

/-- Nothing is bound behind an operand that halts. -/
theorem outcome_bindInTurn_of_halt
    {halt : Halt}
    (h : outcome (ev operand caller) store = (.error halt, middle))
    (name : String)
    (entries : List (String × Value)) :
    outcome (bindInTurn ev caller scope ((name, operand) :: entries)) store = (.error halt, middle) := by
  rw [bindInTurn, outcome_bind, h]

theorem outcome_bindInTurn_of_value
    {value : Value}
    (h : outcome (ev operand caller) store = (.ok value, middle))
    (name : String)
    (entries : List (String × Value)) :
    outcome (bindInTurn ev caller scope ((name, operand) :: entries)) store =
      outcome (bindInTurn ev caller scope entries) (middle.define scope name value) := by
  rw [bindInTurn, outcome_bind_ok h, outcome_bind, outcome_modify]

end InTurn

section Applications

variable {ev : Evaluator} {frame : FrameId} {store : Store} {operands : List Value}

theorem Primitive.outcome_apply_of_count
    {primitive : Primitive}
    (hcount : primitive.arity.accepts operands.length = false) :
    outcome (primitive.apply ev operands frame) store =
      (.error (Fault.operandCount primitive operands.length).halt, store) := by
  unfold Primitive.apply
  rw [hcount]
  rfl

theorem Primitive.apply_eq_applyChecked
    {primitive : Primitive}
    (hcount : primitive.arity.accepts operands.length = true) :
    primitive.apply ev operands frame = primitive.applyChecked ev operands frame := by
  unfold Primitive.apply
  rw [hcount]
  rfl

theorem Closure.outcome_apply_of_count
    {closure : Closure}
    (hcount : operands.length ≠ closure.parameters.length) :
    outcome (closure.apply ev operands frame) store =
      (.error (Fault.argumentCount closure.parameters.length operands.length).halt, store) := by
  unfold Closure.apply
  rw [if_neg hcount]
  rfl

/-- A closure makes the frame of the call, binds its operands in turn and evaluates its body. -/
theorem Closure.outcome_apply
    {closure : Closure}
    (hcount : operands.length = closure.parameters.length) :
    outcome (closure.apply ev operands frame) store =
      outcome (bindInTurn ev frame ⟨store.frames.size⟩ (closure.parameters.zip operands) >>= fun _ =>
          evalBody ev ⟨store.frames.size⟩ .nil closure.body)
        (store.newFrame ⟨some closure.frame, []⟩).2 := by
  unfold Closure.apply
  rw [if_pos hcount]
  rfl

theorem outcome_apply_closure
    (ev : Evaluator)
    (id : ClosureId)
    (operands : List Value)
    (frame : FrameId)
    (store : Store) :
    outcome (applyValue ev (.closure id) operands frame) store =
      outcome ((store.closure id).apply ev operands frame) store := by
  unfold applyValue
  rw [outcome_bind, outcome_get]

end Applications

end SmallLisp
