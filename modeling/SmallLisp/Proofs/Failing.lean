import SmallLisp.Proofs.CallFrames

/-!
# What a failing application leaves behind

A procedure that fails has evaluated some of its operands, and what these did to the store stays done. A
primitive has written nothing itself by then: each checks everything before it writes. A closure has made the frame
of the call, but nothing reaches it if an operand fails.

* `Comparison.error_cases` and `Connective.error_cases` are about operands that are evaluated one at a time;
* `Harmless` says of an evaluation that it leaves the store alone if it fails; its rules follow the ways in
  which evaluations are put together;
* `Primitive.FailsAfter` lists the reasons for which a primitive fails, each with the operands that have been
  evaluated by then;
* `Primitive.failsAfter_of_applyChecked`: a primitive fails for no other reason;
* `failing_applications_write_nothing` is what this says about the store, for all that can be applied.
-/

namespace SmallLisp

section Operands

variable {ev : Evaluator} {frame : FrameId} {store middle after : Store} {halt : Halt}
variable {before rest operands values : List Value} {expression failing value : Value}

/-- A comparison fails at an operand whose evaluation fails, or at one whose value is no integer. -/
theorem Comparison.error_cases
    {relation : Comparison}
    {previous : Option Int64}
    (h : outcome (relation.apply ev frame previous operands) store = (.error halt, after)) :
    ∃ before last rest, operands = before ++ last :: rest ∧
      (StopsAt ev frame last halt after store before ∨
        ∃ values value, outcome (evalAll ev frame (before ++ [last])) store =
            (.ok (values ++ [value]), after) ∧
          toNumber relation.name value = .error halt) := by
  induction operands generalizing store previous with
  | nil => cases h
  | cons expression operands ih =>
      rcases outcome_bind_error h with hfirst | ⟨value, middle, hfirst, hrest⟩
      · exact ⟨[], expression, operands, rfl, .inl (.here hfirst)⟩
      rw [outcome_bind, outcome_lift] at hrest
      rcases hvalue : toNumber relation.name value with other | number <;> rw [hvalue] at hrest
      · cases hrest
        exact ⟨[], expression, operands, rfl,
          .inr ⟨[], value, outcome_evalAll_singleton hfirst, hvalue⟩⟩
      -- The operand is an integer, so the failure is that of the comparison behind it.
      have hlater : ∃ next, outcome (relation.apply ev frame next operands) middle =
          (.error halt, after) := by
        cases previous with
        | none => exact ⟨some number, hrest⟩
        | some before =>
            dsimp only at hrest
            split at hrest
            · exact ⟨some number, hrest⟩
            · cases hrest
      obtain ⟨next, hlater⟩ := hlater
      obtain ⟨before, last, rest, rfl, hstops | ⟨values, refused, hvalues, hrefused⟩⟩ := ih hlater
      · exact ⟨expression :: before, last, rest, rfl, .inl (.later hfirst hstops)⟩
      · exact ⟨expression :: before, last, rest, rfl,
          .inr ⟨value :: values, refused, outcome_evalAll_cons hfirst hvalues, hrefused⟩⟩

/-- A connective fails at an operand whose evaluation fails. -/
theorem Connective.error_cases
    {junction : Connective}
    {last : Value}
    (h : outcome (junction.apply ev frame last operands) store = (.error halt, after)) :
    ∃ before failing rest, operands = before ++ failing :: rest ∧
      StopsAt ev frame failing halt after store before := by
  induction operands generalizing store last with
  | nil => cases h
  | cons expression operands ih =>
      rcases outcome_bind_error h with hfirst | ⟨value, middle, hfirst, hrest⟩
      · exact ⟨[], expression, operands, rfl, .here hfirst⟩
      · split at hrest
        · cases hrest
        · obtain ⟨before, failing, rest, rfl, hstops⟩ := ih hrest
          exact ⟨expression :: before, failing, rest, rfl, .later hfirst hstops⟩

end Operands

/-- An evaluation that starts in a store leaves it alone if it halts. -/
def Harmless {α : Type} (run : EvalM α) (store : Store) : Prop :=
  ∀ halt after, outcome run store = (.error halt, after) → after = store

namespace Harmless

variable {α β : Type} {store : Store}

/-- An evaluation that ends with a value. -/
theorem total
    {run : EvalM α}
    (h : ∃ value, (outcome run store).1 = .ok value) :
    Harmless run store := by
  intro halt after hrun
  obtain ⟨value, hvalue⟩ := h
  rw [hrun] at hvalue
  cases hvalue

theorem fail (fault : Fault) : Harmless (SmallLisp.fail fault : EvalM α) store := by
  intro halt after hrun
  cases hrun
  rfl

/-- An evaluation whose first part only looks at the store. -/
theorem bind
    {run : EvalM β}
    {next : β → EvalM α}
    (hrun : (outcome run store).2 = store)
    (hnext : ∀ value, Harmless (next value) store) :
    Harmless (run >>= next) store := by
  intro halt after h
  rcases outcome_bind_error h with h | ⟨value, middle, h, hrest⟩ <;> rw [h] at hrun
  · exact hrun
  · obtain rfl : middle = store := hrun
    exact hnext value halt after hrest

/-- An evaluation that looks at the store. -/
theorem get
    {next : Store → EvalM α}
    (h : Harmless (next store) store) :
    Harmless (MonadState.get >>= next) store := by
  intro halt after hrun
  rw [outcome_bind, outcome_get] at hrun
  exact h halt after hrun

/-- An evaluation that starts with a result that needs no store. -/
theorem lift
    {result : Except Halt β}
    {next : β → EvalM α}
    (h : ∀ value, Harmless (next value) store) :
    Harmless (liftM result >>= next) store :=
  .bind rfl h

/-- An evaluation that starts from one of some operands. -/
theorem operand
    {operands : List Value}
    {number : Nat}
    {next : Value → EvalM α}
    (h : ∀ value, Harmless (next value) store) :
    Harmless (SmallLisp.operand operands number >>= next) store :=
  .bind (by rw [outcome_operand]) h

/-- An evaluation that starts from some operands. -/
theorem operandsFrom
    {operands : List Value}
    {number : Nat}
    {next : List Value → EvalM α}
    (h : ∀ values, Harmless (next values) store) :
    Harmless (SmallLisp.operandsFrom operands number >>= next) store :=
  .bind (by rw [outcome_operandsFrom]) h

/-- An evaluation that starts from the elements of a chain. -/
theorem elements
    {chain : Value}
    {next : List Value → EvalM α}
    (h : ∀ values, Harmless (next values) store) :
    Harmless (SmallLisp.elements chain >>= next) store :=
  .bind (by rw [outcome_elements]) h

end Harmless

section Procedures

variable {store : Store}

theorem harmless_tailAt
    (operation : String)
    (chain : Value)
    (place : Int64) :
    Harmless (tailAt operation chain place) store := by
  refine .get ?_
  split
  · exact .total ⟨_, rfl⟩
  · exact .fail _

theorem harmless_elementAt
    (operation : String)
    (chain : Value)
    (place : Int64) :
    Harmless (elementAt operation chain place) store := by
  have hlooks : (outcome (tailAt operation chain place) store).2 = store := by
    unfold tailAt
    rw [outcome_bind, outcome_get]
    dsimp only
    split <;> rfl
  refine .bind hlooks fun tail => .get ?_
  split
  · exact .total ⟨_, rfl⟩
  · split
    · exact .total ⟨_, rfl⟩
    · exact .fail _

/-- A strict primitive writes nothing before it has checked the values of its operands. -/
theorem Strict.harmless_apply
    (procedure : Strict)
    (arguments : List Value) :
    Harmless (procedure.apply arguments) store := by
  cases procedure with
  | arithmetic operation =>
      exact .lift fun numbers => .lift fun result => .total ⟨_, rfl⟩
  | isA kind => exact .operand fun value => .total ⟨_, rfl⟩
  | car => exact .operand fun value => .lift fun id => .total ⟨_, rfl⟩
  | cdr => exact .operand fun value => .lift fun id => .total ⟨_, rfl⟩
  | cons => exact .operand fun head => .operand fun tail => .total ⟨_, rfl⟩
  | listRef =>
      refine .operand fun chain => .lift fun _ => .operand fun index => .lift fun place => ?_
      exact harmless_elementAt _ chain place
  | listTail =>
      refine .operand fun chain => .lift fun _ => .operand fun index => .lift fun place => ?_
      exact harmless_tailAt _ chain place
  | setCar =>
      exact .operand fun pair => .lift fun id => .operand fun value => .total ⟨_, rfl⟩
  | setCdr =>
      exact .operand fun pair => .lift fun id => .operand fun value => .total ⟨_, rfl⟩

/-- A definition of a procedure evaluates nothing, and binds the name last. -/
theorem harmless_defineProcedure
    (signature : Value)
    (operands : List Value)
    (frame : FrameId) :
    Harmless (defineProcedure signature operands frame) store := by
  unfold defineProcedure
  split
  · exact .fail _
  · refine .get ?_
    split
    · refine .elements fun names => .operand fun head => .lift fun name => ?_
      refine .operandsFrom fun tail => .lift fun parameters => .operandsFrom fun body => ?_
      exact .total ⟨_, rfl⟩
    · exact .fail _

/-- A procedure expression evaluates nothing. -/
theorem harmless_evalLambda
    (operands : List Value)
    (frame : FrameId) :
    Harmless (evalLambda operands frame) store := by
  refine .operand fun signature => .get ?_
  split
  · refine .elements fun names => .lift fun parameters => .operandsFrom fun body => ?_
    exact .total ⟨_, rfl⟩
  · exact .fail _

end Procedures

/-- Whether a primitive evaluates its operands in turn, all of them or the first ones. -/
def Primitive.evaluatesInTurn : Primitive → Bool
  | strict _ => true
  | comparison _ => true
  | connective _ => true
  | _ => false

/-- The reasons for which a primitive that has the right number of operands fails, with its error and the
operands that it has evaluated by then. The evaluation of the last of them leaves the store `after`. -/
inductive Primitive.FailsAfter
    (ev : Evaluator)
    (frame : FrameId)
    (store : Store)
    (operands : List Value)
    (after : Store) :
    Primitive → Error → List Value → Prop
  /-- The evaluation of an operand fails. -/
  | operand
      {primitive : Primitive}
      {before rest : List Value}
      {failing : Value}
      {e : Error}
      (hturn : primitive.evaluatesInTurn = true)
      (hoperands : operands = before ++ failing :: rest)
      (hstops : StopsAt ev frame failing (.error e) after store before) :
      FailsAfter ev frame store operands after primitive e (before ++ [failing])
  /-- The values of the operands are refused. -/
  | arguments
      {procedure : Strict}
      {values : List Value}
      {e : Error}
      (hvalues : outcome (evalAll ev frame operands) store = (.ok values, after))
      (hrefused : outcome (procedure.apply values) after = (.error (.error e), after)) :
      FailsAfter ev frame store operands after (.strict procedure) e operands
  /-- The value of an operand cannot be compared. -/
  | notNumber
      {relation : Comparison}
      {before rest values : List Value}
      {last value : Value}
      (hoperands : operands = before ++ last :: rest)
      (hvalues : outcome (evalAll ev frame (before ++ [last])) store =
        (.ok (values ++ [value]), after))
      (hvalue : ∀ number, value ≠ .int number) :
      FailsAfter ev frame store operands after (.comparison relation)
        (.evaluating (.notNumber relation.name value.describe)) (before ++ [last])
  /-- The evaluation of a condition fails. -/
  | condition
      {condition : Value}
      {rest : List Value}
      {e : Error}
      (hoperands : operands = condition :: rest)
      (hfails : outcome (ev condition frame) store = (.error (.error e), after)) :
      FailsAfter ev frame store operands after (.special .branch) e [condition]
  /-- The value of a condition is no truth value. -/
  | notBoolean
      {condition value : Value}
      {rest : List Value}
      (hoperands : operands = condition :: rest)
      (hcondition : outcome (ev condition frame) store = (.ok value, after))
      (hvalue : ∀ truth, value ≠ .bool truth) :
      FailsAfter ev frame store operands after (.special .branch)
        (.evaluating (.notBoolean value.describe)) [condition]
  /-- The evaluation of the branch that the condition selects fails. -/
  | branch
      {condition chosen : Value}
      {rest : List Value}
      {truth : Bool}
      {middle : Store}
      {e : Error}
      (hoperands : operands = condition :: rest)
      (hcondition : outcome (ev condition frame) store = (.ok (.bool truth), middle))
      (hchosen : rest[if truth then 0 else 1]? = some chosen)
      (hfails : outcome (ev chosen frame) middle = (.error (.error e), after)) :
      FailsAfter ev frame store operands after (.special .branch) e [condition, chosen]
  /-- The shape of a definition is refused. -/
  | definition
      {e : Error}
      (hshape : ∀ name value, operands ≠ [.sym name, value])
      (hstore : after = store) :
      FailsAfter ev frame store operands after (.special .define) e []
  /-- The target of an assignment is refused. -/
  | target
      {target value : Value}
      (hoperands : operands = [target, value])
      (htarget : ∀ name, target ≠ .sym name)
      (hstore : after = store) :
      FailsAfter ev frame store operands after (.special .assign)
        (.evaluating (.targetNotSymbol "set!" target.describe)) []
  /-- The evaluation of what is to be bound fails. -/
  | bound
      {form : SpecialForm}
      {name : String}
      {value : Value}
      {e : Error}
      (hform : form = .define ∨ form = .assign)
      (hoperands : operands = [.sym name, value])
      (hfails : outcome (ev value frame) store = (.error (.error e), after)) :
      FailsAfter ev frame store operands after (.special form) e [value]
  /-- The target of an assignment has no binding once the value is there. -/
  | unbound
      {name : String}
      {value result : Value}
      (hoperands : operands = [.sym name, value])
      (hvalue : outcome (ev value frame) store = (.ok result, after))
      (hunbound : after.lookup frame name = none) :
      FailsAfter ev frame store operands after (.special .assign)
        (.evaluating (.unboundTarget name)) [value]
  /-- The parameters of a procedure expression are refused. -/
  | parameters
      {e : Error}
      (hstore : after = store) :
      FailsAfter ev frame store operands after (.special .lambda) e []

section Primitives

variable {ev : Evaluator} {frame : FrameId} {store after : Store} {operands : List Value} {e : Error}

/-- The operands that have been evaluated account for all that has happened to the store. -/
theorem Primitive.FailsAfter.store_eq
    {primitive : Primitive}
    {evaluated : List Value}
    (h : primitive.FailsAfter ev frame store operands after e evaluated) :
    after = (outcome (evalAll ev frame evaluated) store).2 := by
  cases h with
  | operand _ _ hstops => exact hstops.store_eq
  | arguments hvalues _ => rw [hvalues]
  | notNumber _ hvalues _ => rw [hvalues]
  | condition _ hfails => exact (StopsAt.here hfails).store_eq
  | notBoolean _ hcondition _ => rw [outcome_evalAll_singleton hcondition]
  | branch _ hcondition _ hfails => exact ((StopsAt.here hfails).later hcondition).store_eq
  | definition _ hstore => exact hstore
  | target _ _ hstore => exact hstore
  | bound _ _ hfails => exact (StopsAt.here hfails).store_eq
  | unbound _ hvalue _ => rw [outcome_evalAll_singleton hvalue]
  | parameters hstore => exact hstore

theorem failsAfter_of_strict
    {procedure : Strict}
    (h : outcome ((Primitive.strict procedure).applyChecked ev operands frame) store =
      (.error (.error e), after)) :
    ∃ evaluated,
      (Primitive.strict procedure).FailsAfter ev frame store operands after e evaluated := by
  rcases outcome_bind_error h with hoperands | ⟨values, middle, hvalues, hrefused⟩
  · obtain ⟨before, failing, rest, hoperands, hstops⟩ := stopsAt_of_evalAll hoperands
    exact ⟨_, .operand rfl hoperands hstops⟩
  · obtain rfl := Strict.harmless_apply procedure values _ after hrefused
    exact ⟨_, .arguments hvalues hrefused⟩

theorem failsAfter_of_comparison
    {relation : Comparison}
    (h : outcome (relation.apply ev frame none operands) store = (.error (.error e), after)) :
    ∃ evaluated,
      (Primitive.comparison relation).FailsAfter ev frame store operands after e evaluated := by
  obtain ⟨before, last, rest, hoperands, hstops | ⟨values, value, hvalues, hrefused⟩⟩ :=
    Comparison.error_cases h
  · exact ⟨_, .operand rfl hoperands hstops⟩
  · have hvalue : ∀ number, value ≠ .int number := by
      rintro number rfl
      cases hrefused
    cases value with
    | int number => exact absurd rfl (hvalue number)
    | _ =>
        cases hrefused
        exact ⟨_, .notNumber hoperands hvalues hvalue⟩

/-- What starts from one of the operands fails with an error only if the operand is there. -/
theorem operand_bind_error
    {α : Type}
    {number : Nat}
    {next : Value → EvalM α}
    (h : outcome (operand operands number >>= next) store = (.error (.error e), after)) :
    ∃ value, operands[number]? = some value ∧
      outcome (next value) store = (.error (.error e), after) := by
  rw [outcome_bind, outcome_operand] at h
  cases hvalue : operands[number]? with
  | none =>
      rw [hvalue] at h
      cases h
  | some value =>
      rw [hvalue] at h
      exact ⟨value, rfl, h⟩

/-- An operand that is there with nothing in front of it is the first one. -/
theorem exists_eq_cons
    {value : Value}
    (h : operands[0]? = some value) :
    ∃ rest, operands = value :: rest := by
  cases operands with
  | nil => cases h
  | cons first rest =>
      cases h
      exact ⟨rest, rfl⟩

theorem failsAfter_of_branch
    (h : outcome (evalBranch ev operands frame) store = (.error (.error e), after)) :
    ∃ evaluated,
      (Primitive.special .branch).FailsAfter ev frame store operands after e evaluated := by
  obtain ⟨condition, hfirst, hrun⟩ := operand_bind_error h
  obtain ⟨rest, rfl⟩ := exists_eq_cons hfirst
  rcases outcome_bind_error hrun with hfails | ⟨value, middle, hcondition, hselect⟩
  · exact ⟨_, .condition rfl hfails⟩
  split at hselect
  case h_1 =>
      obtain ⟨chosen, hchosen, hfails⟩ := operand_bind_error hselect
      exact ⟨_, .branch rfl hcondition hchosen hfails⟩
  case h_2 =>
      split at hselect
      case h_1 chosen hchosen => exact ⟨_, .branch rfl hcondition hchosen hselect⟩
      case h_2 => cases hselect
  case h_3 htrue hfalse =>
      cases hselect
      refine ⟨_, .notBoolean rfl hcondition ?_⟩
      rintro (_ | _) rfl
      · exact hfalse rfl
      · exact htrue rfl

theorem failsAfter_of_define
    (h : outcome (evalDefine ev operands frame) store = (.error (.error e), after)) :
    ∃ evaluated,
      (Primitive.special .define).FailsAfter ev frame store operands after e evaluated := by
  obtain ⟨target, hfirst, hrun⟩ := operand_bind_error h
  obtain ⟨rest, rfl⟩ := exists_eq_cons hfirst
  cases target with
  | sym name =>
      change outcome (defineVariable ev name (.sym name :: rest) frame) store = _ at hrun
      unfold defineVariable at hrun
      split at hrun
      case isTrue hcount =>
          obtain ⟨value, rfl⟩ := List.length_eq_one_iff.mp (Nat.succ.inj hcount)
          obtain ⟨_, ⟨⟩, hvalue⟩ := operand_bind_error hrun
          rcases outcome_bind_error hvalue with hfails | ⟨result, middle, -, hdefined⟩
          · exact ⟨_, .bound (.inl rfl) rfl hfails⟩
          · cases hdefined
      case isFalse hcount =>
          cases hrun
          refine ⟨_, .definition ?_ rfl⟩
          rintro _ value hshape
          exact hcount (congrArg List.length hshape)
  | pair id =>
      have hstore := harmless_defineProcedure (.pair id) (.pair id :: rest) frame _ after hrun
      exact ⟨_, .definition (by simp) hstore⟩
  | _ =>
      cases hrun
      exact ⟨_, .definition (by simp) rfl⟩

theorem failsAfter_of_assign
    (hcount : operands.length = 2)
    (h : outcome (evalAssign ev operands frame) store = (.error (.error e), after)) :
    ∃ evaluated,
      (Primitive.special .assign).FailsAfter ev frame store operands after e evaluated := by
  obtain ⟨target, hfirst, hrun⟩ := operand_bind_error h
  obtain ⟨rest, rfl⟩ := exists_eq_cons hfirst
  obtain ⟨value, rfl⟩ := List.length_eq_one_iff.mp (Nat.succ.inj hcount)
  cases target with
  | sym name =>
      obtain ⟨_, ⟨⟩, hvalue⟩ := operand_bind_error hrun
      rcases outcome_bind_error hvalue with hfails | ⟨result, middle, hresult, hassign⟩
      · exact ⟨_, .bound (.inr rfl) rfl hfails⟩
      rw [outcome_bind, outcome_modifyGet] at hassign
      cases hlookup : middle.lookup frame name with
      | none =>
          rw [Store.assign_of_unbound result hlookup] at hassign
          cases hassign
          exact ⟨_, .unbound rfl hresult hlookup⟩
      | some previous =>
          have hassigned : (middle.assign frame name result).1 = true := by
            rw [Store.fst_assign, Store.contains, hlookup]
            rfl
          dsimp only at hassign
          rw [if_pos hassigned] at hassign
          cases hassign
  | _ =>
      cases hrun
      exact ⟨_, .target rfl (by simp) rfl⟩

/-- A primitive that has the right number of operands fails for one of the reasons that are listed. -/
theorem Primitive.failsAfter_of_applyChecked
    {primitive : Primitive}
    (hcount : primitive.arity.accepts operands.length = true)
    (h : outcome (primitive.applyChecked ev operands frame) store = (.error (.error e), after)) :
    ∃ evaluated, primitive.FailsAfter ev frame store operands after e evaluated := by
  cases primitive with
  | strict procedure => exact failsAfter_of_strict h
  | comparison relation => exact failsAfter_of_comparison h
  | connective junction =>
      obtain ⟨before, failing, rest, hoperands, hstops⟩ := Connective.error_cases h
      exact ⟨_, .operand rfl hoperands hstops⟩
  | negation =>
      obtain ⟨value, -, hvalue⟩ := operand_bind_error h
      cases hvalue
  | quote =>
      have hquoted : outcome (operand operands 0 >>= pure) store = (.error (.error e), after) := by
        rw [bind_pure]
        exact h
      obtain ⟨value, -, hvalue⟩ := operand_bind_error hquoted
      cases hvalue
  | list => cases h
  | special form =>
      cases form with
      | branch => exact failsAfter_of_branch h
      | define => exact failsAfter_of_define h
      | assign => exact failsAfter_of_assign (of_decide_eq_true hcount) h
      | lambda => exact ⟨_, .parameters (harmless_evalLambda operands frame _ after h)⟩

end Primitives

/-- An application that fails has written nothing itself. What it leaves behind is what the evaluation of some
operands from left to right leaves behind, in the frame in which the application takes place.

* A primitive evaluates nothing if the number of operands is wrong. If it is right and the primitive fails, the
  operands that it has evaluated are those that `Primitive.FailsAfter` gives for the reason of the failure. For
  negation, quoting and listing there is no such reason.
* A closure evaluates nothing if the number of operands is wrong. If it is right and the evaluation of an
  operand fails, the operands up to this one have been evaluated, and the call ends with the error of this one.
  The frame of the call is there, besides all that these operands leave, and nothing else reaches it.
* A value that is no procedure evaluates nothing. -/
theorem failing_applications_write_nothing
    (fuel : Nat)
    (operands : List Value)
    (frame : FrameId)
    (store : Store) :
    (∀ primitive : Primitive,
      (primitive.arity.accepts operands.length = false →
        outcome (apply fuel (.primitive primitive) operands frame) store =
          (.error (Fault.operandCount primitive operands.length).halt, store)) ∧
      (primitive.arity.accepts operands.length = true →
        ∀ e after, outcome (apply fuel (.primitive primitive) operands frame) store =
            (.error (.error e), after) →
          ∃ evaluated,
            primitive.FailsAfter (eval fuel) frame store operands after e evaluated ∧
              after = (outcome (evalAll (eval fuel) frame evaluated) store).2)) ∧
    (∀ id : ClosureId,
      (operands.length ≠ (store.closure id).parameters.length →
        outcome (apply fuel (.closure id) operands frame) store =
          (.error (Fault.argumentCount (store.closure id).parameters.length operands.length).halt,
            store)) ∧
      (operands.length = (store.closure id).parameters.length →
        store.Hosts frame → store.Holds (.closure id) → (∀ operand ∈ operands, store.Holds operand) →
        ∀ before failing rest e left, operands = before ++ failing :: rest →
          StopsAt (eval fuel) frame failing (.error e) left store before →
            left = (outcome (evalAll (eval fuel) frame (before ++ [failing])) store).2 ∧
            ∃ after, outcome (apply fuel (.closure id) operands frame) store = (.error (.error e), after) ∧
              left.HasSpare store.frames.size after ∧
              ∀ item : Item, item.PresentIn after → item ≠ .frame ⟨store.frames.size⟩ →
                ¬after.Reaches item (.frame ⟨store.frames.size⟩))) ∧
    ∀ value : Value, (∀ primitive, value ≠ .primitive primitive) → (∀ id, value ≠ .closure id) →
      outcome (apply fuel value operands frame) store =
        (.error (Fault.notProcedure value.describe).halt, store) := by
  refine ⟨fun primitive => ⟨?_, ?_⟩, fun id => ⟨?_, ?_⟩, ?_⟩
  · exact Primitive.outcome_apply_of_count
  · intro hcount e after h
    have hchecked : outcome (primitive.applyChecked (eval fuel) operands frame) store =
        (.error (.error e), after) := by
      rw [← Primitive.apply_eq_applyChecked hcount]
      exact h
    obtain ⟨evaluated, hfails⟩ := Primitive.failsAfter_of_applyChecked hcount hchecked
    exact ⟨evaluated, hfails, hfails.store_eq⟩
  · exact outcome_apply_of_count
  · intro hcount hhosts hclosure hoperands before failing rest e left hsplit hstops
    have hhalt : outcome (evalAll (eval fuel) frame operands) store = (.error (.error e), left) :=
      hsplit ▸ hstops.outcome_evalAll rest
    obtain ⟨after, hrun, hspare⟩ := hhosts.outcome_apply_of_halt hclosure hoperands hcount hhalt
    obtain ⟨hleft, -⟩ := hhosts.after_operands hoperands hhalt
    exact ⟨hstops.store_eq, after, hrun, hspare, fun item => hspare.not_reaches hleft.sound⟩
  · intro value hprimitive hclosure
    cases value with
    | primitive primitive => exact absurd rfl (hprimitive primitive)
    | closure id => exact absurd rfl (hclosure id)
    | _ => rfl

/-- In a session in which `f` takes two arguments, the sum of `(define x 1)` and `y` and the call of `f` with
these two both fail at `y`, and what the definition has done stays done. The call leaves one frame more, in which
the first parameter is bound. -/
theorem failing_applications_write_nothing_after_a_definition :
    let session := ((Session.start.evaluate 3 "(define (f a b) a)").2.evaluate 3 "(quote (define x 1))").2
    let operands : List Value := [.pair ⟨8⟩, .sym "y"]
    let left := (outcome (evalAll (eval 2) ⟨0⟩ operands) session.store).2
    let sum := outcome (apply 2 (.primitive (.strict (.arithmetic .add))) operands ⟨0⟩) session.store
    let call := outcome (apply 2 (.closure ⟨0⟩) operands ⟨0⟩) session.store
    left.lookup ⟨0⟩ "x" = some (.int 1) ∧
      sum.1 = .error (Fault.unboundVariable "y" 0).halt ∧
      (∃ evaluated,
        (Primitive.strict (.arithmetic .add)).FailsAfter (eval 2) ⟨0⟩ session.store operands sum.2
          (.evaluating (.unboundVariable "y" 0)) evaluated ∧
        sum.2 = (outcome (evalAll (eval 2) ⟨0⟩ evaluated) session.store).2) ∧
      call.1 = .error (Fault.unboundVariable "y" 0).halt ∧
      left.HasSpare session.store.frames.size call.2 ∧
      (call.2.frame ⟨session.store.frames.size⟩).get? "a" = some (.sym "x") ∧
      ¬call.2.Reaches (.frame ⟨0⟩) (.frame ⟨session.store.frames.size⟩) := by
  intro session operands left sum call
  have hreachable : session.Reachable := .evaluate (.evaluate .start 3 _) 3 _
  have hwellFormed := hreachable.wellFormed
  have hhosts : session.store.Hosts ⟨0⟩ := ⟨hwellFormed.sound, hwellFormed.forest, by decide +kernel⟩
  have hclosure : session.store.Holds (.closure ⟨0⟩) := by
    rintro _ ⟨⟩
    show 0 < session.store.closures.size
    decide +kernel
  have hoperands : ∀ operand ∈ operands, session.store.Holds operand := by
    intro operand hoperand item hitem
    rcases List.mem_pair.mp hoperand with rfl | rfl <;> cases hitem
    · show 8 < session.store.pairs.size
      decide +kernel
    · trivial
  let middle := (outcome (eval 2 (.pair ⟨8⟩) ⟨0⟩) session.store).2
  have hdefined : outcome (eval 2 (.pair ⟨8⟩) ⟨0⟩) session.store = (.ok (.sym "x"), middle) := by decide +kernel
  have hunbound : outcome (eval 2 (.sym "y") ⟨0⟩) middle = (.error (Fault.unboundVariable "y" 0).halt, left) := by
    decide +kernel
  have hstops : StopsAt (eval 2) ⟨0⟩ (.sym "y") (Fault.unboundVariable "y" 0).halt left session.store
      [.pair ⟨8⟩] := .later hdefined (.here hunbound)
  have hfails : sum.1 = .error (Fault.unboundVariable "y" 0).halt := by decide +kernel
  obtain ⟨hprimitives, hclosures, -⟩ := failing_applications_write_nothing 2 operands ⟨0⟩ session.store
  obtain ⟨-, after, hrun, hspare, hreaches⟩ := (hclosures ⟨0⟩).2 (by decide +kernel) hhosts hclosure hoperands
    [.pair ⟨8⟩] (.sym "y") [] _ left rfl hstops
  obtain rfl : after = call.2 := congrArg Prod.snd hrun.symm
  refine ⟨by decide +kernel, hfails, ?_, by decide +kernel, hspare, by decide +kernel, ?_⟩
  · exact (hprimitives (.strict (.arithmetic .add))).2 rfl _ sum.2 (Prod.ext hfails rfl)
  · refine hreaches (.frame ⟨0⟩) ?_ ?_
    · show 0 < call.2.frames.size
      decide +kernel
    · intro hsame
      have hsize : session.store.frames.size = 1 := by decide +kernel
      rw [hsize] at hsame
      cases hsame

end SmallLisp
