import SmallLisp.Eval.Basic
import SmallLisp.Proofs.World

/-!
# Evaluations that stay within what code has got hold of

`Within run w post` says of an evaluation that starts in a world: it makes only changes that code may
make, and ends with a value and a world for which `post` holds, or halts as `World.Allows` says. The rules
here follow the ways in which evaluations are put together, so that an evaluation is followed step by step
without running it.
-/

namespace SmallLisp

variable {given : Primitive → Bool}

/-- The operation that a fault names is a primitive. -/
def NamesPrimitive (operation : String) : Prop :=
  ∃ primitive : Primitive, primitive.name = operation

namespace World

/-- A symbol that code has got hold of, and that is bound as seen from no further than some frame that it
has got hold of. -/
def Unbound (w : World given) (name : String) : Prop :=
  .symbol name ∈ w.items ∧ ∃ id, .frame id ∈ w.items ∧ w.store.lookup id name = none

/-- The words describe a value that code has got hold of. -/
def Describes (w : World given) (words : String) : Prop :=
  ∃ value, w.Has value ∧ value.describe = words

/-- A fault is about names that are unbound, or about values that code has got hold of and an operation that
is a primitive. -/
def Backs (w : World given) : Fault → Prop
  | .unboundVariable name _ => w.Unbound name
  | .unboundTarget name => w.Unbound name
  | .notProcedure got => w.Describes got
  | .notNumber operation got => NamesPrimitive operation ∧ w.Describes got
  | .notPair operation got => NamesPrimitive operation ∧ w.Describes got
  | .negativeIndex operation _ => NamesPrimitive operation
  | .indexOutOfRange operation _ => NamesPrimitive operation
  | .notBoolean got => w.Describes got
  | .malformedSignature got => w.Describes got
  | .notDefinable got => w.Describes got
  | .notParameterList operation got => NamesPrimitive operation ∧ w.Describes got
  | .notSymbol operation got => NamesPrimitive operation ∧ w.Describes got
  | .targetNotSymbol operation got => NamesPrimitive operation ∧ w.Describes got
  | _ => True

/-- How an evaluation may halt: it is never stuck and never at an error of reading, and what a fault says is
backed by what code has got hold of. -/
def Allows (w : World given) : Halt → Prop
  | .stuck => False
  | .unfinished => True
  | .error (.reading _) => False
  | .error (.evaluating fault) => w.Backs fault

/-- A value that code has got hold of is described. -/
theorem Has.describes
    {w : World given}
    {value : Value}
    (h : w.Has value) :
    w.Describes value.describe :=
  ⟨value, h, rfl⟩

end World

/-- An evaluation that starts in the world `w` makes permitted changes only; its value, with the world that
it leads to, satisfies `post`. -/
def Within {α : Type} (run : EvalM α) (w : World given) (post : World given → α → Prop) : Prop :=
  ∃ w', Changes w w' ∧ (outcome run w.store).2 = w'.store ∧
    match (outcome run w.store).1 with
    | .ok value => post w' value
    | .error halt => w'.Allows halt

namespace Within

variable {α β : Type} {w : World given} {post : World given → α → Prop}

theorem pure
    {value : α}
    (h : post w value) :
    Within (Pure.pure value) w post :=
  ⟨w, .refl, rfl, h⟩

theorem fail
    {fault : Fault}
    (h : w.Allows fault.halt) :
    Within (SmallLisp.fail fault) w post :=
  ⟨w, .refl, rfl, h⟩

theorem unfinished : Within (throw .unfinished) w post :=
  ⟨w, .refl, rfl, trivial⟩

theorem mono
    {run : EvalM α}
    {post' : World given → α → Prop}
    (h : Within run w post)
    (himp : ∀ w' value, Changes w w' → post w' value → post' w' value) :
    Within run w post' := by
  obtain ⟨w', hchanges, hstore, hend⟩ := h
  refine ⟨w', hchanges, hstore, ?_⟩
  cases hresult : (outcome run w.store).1 with
  | ok value =>
      rw [hresult] at hend
      exact himp w' value hchanges hend
  | error halt =>
      rw [hresult] at hend
      exact hend

/-- An evaluation in two parts: the second part starts in the world that the first one leads to. -/
theorem bind
    {run : EvalM β}
    {next : β → EvalM α}
    {middle : World given → β → Prop}
    (hrun : Within run w middle)
    (hnext : ∀ w' value, Changes w w' → middle w' value → Within (next value) w' post) :
    Within (run >>= next) w post := by
  obtain ⟨w', hchanges, hstore, hend⟩ := hrun
  rcases hrun : outcome run w.store with ⟨result, store⟩
  rw [hrun] at hstore hend
  obtain rfl : store = w'.store := hstore
  cases result with
  | ok value =>
      obtain ⟨w'', hchanges', hstore', hend'⟩ := hnext w' value hchanges hend
      refine ⟨w'', hchanges.trans hchanges', ?_, ?_⟩ <;> rw [outcome_bind, hrun]
      · exact hstore'
      · exact hend'
  | error halt =>
      refine ⟨w', hchanges, ?_, ?_⟩ <;> rw [outcome_bind, hrun]
      exact hend

/-- An evaluation in two parts, where nothing needs to be known about the value of the first one. -/
theorem andThen
    {run : EvalM β}
    {next : β → EvalM α}
    (hrun : Within run w fun _ _ => True)
    (hnext : ∀ w' value, Changes w w' → Within (next value) w' post) :
    Within (run >>= next) w post :=
  .bind hrun fun w' value hchanges _ => hnext w' value hchanges

/-- An evaluation that looks at the store. -/
theorem get
    {next : Store → EvalM α}
    (h : Within (next w.store) w post) :
    Within (MonadState.get >>= next) w post := by
  obtain ⟨w', hchanges, hstore, hend⟩ := h
  refine ⟨w', hchanges, ?_, ?_⟩ <;> rw [outcome_bind, outcome_get]
  · exact hstore
  · exact hend

/-- An evaluation that makes changes and gives a value. -/
theorem modifyGet
    {make : Store → α × Store}
    {w' : World given}
    (hchanges : Changes w w')
    (hstore : (make w.store).2 = w'.store)
    (h : post w' (make w.store).1) :
    Within (MonadStateOf.modifyGet make) w post :=
  ⟨w', hchanges, hstore, h⟩

/-- An evaluation that makes changes. -/
theorem modify
    {change : Store → Store}
    {post : World given → Unit → Prop}
    {w' : World given}
    (hchanges : Changes w w')
    (hstore : change w.store = w'.store)
    (h : post w' ()) :
    Within (modify change) w post :=
  ⟨w', hchanges, hstore, h⟩

/-- A result that needs no store. -/
theorem lift
    {result : Except Halt α}
    (hok : ∀ value, result = .ok value → post w value)
    (herror : ∀ halt, result = .error halt → w.Allows halt) :
    Within (liftM result) w post := by
  refine ⟨w, .refl, rfl, ?_⟩
  cases result with
  | ok value => exact hok value rfl
  | error halt => exact herror halt rfl

end Within

end SmallLisp
