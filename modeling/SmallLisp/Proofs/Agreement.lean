import SmallLisp.Eval.Evaluator

/-!
# Evaluators that agree

A procedure of the language uses its evaluator for nothing but evaluating expressions. So if one
evaluator ends as another one does unless it halts in a particular way, then this holds as well for all
that is built over the two.

* `AgreesUnless` compares two evaluations, `Evaluator.AgreesUnless` two evaluators;
* `applyValue_agrees` and `evalStep_agrees` go from two evaluators to what is built over them.
-/

namespace SmallLisp

/-- The first evaluation ends as the second one does, unless it halts as `halt`. -/
def AgreesUnless {α : Type} (halt : Halt) (run run' : EvalM α) : Prop :=
  ∀ store, (outcome run store).1 = .error halt ∨ outcome run store = outcome run' store

/-- The first evaluator ends as the second one does, unless it halts as `halt`. -/
def Evaluator.AgreesUnless (halt : Halt) (ev ev' : Evaluator) : Prop :=
  ∀ expression frame, SmallLisp.AgreesUnless halt (ev expression frame) (ev' expression frame)

namespace AgreesUnless

variable {α β : Type} {halt : Halt}

theorem refl (run : EvalM α) : AgreesUnless halt run run :=
  fun _ => .inr rfl

theorem halted (run' : EvalM α) : AgreesUnless halt (throw halt) run' :=
  fun _ => .inl rfl

theorem trans
    {run run' run'' : EvalM α}
    (h : AgreesUnless halt run run')
    (h' : AgreesUnless halt run' run'') :
    AgreesUnless halt run run'' := by
  intro store
  rcases h store with hhalt | hsame
  · exact .inl hhalt
  · rw [hsame]
    exact h' store

theorem bind
    {run run' : EvalM α}
    {next next' : α → EvalM β}
    (hrun : AgreesUnless halt run run')
    (hnext : ∀ value, AgreesUnless halt (next value) (next' value)) :
    AgreesUnless halt (run >>= next) (run' >>= next') := by
  intro store
  rw [outcome_bind, outcome_bind]
  rcases hrun store with hhalt | hsame
  · rcases h : outcome run store with ⟨_ | _, after⟩ <;> rw [h] at hhalt <;> cases hhalt
    exact .inl rfl
  · rw [← hsame]
    rcases outcome run store with ⟨_ | value, after⟩
    · exact .inr rfl
    · exact hnext value after

/-- The first parts are the same. -/
theorem bindRight
    {run : EvalM α}
    {next next' : α → EvalM β}
    (hnext : ∀ value, AgreesUnless halt (next value) (next' value)) :
    AgreesUnless halt (run >>= next) (run >>= next') :=
  bind (refl run) hnext

end AgreesUnless

section Evaluators

variable {halt : Halt} {ev ev' : Evaluator} {frame : FrameId}

theorem evalAll_agrees
    (hev : ev.AgreesUnless halt ev')
    (operands : List Value) :
    AgreesUnless halt (evalAll ev frame operands) (evalAll ev' frame operands) := by
  induction operands with
  | nil => exact .refl _
  | cons expression expressions ih =>
      refine .bind (hev expression frame) fun value => ?_
      exact .bind ih fun values => .refl _

theorem evalBody_agrees
    (hev : ev.AgreesUnless halt ev')
    (last : Value)
    (operands : List Value) :
    AgreesUnless halt (evalBody ev frame last operands) (evalBody ev' frame last operands) := by
  induction operands generalizing last with
  | nil => exact .refl _
  | cons expression expressions ih => exact .bind (hev expression frame) ih

theorem Comparison.apply_agrees
    (relation : Comparison)
    (hev : ev.AgreesUnless halt ev')
    (previous : Option Int64)
    (operands : List Value) :
    AgreesUnless halt (relation.apply ev frame previous operands)
      (relation.apply ev' frame previous operands) := by
  induction operands generalizing previous with
  | nil => exact .refl _
  | cons expression expressions ih =>
      refine .bind (hev expression frame) fun value => ?_
      refine .bindRight fun number => ?_
      cases previous with
      | none => exact ih _
      | some before =>
          dsimp only
          split
          · exact ih _
          · exact .refl _

theorem Connective.apply_agrees
    (junction : Connective)
    (hev : ev.AgreesUnless halt ev')
    (last : Value)
    (operands : List Value) :
    AgreesUnless halt (junction.apply ev frame last operands)
      (junction.apply ev' frame last operands) := by
  induction operands generalizing last with
  | nil => exact .refl _
  | cons expression expressions ih =>
      refine .bind (hev expression frame) fun value => ?_
      split
      · exact .refl _
      · exact ih _

theorem evalBranch_agrees
    (hev : ev.AgreesUnless halt ev')
    (operands : List Value) :
    AgreesUnless halt (evalBranch ev operands frame) (evalBranch ev' operands frame) := by
  refine .bindRight fun test => ?_
  refine .bind (hev test frame) fun decision => ?_
  split
  · exact .bindRight fun branch => hev branch frame
  · split
    · exact hev _ frame
    · exact .refl _
  · exact .refl _

theorem evalDefine_agrees
    (hev : ev.AgreesUnless halt ev')
    (operands : List Value) :
    AgreesUnless halt (evalDefine ev operands frame) (evalDefine ev' operands frame) := by
  refine .bindRight fun target => ?_
  split
  · unfold defineVariable
    split
    · refine .bindRight fun expression => ?_
      exact .bind (hev expression frame) fun value => .refl _
    · exact .refl _
  · exact .refl _
  · exact .refl _

theorem evalAssign_agrees
    (hev : ev.AgreesUnless halt ev')
    (operands : List Value) :
    AgreesUnless halt (evalAssign ev operands frame) (evalAssign ev' operands frame) := by
  refine .bindRight fun target => ?_
  split
  · refine .bindRight fun expression => ?_
    exact .bind (hev expression frame) fun value => .refl _
  · exact .refl _

theorem SpecialForm.apply_agrees
    (form : SpecialForm)
    (hev : ev.AgreesUnless halt ev')
    (operands : List Value) :
    AgreesUnless halt (form.apply ev operands frame) (form.apply ev' operands frame) := by
  cases form with
  | branch => exact evalBranch_agrees hev operands
  | define => exact evalDefine_agrees hev operands
  | assign => exact evalAssign_agrees hev operands
  | lambda => exact .refl _

theorem Primitive.apply_agrees
    (primitive : Primitive)
    (hev : ev.AgreesUnless halt ev')
    (operands : List Value) :
    AgreesUnless halt (primitive.apply ev operands frame)
      (primitive.apply ev' operands frame) := by
  unfold Primitive.apply
  split
  · cases primitive with
    | strict procedure => exact .bind (evalAll_agrees hev operands) fun _ => .refl _
    | comparison relation => exact relation.apply_agrees hev none operands
    | connective junction => exact junction.apply_agrees hev junction.neutral operands
    | special form => exact form.apply_agrees hev operands
    | _ => exact .refl _
  · exact .refl _

theorem bindInTurn_agrees
    (hev : ev.AgreesUnless halt ev')
    (scope : FrameId)
    (entries : List (String × Value)) :
    AgreesUnless halt (bindInTurn ev frame scope entries) (bindInTurn ev' frame scope entries) := by
  induction entries with
  | nil => exact .refl _
  | cons entry entries ih =>
      refine .bind (hev entry.2 frame) fun argument => ?_
      exact .bindRight fun _ => ih

theorem Closure.apply_agrees
    (closure : Closure)
    (hev : ev.AgreesUnless halt ev')
    (operands : List Value) :
    AgreesUnless halt (closure.apply ev operands frame) (closure.apply ev' operands frame) := by
  unfold Closure.apply
  split
  · refine .bindRight fun scope => ?_
    exact .bind (bindInTurn_agrees hev scope _) fun _ => evalBody_agrees hev .nil closure.body
  · exact .refl _

theorem applyValue_agrees
    (hev : ev.AgreesUnless halt ev')
    (procedure : Value)
    (operands : List Value) :
    AgreesUnless halt (applyValue ev procedure operands frame)
      (applyValue ev' procedure operands frame) := by
  cases procedure with
  | primitive primitive => exact primitive.apply_agrees hev operands
  | closure id => exact .bindRight fun store => (store.closure id).apply_agrees hev operands
  | _ => exact .refl _

theorem evalStep_agrees
    (hev : ev.AgreesUnless halt ev') :
    Evaluator.AgreesUnless halt (evalStep ev) (evalStep ev') := by
  intro expression frame
  cases expression with
  | pair id =>
      refine .bindRight fun store => ?_
      refine .bind (hev (store.pair id).first frame) fun procedure => ?_
      exact .bindRight fun operands => applyValue_agrees hev procedure operands
  | _ => exact .refl _

end Evaluators

end SmallLisp
