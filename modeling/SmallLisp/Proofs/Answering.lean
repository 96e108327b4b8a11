import SmallLisp.Proofs.Agreement
import SmallLisp.Proofs.Forest

/-!
# Runs as sequences of answers

An evaluation that comes to an end does so in the same way with more fuel, and in a session it is never
stuck. So with enough fuel a run over some forms gives what evaluating them one after another gives.

* `Session.Answered` says that inputs are answered one after another, each with as much fuel as it takes;
* `Session.Answered.runForms`: a run that is never told to stop delivers the answers to all forms;
* `Session.Answered.runForms_append`: a run that is told to stop leaves alone what comes behind.
-/

namespace SmallLisp

/-- Unless the fuel does not do, an evaluation ends as it does with more fuel. -/
theorem eval_agrees_of_le
    {fuel more : Nat}
    (h : fuel ≤ more) :
    Evaluator.AgreesUnless .unfinished (eval fuel) (eval more) := by
  induction fuel generalizing more with
  | zero => exact fun expression frame => .halted _
  | succ fuel ih =>
      cases more with
      | zero => exact absurd h (Nat.not_succ_le_zero fuel)
      | succ more => exact evalStep_agrees (ih (Nat.le_of_succ_le_succ h))

namespace Session

/-- Inputs are answered one after another, each in the state that the ones before it left. Each of them
gets as much fuel as it takes to answer it. -/
inductive Answered
    {α : Type}
    (serve : Nat → α → Session → Answer × Session) :
    Session → List α → List Answer → Session → Prop
  | nil
      (session : Session) :
      Answered serve session [] [] session
  | cons
      {session between later : Session}
      {fuel : Nat}
      {input : α}
      {inputs : List α}
      {answer : Answer}
      {answers : List Answer}
      (hanswer : serve fuel input session = (answer, between))
      (hfinishes : answer ≠ .error .unfinished)
      (hrest : Answered serve between inputs answers later) :
      Answered serve session (input :: inputs) (answer :: answers) later

/-- A caller that has had the answers `before`, the latest first, goes on after each of the next answers but
the last, and stops there. -/
def StopsAfter (goOn : List Answer → Bool) (before answers : List Answer) : Prop :=
  ∀ front back,
    answers = front ++ back →
    front ≠ [] →
    (goOn (front.reverse ++ before) = true ↔ back ≠ [])

/-- Every input has its answer. -/
theorem Answered.length_eq
    {α : Type}
    {serve : Nat → α → Session → Answer × Session}
    {session later : Session}
    {inputs : List α}
    {answers : List Answer}
    (h : Answered serve session inputs answers later) :
    answers.length = inputs.length := by
  induction h with
  | nil => rfl
  | cons _ _ _ ih => exact congrArg (· + 1) ih

section Fuel

variable {session : Session} {fuel more : Nat} {form : Datum}

/-- A form that is answered is answered alike with more fuel. -/
theorem evaluateForm_of_le
    (h : fuel ≤ more)
    (hfinishes : (session.evaluateForm fuel form).1 ≠ .error .unfinished) :
    session.evaluateForm more form = session.evaluateForm fuel form := by
  rw [evaluateForm_eq] at hfinishes
  rw [evaluateForm_eq, evaluateForm_eq]
  rcases eval_agrees_of_le h (form.install session.store).1 session.root
    (form.install session.store).2 with hhalt | hsame
  · rw [show (session.valueOf fuel form).1 = _ from hhalt] at hfinishes
    exact (hfinishes rfl).elim
  · rw [show session.valueOf fuel form = session.valueOf more form from hsame]

/-- A text that is answered is answered alike with more fuel. -/
theorem evaluate_of_le
    {text : String}
    (h : fuel ≤ more)
    (hfinishes : (session.evaluate fuel text).1 ≠ .error .unfinished) :
    session.evaluate more text = session.evaluate fuel text := by
  unfold evaluate at hfinishes ⊢
  cases hread : readForm text with
  | error e => rfl
  | ok form =>
      rw [hread] at hfinishes
      exact evaluateForm_of_le h hfinishes

/-- No form of a session is stuck. -/
theorem WellFormed.not_stuck
    (h : session.WellFormed)
    (fuel : Nat)
    (form : Datum) :
    (session.evaluateForm fuel form).1 ≠ .error .stuck := by
  intro hstuck
  obtain ⟨w, -, -, -, hallows⟩ := h.exists_changes fuel form
  rcases evaluateForm_error hstuck with hvalue | hunfinished | hunprintable
  · exact hallows _ hvalue
  · cases hunfinished
  · cases hunprintable

end Fuel

section Runs

variable {session between later : Session} {fuel : Nat} {goOn : List Answer → Bool}
variable {failure : Option ReadError} {before answers : List Answer} {answer : Answer}
variable {form : Datum} {forms : List Datum}

/-- With any fuel from some on, a run delivers the answer to its first form and then goes on if it is told
to. -/
theorem WellFormed.runForms_cons
    (h : session.WellFormed)
    (hanswer : session.evaluateForm fuel form = (answer, between))
    (hfinishes : answer ≠ .error .unfinished)
    {more : Nat}
    (hmore : fuel ≤ more) :
    session.runForms more goOn failure before (form :: forms) =
      if goOn (answer :: before) then
        ((between.runForms more goOn failure (answer :: before) forms).1.push answer,
          (between.runForms more goOn failure (answer :: before) forms).2)
      else (⟨[answer], none⟩, between) := by
  have hstuck := h.not_stuck fuel form
  have hlonger := evaluateForm_of_le hmore (by rwa [hanswer])
  rw [hanswer] at hstuck hlonger
  rw [runForms, hlonger]
  split
  · rename_i heq
    cases heq
    exact (hstuck rfl).elim
  · rename_i heq
    cases heq
    exact (hfinishes rfl).elim
  · rename_i heq
    cases heq
    rfl

/-- The state behind the first form of a run is well-formed again. -/
theorem WellFormed.of_evaluateForm
    (h : session.WellFormed)
    (hanswer : session.evaluateForm fuel form = (answer, between)) :
    between.WellFormed := by
  have hlater := (h.evaluateForm fuel form).1
  rwa [hanswer] at hlater

/-- A run that is never told to stop delivers the answers to all its forms. -/
theorem Answered.runForms
    (h : Answered evaluateForm session forms answers later)
    (hwellFormed : session.WellFormed)
    (failure : Option ReadError)
    (before : List Answer) :
    ∃ least, ∀ fuel, least ≤ fuel →
      session.runForms fuel (fun _ => true) failure before forms =
        (⟨answers, failure.map fun e => .error (.reading e)⟩, later) := by
  induction h generalizing before with
  | nil => exact ⟨0, fun _ _ => rfl⟩
  | @cons session between later needed form forms answer answers hanswer hfinishes _ ih =>
      -- The larger one of two fuels does for the first form and for the others.
      obtain ⟨least, hleast⟩ := ih (hwellFormed.of_evaluateForm hanswer) (answer :: before)
      refine ⟨max needed least, fun fuel hfuel => ?_⟩
      rw [hwellFormed.runForms_cons hanswer hfinishes (Nat.max_le.mp hfuel).1,
        hleast fuel (Nat.max_le.mp hfuel).2]
      rfl

/-- A caller that stops after some answers either stops at the first of them, which is the only one, or
goes on and stops after the others. -/
theorem StopsAfter.cons_cases
    (h : StopsAfter goOn before (answer :: answers)) :
    (goOn (answer :: before) = false ∧ answers = []) ∨
      (goOn (answer :: before) = true ∧ answers ≠ [] ∧ StopsAfter goOn (answer :: before) answers) := by
  have hfirst : goOn (answer :: before) = true ↔ answers ≠ [] :=
    h [answer] answers rfl (List.cons_ne_nil _ _)
  by_cases hlast : answers = []
  · refine .inl ⟨?_, hlast⟩
    rw [← Bool.not_eq_true]
    exact fun hgoes => hfirst.mp hgoes hlast
  · refine .inr ⟨hfirst.mpr hlast, hlast, ?_⟩
    rintro front back rfl -
    have hlater := h (answer :: front) back rfl (List.cons_ne_nil _ _)
    rwa [List.reverse_cons, List.append_assoc] at hlater

/-- A run that is told to stop after the answers to some forms delivers these answers, and evaluates none of
the forms behind them. -/
theorem Answered.runForms_append
    (h : Answered evaluateForm session forms answers later)
    (hwellFormed : session.WellFormed)
    (hsome : answers ≠ [])
    (hstops : StopsAfter goOn before answers)
    (failure : Option ReadError)
    (others : List Datum) :
    ∃ least, ∀ fuel, least ≤ fuel →
      session.runForms fuel goOn failure before (forms ++ others) = (⟨answers, none⟩, later) := by
  induction h generalizing before with
  | nil => exact (hsome rfl).elim
  | @cons session between later needed form forms answer answers hanswer hfinishes hrest ih =>
      rcases hstops.cons_cases with ⟨hgoes, rfl⟩ | ⟨hgoes, hmore, hlater⟩
      · refine ⟨needed, fun fuel hfuel => ?_⟩
        rw [List.cons_append, hwellFormed.runForms_cons hanswer hfinishes hfuel, hgoes]
        cases hrest
        rfl
      · obtain ⟨least, hleast⟩ := ih (hwellFormed.of_evaluateForm hanswer) hmore hlater
        refine ⟨max needed least, fun fuel hfuel => ?_⟩
        rw [List.cons_append,
          hwellFormed.runForms_cons hanswer hfinishes (Nat.max_le.mp hfuel).1, hgoes,
          hleast fuel (Nat.max_le.mp hfuel).2]
        rfl

end Runs

end Session

end SmallLisp
