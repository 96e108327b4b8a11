import SmallLisp.Proofs.RoundTrip
import SmallLisp.Session

/-!
# Sessions as sequences of forms

Whatever calls a session gets, it evaluates forms one after another, each of them in the state that the
ones before it left.

* `Session.Reachable` are the states of sessions;
* `Session.answers_runForms` and `Session.exists_after_runForms` say which evaluations of forms a call is
  made of;
* `Session.Reachable.induct`: what holds at the start and is kept by evaluating forms that are written in
  texts holds of all states of sessions.
-/

namespace SmallLisp

/-- The first frame of a session binds primitives. -/
theorem Frame.exists_primitive_of_get?
    {name : String}
    {value : Value}
    (h : Frame.primitives.get? name = some value) :
    ∃ p, value = .primitive p := by
  obtain ⟨p, -, hp⟩ := List.mem_map.mp (Frame.mem_bindings_of_get? h)
  cases hp
  exact ⟨p, rfl⟩

namespace Session

/-- What evaluating a form gives, before its value is printed. -/
def valueOf (fuel : Nat) (form : Datum) (session : Session) : Except Halt Value × Store :=
  outcome (eval fuel (form.install session.store).1 session.root) (form.install session.store).2

/-- The session after some forms. -/
def afterForms (fuel : Nat) (forms : List Datum) (session : Session) : Session :=
  forms.foldl (fun session form => (session.evaluateForm fuel form).2) session

/-- The forms that a text is made of, up to the first that cannot be read. -/
def formsOf (text : String) : List Datum :=
  match Cursor.ofString text with
  | .error _ => []
  | .ok cursor => cursor.forms.1

/-- The states that a session can come into, from its start through any calls. -/
inductive Reachable : Session → Prop
  | start : Reachable start
  | evaluate
      {session : Session}
      (h : Reachable session)
      (fuel : Nat)
      (text : String) :
      Reachable (session.evaluate fuel text).2
  | evaluateAll
      {session : Session}
      (h : Reachable session)
      (fuel : Nat)
      (goOn : List Answer → Bool)
      (text : String) :
      Reachable (session.evaluateAll fuel goOn text).2

/-- One call, from the state of a session before it to the state after it. -/
inductive Call : Session → Session → Prop
  | evaluate
      (session : Session)
      (fuel : Nat)
      (text : String) :
      Call session (session.evaluate fuel text).2
  | evaluateAll
      (session : Session)
      (fuel : Nat)
      (goOn : List Answer → Bool)
      (text : String) :
      Call session (session.evaluateAll fuel goOn text).2

/-- Any number of calls. -/
def Leads : Session → Session → Prop :=
  Relation.ReflTransGen Call

/-- The value of a form is printed, and its store is kept. -/
theorem evaluateForm_eq
    (fuel : Nat)
    (form : Datum)
    (session : Session) :
    session.evaluateForm fuel form =
      ((session.valueOf fuel form).1.bind (session.valueOf fuel form).2.print,
        ⟨(session.valueOf fuel form).2, session.root⟩) := by
  obtain ⟨store, root⟩ := session
  unfold evaluateForm valueOf
  dsimp only
  rcases outcome (eval fuel (form.install store).1 root) (form.install store).2 with
    ⟨_ | value, after⟩ <;> rfl

/-- A form is answered as its value halts, or printing the value halts. -/
theorem evaluateForm_error
    {fuel : Nat}
    {form : Datum}
    {session : Session}
    {halt : Halt}
    (h : (session.evaluateForm fuel form).1 = .error halt) :
    (session.valueOf fuel form).1 = .error halt ∨
      halt = .unfinished ∨
      halt = Fault.unprintable.halt := by
  rw [evaluateForm_eq] at h
  cases hvalue : (session.valueOf fuel form).1 with
  | error halted =>
      rw [hvalue] at h
      cases h
      exact .inl rfl
  | ok value =>
      rw [hvalue] at h
      change ((session.valueOf fuel form).2.datum value).map Datum.print = .error halt at h
      cases hdatum : (session.valueOf fuel form).2.datum value with
      | ok datum =>
          rw [hdatum] at h
          cases h
      | error halted =>
          rw [hdatum] at h
          cases h
          exact .inr ((Store.datumUpTo_error hdatum).imp_right And.left)

section Forms

variable {fuel : Nat} {goOn : List Answer → Bool} {failure : Option ReadError}

/-- A run ends with its first form, as the form halts or with an answer to it, or is told to go on after the
answer. -/
theorem runForms_cons_cases
    (before : List Answer)
    (form : Datum)
    (forms : List Datum)
    (session : Session) :
    (∃ failed,
      (session.evaluateForm fuel form).1 = .error failed ∧
        session.runForms fuel goOn failure before (form :: forms) =
          (⟨[], some failed⟩, (session.evaluateForm fuel form).2)) ∨
    session.runForms fuel goOn failure before (form :: forms) =
      (⟨[(session.evaluateForm fuel form).1], none⟩, (session.evaluateForm fuel form).2) ∨
    ∃ run after,
      goOn ((session.evaluateForm fuel form).1 :: before) = true ∧
        (session.evaluateForm fuel form).2.runForms fuel goOn failure
          ((session.evaluateForm fuel form).1 :: before) forms = (run, after) ∧
        session.runForms fuel goOn failure before (form :: forms) =
          (run.push (session.evaluateForm fuel form).1, after) := by
  rcases hform : session.evaluateForm fuel form with ⟨answer, after⟩
  rw [runForms, hform]
  split
  · rename_i hstuck
    cases hstuck
    exact .inl ⟨_, rfl, rfl⟩
  · rename_i hunfinished
    cases hunfinished
    exact .inl ⟨_, rfl, rfl⟩
  · rename_i hanswer
    cases hanswer
    split
    case isTrue hgoes => exact .inr (.inr ⟨_, _, hgoes, rfl, rfl⟩)
    case isFalse => exact .inr (.inl rfl)

/-- Every answer is that of one form, in the state after the forms before it. -/
theorem answers_runForms
    {before : List Answer}
    {forms : List Datum}
    {session : Session}
    {number : Nat}
    {answer : Answer}
    (h : (session.runForms fuel goOn failure before forms).1.answers[number]? = some answer) :
    ∃ form,
      forms[number]? = some form ∧
      ((session.afterForms fuel (forms.take number)).evaluateForm fuel form).1 = answer := by
  induction forms generalizing before session number with
  | nil => cases h
  | cons form forms ih =>
      rcases runForms_cons_cases before form forms session with
        ⟨failed, -, hrun⟩ | hrun | ⟨run, after, -, hrest, hrun⟩ <;> rw [hrun] at h
      · cases h
      · cases number with
        | zero => exact ⟨form, rfl, Option.some.inj h⟩
        | succ number => cases h
      · cases number with
        | zero => exact ⟨form, rfl, Option.some.inj h⟩
        | succ number =>
            have hanswer : ((session.evaluateForm fuel form).2.runForms fuel goOn failure
                ((session.evaluateForm fuel form).1 :: before) forms).1.answers[number]? =
                  some answer := by
              rw [hrest]
              exact h
            exact ih hanswer

/-- A run leaves the state after some of its forms. -/
theorem exists_after_runForms
    (before : List Answer)
    (forms : List Datum)
    (session : Session) :
    ∃ count,
      (session.runForms fuel goOn failure before forms).2 =
        session.afterForms fuel (forms.take count) := by
  induction forms generalizing before session with
  | nil => exact ⟨0, rfl⟩
  | cons form forms ih =>
      rcases runForms_cons_cases before form forms session with
        ⟨failed, -, hrun⟩ | hrun | ⟨run, after, -, hrest, hrun⟩ <;> rw [hrun]
      · exact ⟨1, rfl⟩
      · exact ⟨1, rfl⟩
      · obtain ⟨count, hcount⟩ := ih ((session.evaluateForm fuel form).1 :: before)
          (session.evaluateForm fuel form).2
        rw [hrest] at hcount
        exact ⟨count + 1, hcount⟩

/-- The answers of a call are those of the forms of its text. -/
theorem answers_evaluateAll
    {text : String}
    {session : Session}
    {number : Nat}
    {answer : Answer}
    (h : (session.evaluateAll fuel goOn text).1.answers[number]? = some answer) :
    ∃ form,
      (formsOf text)[number]? = some form ∧
      ((session.afterForms fuel ((formsOf text).take number)).evaluateForm fuel form).1 =
        answer := by
  unfold evaluateAll at h
  unfold formsOf
  cases hcursor : Cursor.ofString text with
  | error e =>
      rw [hcursor] at h
      cases h
  | ok cursor =>
      rw [hcursor] at h
      exact answers_runForms h

theorem exists_after_evaluateAll
    (text : String)
    (session : Session) :
    ∃ count,
      (session.evaluateAll fuel goOn text).2 =
        session.afterForms fuel ((formsOf text).take count) := by
  unfold evaluateAll formsOf
  cases Cursor.ofString text with
  | error e => exact ⟨0, rfl⟩
  | ok cursor => exact exists_after_runForms [] cursor.forms.1 session

end Forms

/-- The symbols of the forms of a text have readable names. -/
theorem readableName_of_mem_formsOf
    {text name : String}
    {form : Datum}
    (hform : form ∈ formsOf text)
    (hname : name ∈ form.names) :
    ReadableName name := by
  unfold formsOf at hform
  cases hcursor : Cursor.ofString text with
  | error e =>
      rw [hcursor] at hform
      cases hform
  | ok cursor =>
      rw [hcursor] at hform
      obtain ⟨read, htokens, hderives⟩ := Cursor.derives_of_mem_forms hform
      rw [Lexed.remaining_of_enter hcursor] at htokens
      exact readableName_of_derives htokens hderives hname

/-- A text that is one form is made of that form. -/
theorem formsOf_of_readForm
    {text : String}
    {form : Datum}
    (h : readForm text = .ok form) :
    formsOf text = [form] := by
  obtain ⟨cursor, after, hcursor, hread, hend⟩ := readForm_eq_ok_iff.mp h
  unfold formsOf
  rw [hcursor]
  dsimp only
  rw [Cursor.forms_of_readDatum hread, Cursor.forms_of_atEnd hend]

/-- What is kept by evaluating the forms of a text is kept by evaluating some of them in order. -/
theorem afterForms_induct
    {P : Session → Prop}
    {fuel : Nat}
    {forms : List Datum}
    (hform : ∀ session, ∀ form ∈ forms, P session → P (session.evaluateForm fuel form).2)
    {session : Session}
    (h : P session) :
    P (session.afterForms fuel forms) := by
  induction forms generalizing session with
  | nil => exact h
  | cons form forms ih =>
      refine ih (fun session later hlater => ?_) (hform session form List.mem_cons_self h)
      exact hform session later (List.mem_cons_of_mem _ hlater)

/-- What is kept by evaluating the forms of texts is kept by a call. -/
theorem Call.keeps
    {P : Session → Prop}
    (hform : ∀ session fuel text, ∀ form ∈ formsOf text,
      P session → P (session.evaluateForm fuel form).2)
    {session later : Session}
    (hcall : Call session later)
    (h : P session) :
    P later := by
  cases hcall with
  | evaluate fuel text =>
      unfold Session.evaluate
      cases hread : readForm text with
      | error e => exact h
      | ok form =>
          refine hform session fuel text form ?_ h
          rw [formsOf_of_readForm hread]
          exact List.mem_singleton.mpr rfl
  | evaluateAll fuel goOn text =>
      obtain ⟨count, hcount⟩ := session.exists_after_evaluateAll text
      rw [hcount]
      refine afterForms_induct (fun session form hmember => ?_) h
      exact hform session fuel text form (List.mem_of_mem_take hmember)

/-- What is kept by evaluating the forms of texts is kept by any number of calls. -/
theorem Leads.keeps
    {P : Session → Prop}
    (hform : ∀ session fuel text, ∀ form ∈ formsOf text,
      P session → P (session.evaluateForm fuel form).2)
    {session later : Session}
    (hleads : Leads session later)
    (h : P session) :
    P later := by
  induction hleads with
  | refl => exact h
  | tail _ hcall ih => exact hcall.keeps hform ih

/-- What holds at the start and is kept by evaluating the forms of texts holds of all states. -/
theorem Reachable.induct
    {P : Session → Prop}
    (hstart : P Session.start)
    (hform : ∀ session fuel text, ∀ form ∈ formsOf text,
      P session → P (session.evaluateForm fuel form).2)
    {session : Session}
    (h : Reachable session) :
    P session := by
  induction h with
  | start => exact hstart
  | @evaluate session _ fuel text ih => exact (Call.evaluate session fuel text).keeps hform ih
  | @evaluateAll session _ fuel goOn text ih =>
      exact (Call.evaluateAll session fuel goOn text).keeps hform ih

end Session

end SmallLisp
