import SmallLisp.Eval.Evaluator
import SmallLisp.Store.Tree

/-!
# Sessions

A session takes texts and gives printed values. Its root frame holds all primitives at first, and
what one text defines the later ones see. What an evaluation did before an error stays done.

* `Session.evaluate` evaluates a text that is one form;
* `Session.evaluateAll` evaluates a text form after form. It goes on after errors of evaluation as
  long as it is told to, and ends at the first form that cannot be read.
-/

namespace SmallLisp

/-- What a session has to say about a form: the text of its value, or how the evaluation halted. -/
abbrev Answer := Except Halt String

/-- Whether the answer is a printed value. -/
def Answer.isText : Answer → Bool
  | .ok _ => true
  | .error _ => false

/-- The frame that binds every primitive to its name. -/
def Frame.primitives : Frame :=
  ⟨none, Primitive.all.map fun primitive => (primitive.name, .primitive primitive)⟩

/-- A store and the frame in which forms are evaluated. -/
structure Session where
  store : Store
  root : FrameId
deriving DecidableEq, Repr

/-- What evaluating the forms of a text led to. -/
structure Run where
  /-- The answers in order. -/
  answers : List Answer
  /-- Why the run ended early, unless it came to the end of the text or was told to stop. -/
  failure : Option Halt

/-- Puts an answer in front. -/
def Run.push (answer : Answer) (run : Run) : Run :=
  { run with answers := answer :: run.answers }

namespace Session

/-- A session before its first form. -/
def start : Session :=
  match Store.empty.newFrame Frame.primitives with
  | (root, store) => ⟨store, root⟩

/-- Evaluates a form in the root frame and prints its value. -/
def evaluateForm (fuel : Nat) (form : Datum) : Session → Answer × Session
  | ⟨store, root⟩ =>
    match form.install store with
    | (expression, store) =>
      match outcome (eval fuel expression root) store with
      | (.ok value, store) => (store.print value, ⟨store, root⟩)
      | (.error halt, store) => (.error halt, ⟨store, root⟩)

/-- Evaluates a text that is exactly one form. -/
def evaluate (fuel : Nat) (text : String) (session : Session) : Answer × Session :=
  match readForm text with
  | .ok form => session.evaluateForm fuel form
  | .error e => (.error (.error (.reading e)), session)

/-- Evaluates forms in order. After each answer `goOn` decides from the answers so far, the latest
first, whether to go on; `failure` is what comes after the last form. -/
def runForms
    (fuel : Nat)
    (goOn : List Answer → Bool)
    (failure : Option ReadError)
    (before : List Answer) :
    List Datum → Session → Run × Session
  | [], session => (⟨[], failure.map fun e => .error (.reading e)⟩, session)
  | form :: forms, session =>
    match session.evaluateForm fuel form with
    | (.error .stuck, session) => (⟨[], some .stuck⟩, session)
    | (.error .unfinished, session) => (⟨[], some .unfinished⟩, session)
    | (answer, session) =>
      if goOn (answer :: before) then
        match runForms fuel goOn failure (answer :: before) forms session with
        | (run, session) => (run.push answer, session)
      else (⟨[answer], none⟩, session)

/-- Evaluates a text form after form. -/
def evaluateAll (fuel : Nat) (goOn : List Answer → Bool) (text : String) (session : Session) :
    Run × Session :=
  match Cursor.ofString text with
  | .error e => (⟨[], some (.error (.reading (.lexical e)))⟩, session)
  | .ok cursor =>
    match cursor.forms with
    | (forms, failure) => session.runForms fuel goOn failure [] forms

end Session

end SmallLisp
