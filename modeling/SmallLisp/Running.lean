import SmallLisp.Session
import SmallLisp.Text.Line

/-!
# Running texts

Two ways to run texts, each with the lines that it prints and the code that it ends with:

* a file is evaluated form after form up to the first error, which is printed and makes the code 1;
* lines are evaluated one by one, as an editor leaves them, each of them one form. Blank lines are
  skipped, errors are printed and do not end the run, and the code is 0. Only a line of which the
  editor leaves none breaks the run off, with the code 101.
-/

namespace SmallLisp

/-- What a run prints and how it ends. -/
structure Output where
  /-- The printed lines in order. -/
  lines : List String
  /-- The exit code. -/
  code : UInt8
deriving DecidableEq, Repr

/-- The printed text, in which a line feed ends each line. -/
def Output.text (output : Output) : String :=
  String.join (output.lines.map fun line => line ++ "\n")

/-- The line that an answer is printed as. -/
def Answer.line? : Answer → Option String
  | .ok text => some text
  | .error (.error e) => some ("Error: " ++ e.report)
  | .error .stuck => none
  | .error .unfinished => none

/-- Goes on as long as the latest answer is a printed value. -/
def stopAtError : List Answer → Bool
  | [] => true
  | answer :: _ => answer.isText

/-- All that a run has to say: its answers, then why it ended early. -/
def Run.deliveries (run : Run) : List Answer :=
  run.answers ++ (run.failure.map .error).toList

/-- Runs a text as a file. -/
def runText (fuel : Nat) (text : String) : Output :=
  let deliveries := (Session.start.evaluateAll fuel stopAtError text).1.deliveries
  ⟨deliveries.filterMap Answer.line?, if deliveries.all Answer.isText then 0 else 1⟩

/-- Runs the contents of a file. Bytes that are no text print nothing and count as a failure. -/
def runFile (fuel : Nat) (bytes : ByteArray) : Output :=
  match String.fromUTF8? bytes with
  | some text => runText fuel text
  | none => ⟨[], 1⟩

/-- Evaluates one line; a blank line has no answer. -/
def runLine (fuel : Nat) (line : String) (session : Session) : Option String × Session :=
  if isBlankText line then (none, session)
  else
    match session.evaluate fuel line with
    | (answer, session) => (answer.line?, session)

/-- The code of a run that breaks off at a line of which the editor leaves none. -/
def brokenOffCode : UInt8 :=
  101

/-- Puts lines in front of an output. -/
def Output.prepend (lines : List String) (output : Output) : Output :=
  { output with lines := lines ++ output.lines }

namespace LineEditor

/-- Evaluates lines in order, each as the editor leaves it. -/
def runLinesFrom (editor : LineEditor) (fuel : Nat) : List String → Session → Output
  | [], _ => ⟨[], 0⟩
  | typed :: lines, session =>
    match editor.edit typed with
    | none => ⟨[], brokenOffCode⟩
    | some line =>
      match runLine fuel line session with
      | (printed, session) => (runLinesFrom editor fuel lines session).prepend printed.toList

/-- Runs a text line by line. -/
def runLines (editor : LineEditor) (fuel : Nat) (text : String) : Output :=
  editor.runLinesFrom fuel (linesOf text) Session.start

end LineEditor

end SmallLisp
