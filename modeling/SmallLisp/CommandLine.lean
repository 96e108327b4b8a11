import SmallLisp.Running
import SmallLisp.Text.Typed

/-!
# The command line

The program answers the lines of its standard input, in which a backspace takes back a grapheme
cluster. `runLines` is what it prints for an input as a whole; `answerLines` prints it line by line.
-/

namespace SmallLisp

/-- How deeply evaluations may nest. -/
def nestingLimit : Nat :=
  1000000000

/-- Runs a text line by line with the editor of the program. -/
def runLines (fuel : Nat) (text : String) : Output :=
  clusterEditor.runLines fuel text

/-- Answers lines until the input ends, and gives the exit code. -/
partial def answerLines
    (editor : LineEditor)
    (input : IO.FS.Stream)
    (prompt : String)
    (session : Session) :
    IO UInt32 := do
  IO.print prompt
  (← IO.getStdout).flush
  let typed ← input.getLine
  if typed.isEmpty then pure 0
  else
    match editor.edit typed with
    | none => pure brokenOffCode.toUInt32
    | some line =>
      match runLine nestingLimit line session with
      | (printed, session) =>
        for answer in printed do
          IO.println answer
        answerLines editor input prompt session

end SmallLisp
