import SmallLisp.CommandLine

/-!
# The program

With an argument, runs the file that it names. Without one, evaluates the lines of the standard
input, and asks for each of them if a person is typing.
-/

/-- Runs a file or answers lines. -/
def main (arguments : List String) : IO UInt32 := do
  match arguments with
  | file :: _ =>
    let bytes ←
      try IO.FS.readBinFile file
      catch e =>
        IO.eprintln s!"Unable to read {file}: {e}"
        return 1
    let output := SmallLisp.runFile SmallLisp.nestingLimit bytes
    IO.print output.text
    return output.code.toUInt32
  | [] =>
    let input ← IO.getStdin
    let prompt := if ← input.isTty then "> " else ""
    SmallLisp.answerLines SmallLisp.clusterEditor input prompt SmallLisp.Session.start
