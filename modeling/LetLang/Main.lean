import LetLang.CommandLine.Report

/-!
# The program

The outer layer: reads files and lines, and prints what the library answers.
-/

namespace LetLang

/-- Prints a report and gives its exit code. -/
def Report.print (report : Report) : IO UInt32 := do
  (← IO.getStdout).putStr report.stdout
  (← IO.getStderr).putStr report.stderr
  return report.exitCode.toUInt32

/-- The contents of a file. -/
def readScript (path : String) : IO (Except ReadFailure ByteArray) := do
  try
    return .ok (← IO.FS.readBinFile path)
  catch
    | .noFileOrDirectory .. => return .error .notFound
    | .inappropriateType .. => return .error .isDirectory
    | failure => return .error (.other failure.toString)

/-- Answers the lines of the standard input until the session ends. -/
partial def converse (input output : IO.FS.Stream) (interactive : Bool)
    (session : Session) : IO Unit := do
  if interactive then
    output.putStr ">> "
    output.flush
  let line ← input.getLine
  if line = "" then
    return
  match Input.parse (LineEdit.reader.read line) with
  | .quit => return
  | request =>
      let (answer, next) := session.respond request
      if let some text := answer then
        output.putStrLn text
        output.flush
      converse input output interactive next

end LetLang

open LetLang in
/-- Runs a script, a source text or a session. -/
def main (arguments : List String) : IO UInt32 := do
  match Arguments.parse arguments with
  | .error refusal => (Report.ofRefusal refusal).print
  | .ok settings =>
      match settings.script, settings.eval with
      | some path, _ =>
          (Report.ofScript settings.maxDepth path (← readScript path)).print
      | none, some source => (Report.ofSource settings.maxDepth source).print
      | none, none => do
          let input ← IO.getStdin
          let output ← IO.getStdout
          output.putStrLn Report.greeting
          output.flush
          converse input output (← input.isTty) (.start settings.maxDepth)
          return 0
