import LetLang.CommandLine.Arguments
import LetLang.LineEdit
import LetLang.Session

/-!
# What the program prints

The program runs a script file or a source text and reports its value, or it
holds a session over the lines of its input.  Its report is a function of the
arguments, the files it can see and its input.
-/

namespace LetLang

/-- The version of the language. -/
def version : String := "0.0.1"

/-- What the program leaves behind: its exit code and what it wrote to each of
its two outputs. -/
structure Report where
  exitCode : Nat
  stdout : String
  stderr : String
deriving DecidableEq, Repr

/-- Why a file could not be read as text. -/
inductive ReadFailure where
  | notFound
  | isDirectory
  /-- The contents are not text in UTF-8. -/
  | notText
  /-- Another reason, in the words of the system. -/
  | other (reason : String)
deriving DecidableEq, Repr

namespace ReadFailure

/-- The wording of a reason. -/
def message : ReadFailure → String
  | notFound => "No such file or directory (os error 2)"
  | isDirectory => "Is a directory (os error 21)"
  | notText => "stream did not contain valid UTF-8"
  | other reason => reason

end ReadFailure

namespace Report

/-- The help text. -/
def usage : String :=
  "\n".intercalate
    ["Run Mandrill scripts, or start an interactive session when no script is given",
      "",
      "Usage: mandrill [OPTIONS] [FILE]",
      "",
      "Arguments:",
      "  [FILE]  Script file to run",
      "",
      "Options:",
      "  -e, --eval <SOURCE>       Evaluate this source text and print the result",
      "      --max-depth <N>       Maximum evaluation depth before a program is stopped",
      "      --log-level <FILTER>  Log filter",
      "  -h, --help                Print help",
      "  -V, --version             Print version"]

/-- The wording of wrong arguments. -/
def complaint : Arguments.Refusal → String
  | .unknownArgument => "unexpected argument found"
  | .invalidValue => "a value is required but none was supplied"
  | .conflict => "an argument cannot be used here again or with another one"
  | .badNumber => "invalid value for '--max-depth <N>'"
  | .tooManyValues => "unexpected value for an option that takes none"
  | .help | .version => ""

/-- The report on arguments that do not start a run. -/
def ofRefusal (refusal : Arguments.Refusal) : Report :=
  match refusal with
  | .help => ⟨refusal.exitCode, usage ++ "\n", ""⟩
  | .version => ⟨refusal.exitCode, "mandrill " ++ version ++ "\n", ""⟩
  | _ => ⟨refusal.exitCode, "", "error: " ++ complaint refusal ++ "\n"⟩

/-- The report on one source text: its value on the standard output, or its
failure on the error output. -/
def ofSource (limit : Nat) (source : String) : Report :=
  let run := Run.ofSource limit source .empty
  match run.result with
  | .ok _ => ⟨0, run.render ++ "\n", ""⟩
  | .error _ => ⟨1, "", run.render ++ "\n"⟩

/-- The report on a script that could not be read. -/
def ofReadFailure (path : String) (failure : ReadFailure) : Report :=
  ⟨1, "", "Error: failed to read script " ++ path ++ "\n\nCaused by:\n    " ++
    failure.message ++ "\n"⟩

/-- The report on a script file with the given contents. -/
def ofScript (limit : Nat) (path : String) (contents : Except ReadFailure ByteArray) :
    Report :=
  match contents with
  | .error failure => ofReadFailure path failure
  | .ok bytes =>
      match String.fromUTF8? bytes with
      | none => ofReadFailure path .notText
      | some source => ofSource limit source

/-- The first line of a session. -/
def greeting : String :=
  "Mandrill " ++ version ++ ". Type :help for commands."

/-- The lines of a text; a last line may lack its line feed. -/
def linesOf (text : String) : List String :=
  let lines := text.toList.splitOn '\n'
  (if lines.getLast? = some [] then lines.dropLast else lines).map String.ofList

/-- The answers in a session over the given input, line by line as the reader hands
the lines on. -/
def answers (reader : LineReader) (limit : Nat) (input : String) : List String :=
  (Session.start limit).transcript ((linesOf input).map reader.read)

/-- The report on a session over the given input. -/
def ofSession (reader : LineReader) (limit : Nat) (input : String) : Report :=
  ⟨0, String.join ((greeting :: answers reader limit input).map (· ++ "\n")), ""⟩

/-- The report on a list of arguments, given the files and the standard input.  A
session reads its lines with backspaces in effect, unless another reader is given. -/
def ofArguments
    (files : String → Except ReadFailure ByteArray) (input : String)
    (arguments : List String) (reader : LineReader := LineEdit.reader) : Report :=
  match Arguments.parse arguments with
  | .error refusal => ofRefusal refusal
  | .ok settings =>
      match settings.script, settings.eval with
      | some path, _ => ofScript settings.maxDepth path (files path)
      | none, some source => ofSource settings.maxDepth source
      | none, none => ofSession reader settings.maxDepth input

end Report

end LetLang
