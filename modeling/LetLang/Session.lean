import LetLang.Run
import LetLang.Whitespace

/-!
# Interactive sessions

A session keeps one environment over all its lines.  A line is either source
text, which is run, or a command that starts with a colon.
-/

namespace LetLang

/-- A line of input, by what it asks for. -/
inductive Input where
  /-- Nothing but white space. -/
  | empty
  /-- Asks for the bindings. -/
  | env
  /-- Asks for the list of commands. -/
  | help
  /-- Ends the session. -/
  | quit
  /-- Another line that starts with a colon. -/
  | unknown (command : String)
  /-- Source text. -/
  | source (text : String)
deriving DecidableEq, Repr

/-- What a line asks for, after the white space around it is dropped. -/
def Input.parse (line : String) : Input :=
  let text := trim line
  if text = "" then .empty
  else if text = ":env" then .env
  else if text = ":help" then .help
  else if text = ":quit" ∨ text = ":q" then .quit
  else if text.toList.head? = some ':' then .unknown text
  else .source text

/-- The bindings so far, and the limit on the depth of evaluation. -/
structure Session where
  /-- How deep an evaluation may go. -/
  limit : Nat
  /-- The bindings of the lines so far. -/
  env : Environment
deriving DecidableEq

namespace Session

/-- A session without bindings. -/
def start (limit : Nat) : Session :=
  ⟨limit, .empty⟩

/-- Runs a source text: the text to show, and the session afterwards. -/
def eval (s : Session) (source : String) : String × Session :=
  let run := Run.ofSource s.limit source s.env
  (run.render, { s with env := run.env })

/-- The bindings, one on each line. -/
def describeEnv (s : Session) : String :=
  if s.env.isEmpty then
    "(no bindings)"
  else
    "\n".intercalate <| s.env.names.filterMap fun name =>
      (s.env.get? name).map fun value => name ++ " = " ++ value.render

/-- The list of commands. -/
def help : String :=
  "\n".intercalate
    ["Commands:",
      "  :env       list current bindings",
      "  :help      show this message",
      "  :quit, :q  leave the session",
      "",
      "Anything else is evaluated as Mandrill source."]

/-- The answer to a line, if it has one, and the session afterwards. -/
def respond (s : Session) : Input → Option String × Session
  | .empty | .quit => (none, s)
  | .env => (some s.describeEnv, s)
  | .help => (some help, s)
  | .unknown command => (some ("unknown command " ++ command ++ ", try :help"), s)
  | .source text =>
      let (shown, next) := s.eval text
      (some shown, next)

/-- The answers to a list of lines, up to the line that ends the session. -/
def transcript (s : Session) : List String → List String
  | [] => []
  | line :: lines =>
      match Input.parse line with
      | .quit => []
      | input =>
          let (answer, next) := s.respond input
          answer.toList ++ next.transcript lines

end Session

end LetLang
