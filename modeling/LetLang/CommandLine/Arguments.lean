import LetLang.Decimal
import LetLang.Evaluation

/-!
# Command-line arguments

Arguments are read from left to right.  An option takes its value from the same
argument, where it is stored at once, or from the next one, where it waits until
the argument behind it turns out to be known; so an unknown option is noticed
before a bad value in front of it.
-/

namespace LetLang

/-- An option that takes a value. -/
inductive ValueOption where
  /-- Source text to run. -/
  | eval
  /-- The limit on the depth of evaluation. -/
  | maxDepth
  /-- What to log. -/
  | logLevel
deriving DecidableEq, Repr

/-- The settings of the program. -/
structure Arguments where
  /-- A file with source text to run. -/
  script : Option String
  /-- Source text to run. -/
  eval : Option String
  /-- The limit on the depth of evaluation. -/
  maxDepth : Nat
  /-- What to log. -/
  logLevel : Option String
deriving DecidableEq, Repr

namespace Arguments

/-- Why arguments do not start a run: they are wrong, or they only ask for a
text. -/
inductive Refusal where
  /-- An argument that means nothing here. -/
  | unknownArgument
  /-- A value that is missing or empty. -/
  | invalidValue
  /-- An option given twice, or two that exclude each other. -/
  | conflict
  /-- A value that does not read as a number. -/
  | badNumber
  /-- A value on an option that takes none. -/
  | tooManyValues
  /-- The help text is asked for. -/
  | help
  /-- The version is asked for. -/
  | version
deriving DecidableEq, Repr

/-- The exit code of a refusal. -/
def Refusal.exitCode : Refusal → Nat
  | help | version => 0
  | unknownArgument | invalidValue | conflict | badNumber | tooManyValues => 2

/-- The value that is read but not stored yet. -/
inductive Pending where
  | nothing
  /-- An option that waits for its value. -/
  | awaiting (option : ValueOption)
  /-- An option with its value. -/
  | value (option : ValueOption) (text : String)
  /-- The name of a file. -/
  | script (path : String)
deriving DecidableEq, Repr

/-- What is given so far. -/
structure Given where
  script : Option String
  eval : Option String
  maxDepth : Option Nat
  logLevel : Option String
  pending : Pending
deriving DecidableEq, Repr

namespace Given

/-- Nothing is given. -/
def empty : Given :=
  ⟨none, none, none, none, .nothing⟩

/-- The number written by a text: an optional plus sign and digits, below
`2^64`. -/
def number? (text : String) : Option Nat :=
  let digits := match text.toList with
    | '+' :: digits => digits
    | digits => digits
  (Decimal.read? digits).filter (· < 18446744073709551616)

/-- Whether an option has its value. -/
def has (g : Given) : ValueOption → Bool
  | .eval => g.eval.isSome
  | .maxDepth => g.maxDepth.isSome
  | .logLevel => g.logLevel.isSome

/-- Stores the value of an option, which may be given once. -/
def store (g : Given) (option : ValueOption) (text : String) : Except Refusal Given :=
  if g.has option then
    .error .conflict
  else
    match option with
    | .eval => .ok { g with eval := some text }
    | .maxDepth =>
        match number? text with
        | some n => .ok { g with maxDepth := some n }
        | none => .error .badNumber
    | .logLevel => .ok { g with logLevel := some text }

/-- Stores the value that is still pending. -/
def settle (g : Given) : Except Refusal Given :=
  let settled := { g with pending := .nothing }
  match g.pending with
  | .nothing => .ok settled
  | .awaiting _ => .error .invalidValue
  | .value option text => settled.store option text
  | .script path =>
      if path = "" then .error .invalidValue else .ok { settled with script := some path }

/-- Whether the one argument that is not an option is already given. -/
def hasScript (g : Given) : Bool :=
  match g.pending with
  | .script _ => true
  | _ => g.script.isSome

/-- Takes an argument that is not an option. -/
def plain (g : Given) (text : String) : Except Refusal Given :=
  if g.hasScript then
    .error .unknownArgument
  else do
    let g ← g.settle
    .ok { g with pending := .script text }

/-- Takes an option, with the value that is attached to it if there is one. -/
def option (g : Given) (option : ValueOption) (attached : Option String) :
    Except Refusal Given := do
  let g ← g.settle
  match attached with
  | some text => g.store option text
  | none => .ok { g with pending := .awaiting option }

/-- Takes an option that only asks for a text. -/
def ask (g : Given) (refusal : Refusal) : Except Refusal Given := do
  let _ ← g.settle
  .error refusal

/-- Takes an option that is written with two dashes. -/
def long (g : Given) (name : String) (attached : Option String) : Except Refusal Given :=
  match name with
  | "eval" => g.option .eval attached
  | "max-depth" => g.option .maxDepth attached
  | "log-level" => g.option .logLevel attached
  | "help" => if attached.isSome then .error .tooManyValues else g.ask .help
  | "version" => if attached.isSome then .error .tooManyValues else g.ask .version
  | _ => .error .unknownArgument

/-- The value attached to an option of one letter, less one equals sign. -/
def attached? : List Char → Option String
  | [] => none
  | '=' :: text => some (String.ofList text)
  | text => some (String.ofList text)

/-- Takes an option of one letter, with the characters behind the letter. -/
def short (g : Given) (letter : Char) (rest : List Char) : Except Refusal Given :=
  match letter with
  | 'e' => g.option .eval (attached? rest)
  | 'h' => g.ask .help
  | 'V' => g.ask .version
  | _ => .error .unknownArgument

/-- The name of an option with two dashes, and the value behind an equals sign. -/
def splitLong (text : List Char) : String × Option String :=
  let name := text.takeWhile (· ≠ '=')
  (String.ofList name,
    match text.dropWhile (· ≠ '=') with
    | [] => none
    | _ :: value => some (String.ofList value))

/-- Takes an argument before a lone pair of dashes. -/
def argument (g : Given) (text : String) : Except Refusal Given :=
  match text.toList with
  | '-' :: '-' :: rest =>
      let (name, attached) := splitLong rest
      g.long name attached
  | '-' :: letter :: rest => g.short letter rest
  | _ =>
      match g.pending with
      | .awaiting option => .ok { g with pending := .value option text }
      | _ => g.plain text

end Given

/-- Takes all arguments; behind a lone pair of dashes none is an option. -/
def collect : Given → List String → Except Refusal Given
  | g, [] => g.settle
  | g, text :: rest =>
      if text = "--" then do
        let g ← rest.foldlM Given.plain g
        g.settle
      else do
        let g ← g.argument text
        collect g rest

/-- The settings that a list of arguments stands for. -/
def parse (arguments : List String) : Except Refusal Arguments := do
  let g ← collect .empty arguments
  if g.script.isSome ∧ g.eval.isSome then
    .error .conflict
  else
    .ok ⟨g.script, g.eval, g.maxDepth.getD Evaluation.defaultLimit, g.logLevel⟩

end Arguments

end LetLang
