/-!
# Arguments

The words of the command line and the request that they make.
-/

namespace BlockEditor

/-! ## Requests -/

/-- The notation of a translated document. -/
inductive DocumentFormat where
  | json
  | xml
  deriving DecidableEq, Repr

/-- What the command line asks for. -/
inductive Request where
  | translate (file : String) (format : DocumentFormat)
  | codegen (file : String)
  | roundtrip (file : String)
  | run (file : String)
  | ast (file : String)
  | blocks (json : Bool)
  | help
  | version
  deriving DecidableEq, Repr

/-- A command that takes words of its own. -/
inductive Subcommand where
  | translate | codegen | roundtrip | run | ast | blocks
  deriving DecidableEq, Repr

/-- The command of a name. -/
def Subcommand.ofName? : String → Option Subcommand
  | "translate" => some .translate
  | "codegen" => some .codegen
  | "roundtrip" => some .roundtrip
  | "run" => some .run
  | "ast" => some .ast
  | "blocks" => some .blocks
  | _ => none

/-! ## Words -/

/-- A word by its form.  A long option may carry a value behind an equals sign. -/
inductive CommandWord where
  | separator
  | long (name : List Char) (value : Option (List Char))
  | short (letters : List Char)
  | plain (text : String)

/-- The form of a word.  A lone hyphen is plain. -/
def wordOf (text : String) : CommandWord :=
  match text.toList with
  | ['-', '-'] => .separator
  | '-' :: '-' :: cs =>
    let name := cs.takeWhile (· != '=')
    match cs.dropWhile (· != '=') with
    | [] => .long name none
    | _ :: value => .long name (some value)
  | '-' :: c :: cs => .short (c :: cs)
  | _ => .plain text

/-- The format of a name. -/
def DocumentFormat.ofName? (name : List Char) : Option DocumentFormat :=
  if name = "json".toList then some .json
  else if name = "xml".toList then some .xml
  else none

/-! ## The words of a command -/

/-- The words of a command that have been understood. -/
structure Given where
  file : Option String
  format : Option DocumentFormat
  json : Bool

/-- Takes a word as the file of a command.  A command has one file at most, `blocks` has none, and
a file has a name. -/
def Given.withFile? (c : Subcommand) (g : Given) (text : String) : Option Given :=
  if c = .blocks ∨ g.file.isSome ∨ text = "" then none else some { g with file := some text }

/-- Takes a word as the format of a translation, which is given once at most. -/
def Given.withFormat? (c : Subcommand) (g : Given) (name : List Char) : Option Given :=
  if c = .translate ∧ g.format = none then
    (DocumentFormat.ofName? name).map fun format => { g with format := some format }
  else none

/-- Takes the option that asks for data, which is given once at most. -/
def Given.withJson? (c : Subcommand) (g : Given) : Option Given :=
  if c = .blocks ∧ !g.json then some { g with json := true } else none

/-- The request of a command whose words have all been understood. -/
def Given.request? (c : Subcommand) (g : Given) : Option Request :=
  match c with
  | .translate => g.file.map fun file => .translate file (g.format.getD .json)
  | .codegen => g.file.map .codegen
  | .roundtrip => g.file.map .roundtrip
  | .run => g.file.map .run
  | .ast => g.file.map .ast
  | .blocks => some (.blocks g.json)

/-- Reads words that are all plain. -/
def readPlain? (c : Subcommand) : Given → List String → Option Request
  | g, [] => g.request? c
  | g, text :: rest => (g.withFile? c text).bind fun g => readPlain? c g rest

/-- Reads the words of a command.  Help is given as soon as it is asked for, and behind a separator
all words are plain. -/
def readCommand? (c : Subcommand) (g : Given) : List String → Option Request
  | [] => g.request? c
  | text :: rest =>
    match wordOf text, rest with
    | .separator, rest => readPlain? c g rest
    | .short ('h' :: _), _ => some .help
    | .short _, _ => none
    | .plain text, rest => (g.withFile? c text).bind fun g => readCommand? c g rest
    | .long name value, rest =>
      if name = "help".toList ∧ value = none then some .help
      else if name = "json".toList ∧ value = none then
        (g.withJson? c).bind fun g => readCommand? c g rest
      else if name = "format".toList then
        match value, rest with
        | some value, rest => (g.withFormat? c value).bind fun g => readCommand? c g rest
        | none, value :: rest =>
          (g.withFormat? c value.toList).bind fun g => readCommand? c g rest
        | none, [] => none
      else none

/-- The request for help on a command. -/
def readHelp? : List String → Option Request
  | [] => some .help
  | [name] => if name = "help" ∨ (Subcommand.ofName? name).isSome then some .help else none
  | _ => none

/-! ## The whole line -/

/-- The request that the words of a command line make, if they make one. -/
def Request.ofArguments? : List String → Option Request
  | [] => none
  | text :: rest =>
    match wordOf text with
    | .long name none =>
      if name = "help".toList then some .help
      else if name = "version".toList then some .version
      else none
    | .short ('h' :: _) => some .help
    | .short ('V' :: _) => some .version
    | .plain name =>
      if name = "help" then readHelp? rest
      else (Subcommand.ofName? name).bind fun c => readCommand? c ⟨none, none, false⟩ rest
    | _ => none

example : Request.ofArguments? ["translate", "--format=xml", "--", "p.py"]
      = some (.translate "p.py" .xml) ∧
    Request.ofArguments? ["run", "-1"] = none ∧
    Request.ofArguments? ["-Vx"] = some .version := by
  decide +kernel

end BlockEditor
