import BlockEditor.CommandLine.Report
import BlockEditor.Machine.Run

/-!
# The command line

Reads the words of the command line and the file that they name, and prints the answer.
-/

namespace BlockEditor

/-- A failure as it is shown to the user. -/
def Diagnostic.shown (d : Diagnostic) : String :=
  let code := d.code
  let message := d.fault.cause.message
  let name := d.sourceName
  let start := d.fault.span.start
  s!"{code}: {message} ({name}, byte {start})"

/-- Reports a failure and ends with status 1. -/
def failWith (d : Diagnostic) : IO UInt32 := do
  IO.eprintln d.shown
  return 1

/-- Prints an answer with its warnings, or reports a failure. -/
def conclude (r : Except Diagnostic Printed) : IO UInt32 :=
  match r with
  | .ok printed => do
    IO.eprint printed.warnings
    IO.print printed.output
    return 0
  | .error d => failWith d

/-- Reads a file as a named text and goes on with it. -/
def withFile (file : String) (next : Source → IO UInt32) : IO UInt32 := do
  let content? ← (some <$> IO.FS.readFile file) <|> pure none
  match content? with
  | some content => next ⟨file, content⟩
  | none => failWith ⟨⟨.unreadableFile file, .none⟩, .session, Source.placeholder⟩

/-- Polls a run until it ends, and prints at every pause what it printed. -/
partial def runToEnd (name : String) (p : Program) (c : Configuration) : IO UInt32 := do
  match p.poll defaultYieldInterval false c with
  | .inl c =>
    IO.print c.machine.output
    runToEnd name p { c with machine := c.machine.cleared }
  | .inr outcome =>
    IO.print outcome.machine.output
    match outcome.result with
    | .ok _ => return 0
    | .error fault => failWith ⟨fault, .runtime, name⟩

/-- Runs a program. -/
def runSource (s : Source) : IO UInt32 :=
  match s.compile with
  | .ok p => runToEnd s.name p Machine.fresh.begin
  | .error d => failWith d

/-- The ways to call the program. -/
def usage : String :=
  "Usage: pyblocks <COMMAND>\n\n" ++
  "Commands:\n" ++
  "  translate [--format json|xml] <FILE>\n" ++
  "  codegen <FILE>\n" ++
  "  roundtrip <FILE>\n" ++
  "  run <FILE>\n" ++
  "  ast <FILE>\n" ++
  "  blocks [--json]\n"

/-- Answers a request. -/
def serve : Request → IO UInt32
  | .translate file format => withFile file fun s => conclude (reportTranslation s format)
  | .codegen file => withFile file fun s => conclude (reportCode s)
  | .roundtrip file => withFile file fun s => conclude (reportRoundtrip s)
  | .run file => withFile file runSource
  | .ast file => withFile file fun s => conclude (reportTree s)
  | .blocks json => conclude (.ok (reportBlocks json))
  | .help => conclude (.ok (.plain usage))
  | .version => conclude (.ok (.plain versionText))

end BlockEditor

/-- Answers the request of the command line; words that make no request end with status 2. -/
def main (args : List String) : IO UInt32 :=
  match BlockEditor.Request.ofArguments? args with
  | some request => BlockEditor.serve request
  | none => do
    IO.eprint BlockEditor.usage
    return 2
