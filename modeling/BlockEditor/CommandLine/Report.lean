import BlockEditor.Block.Markup
import BlockEditor.Block.Schema
import BlockEditor.Block.Translation
import BlockEditor.CommandLine.Arguments
import BlockEditor.Syntax.TreeJson
import BlockEditor.Text.Difference

/-!
# Reports

What the command line prints for a request, given the text of its file.
-/

namespace BlockEditor

/-! ## Places -/

/-- The line and the column of a byte offset, both counted from one; columns count characters. -/
def placeOf (text : List Char) (offset : Nat) : Nat × Nat :=
  let before := (Text.splitAtByte offset text).1
  let lines := Text.splitOnChar '\n' before
  (lines.length, (lines.getLast?.map List.length).getD 0 + 1)

/-- The warning for a statement without a block. -/
def Dropped.warning (s : Source) (d : Dropped) : String :=
  let (line, column) := placeOf s.content.toList d.span.start
  let reason := d.reason.text
  let name := s.name
  let form := d.form
  s!"dropped {name}:{line}:{column}: `{form}`: {reason}\n"

/-- The warnings for all omissions of a translation. -/
def Translation.warnings (s : Source) (t : Translation) : String :=
  String.join (t.dropped.map (Dropped.warning s))

/-! ## The registry -/

/-- A text filled up with blanks to a width. -/
def padded (width : Nat) (text : String) : String :=
  text ++ String.ofList (List.replicate (width - text.length) ' ')

/-- The line for a kind of block. -/
def Schema.summary (s : Schema) : String :=
  let id := padded 18 s.id
  let shape := padded 10 s.shape.text
  let label := s.label
  s!"  {id} {shape} {label}\n"

/-- The list of the known kinds. -/
def Registry.listing (r : Registry) : String :=
  String.join (r.schemas.toList.map Schema.summary)

/-! ## Documents -/

/-- The document in a named text, which must pass the check against the standard kinds. -/
def Document.load (s : Source) : Except Diagnostic Document := do
  let d ← Document.ofSource s
  Registry.standard.validate d
  return d

/-! ## Requests -/

/-- What is printed: the answer, and the warnings. -/
structure Printed where
  output : String
  warnings : String
  deriving DecidableEq, Repr

/-- An answer without warnings. -/
def Printed.plain (output : String) : Printed := ⟨output, ""⟩

/-- The name and the version of the program. -/
def versionText : String := "pyblocks 0.1.0\n"

/-- The answer to a translation. -/
def reportTranslation (s : Source) (format : DocumentFormat) : Except Diagnostic Printed :=
  s.translate.map fun t =>
    let text := match format with
      | .json => t.toJson.pretty
      | .xml => t.document.markup
    ⟨text ++ "\n", t.warnings s⟩

/-- The answer to a request for code. -/
def reportCode (s : Source) : Except Diagnostic Printed :=
  (Document.load s).map fun d => .plain d.code

/-- The comparison of a program with the code of its blocks. -/
def reportRoundtrip (s : Source) : Except Diagnostic Printed :=
  s.translate.map fun t =>
    let comparison := Text.comparison s.content.toList t.document.code.toList
    ⟨String.ofList comparison, t.warnings s⟩

/-- The syntax tree of a program. -/
def reportTree (s : Source) : Except Diagnostic Printed :=
  s.parse.map fun m => .plain (m.toJson.pretty ++ "\n")

/-- The known kinds of blocks. -/
def reportBlocks (json : Bool) : Printed :=
  let registry := Registry.standard
  .plain (if json then registry.toJson.pretty ++ "\n" else registry.listing)

end BlockEditor
