import BlockEditor.Syntax.Assembly

/-!
# Parsing

From a source text to its syntax tree: layout, the grammar of each line, and block assembly.  The
first fault in that order is the one reported.
-/

namespace BlockEditor

/-- The program of a text.  A blank text is the empty program. -/
def parseText (text : List Char) : Except Fault Module :=
  if Text.isBlankText text then .ok ⟨[]⟩
  else do
    let lines ← logicalLines text
    let parsed ← lines.mapM parseLine
    let body ← assemble parsed
    .ok ⟨body⟩

/-- The program of a source. -/
def Source.parse (source : Source) : Except Diagnostic Module :=
  reportAs .parse source.name (parseText source.content.toList)

end BlockEditor
