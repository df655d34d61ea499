import BlockEditor.Block.Translation
import BlockEditor.Editor.TextBuffer
import BlockEditor.Editor.Workspace
import BlockEditor.Machine.Run

/-!
# Sessions

An editing session keeps a program as code, as text and as blocks.  A change of the text or of the
blocks becomes the code, and the code is always shown as text.  Blocks are made from the code only on
request, since what has no block would be lost.
-/

namespace BlockEditor

/-! ## Settings -/

/-- The settings of a session. -/
structure SessionConfig where
  initialCode : String
  sourceName : String
  yieldInterval : Nat

/-- The settings of a session that nobody configured. -/
def SessionConfig.standard : SessionConfig :=
  ⟨"print(\"Hello Ace!\")\n", Source.standardInput, defaultYieldInterval⟩

/-! ## Sessions -/

/-- An editing session. -/
structure Session where
  workspace : Workspace
  buffer : TextBuffer
  code : String
  config : SessionConfig
  interval : Nat
  running : Bool

namespace Session

/-- Shows the code as text, if the text differs from it. -/
def showCode (s : Session) : Session :=
  if s.buffer.text = s.code.toList then s
  else { s with buffer := s.buffer.setText s.code.toList }

/-- Takes over new code. -/
def setCode (s : Session) (code : String) : Session := { s with code := code }.showCode

/-- A new session, which shows the initial code and leaves the blocks as they are. -/
def start (workspace : Workspace) (buffer : TextBuffer) (config : SessionConfig) : Session :=
  (Session.mk workspace buffer config.initialCode config config.yieldInterval false).showCode

/-- Showing the code has no effect on the blocks. -/
theorem workspace_showCode (s : Session) : s.showCode.workspace = s.workspace := by
  unfold showCode
  split <;> rfl

theorem workspace_setCode (s : Session) (code : String) :
    (s.setCode code).workspace = s.workspace := workspace_showCode _

theorem workspace_start (workspace : Workspace) (buffer : TextBuffer) (config : SessionConfig) :
    (start workspace buffer config).workspace = workspace := workspace_showCode _

/-- Showing the code has no effect on a run that is under way. -/
theorem running_showCode (s : Session) : s.showCode.running = s.running := by
  unfold showCode
  split <;> rfl

theorem running_setCode (s : Session) (code : String) : (s.setCode code).running = s.running :=
  running_showCode _

theorem running_start (workspace : Workspace) (buffer : TextBuffer) (config : SessionConfig) :
    (start workspace buffer config).running = false := running_showCode _

/-- Runs programs with another interval between pauses. -/
def withInterval (s : Session) (interval : Nat) : Session := { s with interval := interval }

/-! ### Changes -/

/-- The blocks changed: their program becomes the code. -/
def blocksChanged (s : Session) : Session := s.setCode s.workspace.code

/-- The text changed: it becomes the code. -/
def textChanged (s : Session) : Session := s.setCode (String.ofList s.buffer.text)

/-- Edits the blocks. -/
def editBlocks (s : Session) (edit : Workspace → Workspace) : Session :=
  { s with workspace := edit s.workspace }.blocksChanged

/-- Edits the text. -/
def editText (s : Session) (edit : TextBuffer → TextBuffer) : Session :=
  { s with buffer := edit s.buffer }.textChanged

/-- Loads a document as an edit of the blocks.  The blocks count as edited even if they stay. -/
def loadDocument (s : Session) (d : Document) : Session × Except Diagnostic Unit :=
  match s.workspace.load d with
  | .ok workspace => (s.editBlocks fun _ => workspace, .ok ())
  | .error fault => (s.editBlocks id, .error fault)

/-! ### Requests -/

/-- The code as a named text. -/
def source (s : Session) : Source := ⟨s.config.sourceName, s.code⟩

/-- Makes blocks from the code.  The code and the text stay as they are. -/
def parseToBlocks (s : Session) : Session × Except Diagnostic Translation :=
  match s.source.translate with
  | .error fault => (s, .error fault)
  | .ok .blank => ({ s with workspace := s.workspace.clear }, .ok .blank)
  | .ok (.blocks document dropped) =>
    match s.workspace.load document with
    | .ok workspace => ({ s with workspace := workspace }, .ok (.blocks document dropped))
    | .error fault => (s, .error fault)

end Session

/-! ## Runs -/

/-- A run that has been prepared: a copy of the code, and the interval between its pauses. -/
structure RunTask where
  source : Source
  interval : Nat
  deriving DecidableEq, Repr

namespace Session

/-- Prepares a run of the code, unless one is under way. -/
def startRun (s : Session) : Session × Except Diagnostic RunTask :=
  if s.running then (s, .error ⟨⟨.runInProgress, .none⟩, .session, s.config.sourceName⟩)
  else ({ s with running := true }, .ok ⟨s.source, s.interval⟩)

/-- A run has come to its end, or has been given up. -/
def endRun (s : Session) : Session := { s with running := false }

end Session

end BlockEditor
