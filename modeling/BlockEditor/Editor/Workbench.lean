import BlockEditor.Editor.Session

/-!
# Workbenches

A session together with the runs that were started from it: a run lives from its start until it is
executed to its end or dropped, and it can be cancelled at any time.
-/

namespace BlockEditor

/-! ## Commands -/

/-- What a user does at a workbench. -/
inductive Command where
  | insert (text : String)
  | backspace (times : Nat)
  | moveCursor (offset : Nat)
  | setText (text : String)
  | load (d : Document)
  | push (b : Block)
  | remove (at' : Nat)
  | clear
  | blocksChanged
  | textChanged
  | parse
  | start
  | execute
  | cancel
  | drop

/-- What a command reports. -/
inductive Report where
  | done
  | failed (fault : Diagnostic)
  | removed (kind : Option String)
  | translated (t : Translation)
  | started (task : RunTask)
  | executing (task : RunTask) (cancelled : Bool)
  | noTask
  | cancelled
  | dropped (any : Bool)

/-! ## Workbenches -/

/-- A session with its live runs, and whether the run that was started last has been cancelled, if
there was one. -/
structure Workbench where
  session : Session
  live : List RunTask
  cancelled : Option Bool

namespace Workbench

/-- A workbench before the first run. -/
def ofSession (s : Session) : Workbench := ⟨s, [], none⟩

/-- Replaces the session. -/
def withSession (w : Workbench) (s : Session) : Workbench := { w with session := s }

/-- The report of something that succeeds or fails. -/
def reportOf {α : Type} (done : α → Report) : Except Diagnostic α → Report
  | .ok a => done a
  | .error fault => .failed fault

/-- Gives up the oldest live run. -/
def release (w : Workbench) : Workbench :=
  { w with session := w.session.endRun, live := w.live.tail }

/-- The text with the characters in front of the cursor deleted one after the other. -/
def backspaces (times : Nat) (b : TextBuffer) : TextBuffer := times.repeat TextBuffer.backspace b

/-- Carries out a command.  An execution is reported at its start and counts as finished. -/
def step (w : Workbench) : Command → Workbench × Report
  | .insert text => (w.withSession (w.session.editText (·.insert text.toList)), .done)
  | .backspace times => (w.withSession (w.session.editText (backspaces times)), .done)
  | .moveCursor offset => (w.withSession (w.session.editText (·.moveTo offset)), .done)
  | .setText text => (w.withSession (w.session.editText (·.setText text.toList)), .done)
  | .load d =>
    let (s, result) := w.session.loadDocument d
    (w.withSession s, reportOf (fun _ => .done) result)
  | .push b =>
    (w.withSession (w.session.editBlocks (·.change fun d => ⟨d.blocks ++ [b]⟩)), .done)
  | .remove at' =>
    (w.withSession (w.session.editBlocks (·.change fun d => ⟨d.blocks.eraseIdx at'⟩)),
      .removed (w.session.workspace.document.blocks[at']?.map Block.kind))
  | .clear => (w.withSession (w.session.editBlocks Workspace.clear), .done)
  | .blocksChanged => (w.withSession w.session.blocksChanged, .done)
  | .textChanged => (w.withSession w.session.textChanged, .done)
  | .parse =>
    let (s, result) := w.session.parseToBlocks
    (w.withSession s, reportOf .translated result)
  | .start =>
    match w.session.startRun with
    | (s, .ok task) => (⟨s, w.live ++ [task], some false⟩, .started task)
    | (s, .error fault) => (w.withSession s, .failed fault)
  | .execute =>
    match w.live with
    | task :: _ => (w.release, .executing task (w.cancelled.getD false))
    | [] => (w, .noTask)
  | .cancel =>
    match w.cancelled with
    | some _ => ({ w with cancelled := some true }, .cancelled)
    | none => (w, .noTask)
  | .drop => (if w.live.isEmpty then w else w.release, .dropped !w.live.isEmpty)

/-- Carries out commands one after the other. -/
def run (w : Workbench) (commands : List Command) : Workbench :=
  commands.foldl (fun w c => (w.step c).1) w

end Workbench

/-! ## Cancelled executions -/

namespace RunTask

/-- The pause at which an execution is cancelled, if it was cancelled before it began or is to be
cancelled at a pause. -/
def cancelPause? (cancelled : Bool) (pause : Option Nat) : Option Nat :=
  if cancelled then some 0 else pause

/-- Whether an execution that completed a number of instructions has been cancelled at the given
pause. -/
def wasCancelled (task : RunTask) (pause : Option Nat) (executed : Nat) : Bool :=
  pause.any fun pause => decide (cancelPoint task.interval pause ≤ executed)

end RunTask

end BlockEditor
