import BlockEditor.Editor.Session

/-!
# Desks

A session and all the runs that were started from it.  Between two pauses of a run the session can
be edited in any way, and other runs can be asked for.
-/

namespace BlockEditor

/-! ## Started runs -/

/-- How far a run has come. -/
inductive Stage where
  /-- The run was started and not polled yet. -/
  | waiting
  /-- The run stands at one of its pauses. -/
  | paused (p : Program) (c : Configuration)
  /-- The code of the run had no program. -/
  | rejected (d : Diagnostic)
  /-- The run completed, failed, or noticed that it was cancelled. -/
  | ended (o : Outcome)
  /-- The run was given up. -/
  | dropped

/-- A run that was started, and whether it has been cancelled since. -/
structure StartedRun where
  task : RunTask
  cancelled : Bool
  stage : Stage

namespace StartedRun

/-- A run that was just started. -/
def ofTask (task : RunTask) : StartedRun := ⟨task, false, .waiting⟩

/-- Whether a run has neither come to its end nor been dropped. -/
def isLive (r : StartedRun) : Bool :=
  match r.stage with
  | .waiting | .paused .. => true
  | .rejected _ | .ended _ | .dropped => false

/-- Goes on up to the next pause, or to the end. -/
def goOn (r : StartedRun) (p : Program) (c : Configuration) : StartedRun :=
  match p.poll r.task.interval r.cancelled c with
  | .inl c => { r with stage := .paused p c }
  | .inr o => { r with stage := .ended o }

/-- Polls a run.  The first poll makes the program; one after the end has no effect. -/
def poll (r : StartedRun) : StartedRun :=
  match r.stage with
  | .waiting =>
    match r.task.source.compile with
    | .error d => { r with stage := .rejected d }
    | .ok p => r.goOn p Machine.fresh.begin
  | .paused p c => r.goOn p c
  | .rejected _ | .ended _ | .dropped => r

/-- Cancels a run, which notices it when it is polled. -/
def cancel (r : StartedRun) : StartedRun := { r with cancelled := true }

@[simp] theorem task_cancel (r : StartedRun) : r.cancel.task = r.task := rfl

@[simp] theorem cancelled_cancel (r : StartedRun) : r.cancel.cancelled = true := rfl

@[simp] theorem isLive_cancel (r : StartedRun) : r.cancel.isLive = r.isLive := rfl

/-- Gives up a run that is live. -/
def drop (r : StartedRun) : StartedRun :=
  if r.isLive then { r with stage := .dropped } else r

end StartedRun

/-! ## Operations -/

/-- What can be done at a desk.  Runs are numbered in the order of their starts. -/
inductive Operation where
  | editText (edit : TextBuffer → TextBuffer)
  | editBlocks (edit : Workspace → Workspace)
  | textChanged
  | blocksChanged
  | parse
  | withInterval (interval : Nat)
  | start
  | poll (run : Nat)
  | cancel (run : Nat)
  | drop (run : Nat)

/-- A session with all the runs that were started from it, in the order of their starts. -/
structure Desk where
  session : Session
  runs : List StartedRun

namespace Desk

/-- A desk with a new session. -/
def new (workspace : Workspace) (buffer : TextBuffer) (config : SessionConfig) : Desk :=
  ⟨Session.start workspace buffer config, []⟩

/-- Replaces the session. -/
def withSession (d : Desk) (s : Session) : Desk := { d with session := s }

/-- Changes the run with the given number.  A run that is live no more is over for the session. -/
def changeRun (d : Desk) (run : Nat) (change : StartedRun → StartedRun) : Desk :=
  match d.runs[run]? with
  | none => d
  | some r =>
    ⟨if r.isLive && !(change r).isLive then d.session.endRun else d.session,
      d.runs.set run (change r)⟩

/-- Carries out an operation. -/
def perform (d : Desk) : Operation → Desk
  | .editText edit => d.withSession (d.session.editText edit)
  | .editBlocks edit => d.withSession (d.session.editBlocks edit)
  | .textChanged => d.withSession d.session.textChanged
  | .blocksChanged => d.withSession d.session.blocksChanged
  | .parse => d.withSession d.session.parseToBlocks.1
  | .withInterval interval => d.withSession (d.session.withInterval interval)
  | .start =>
    match d.session.startRun with
    | (s, .ok task) => ⟨s, d.runs ++ [.ofTask task]⟩
    | (s, .error _) => d.withSession s
  | .poll run => d.changeRun run .poll
  | .cancel run => d.changeRun run .cancel
  | .drop run => d.changeRun run .drop

/-- Carries out operations one after the other. -/
def run (d : Desk) (ops : List Operation) : Desk := ops.foldl perform d

@[simp] theorem run_nil (d : Desk) : d.run [] = d := rfl

@[simp] theorem run_append (d : Desk) (ops more : List Operation) :
    d.run (ops ++ more) = (d.run ops).run more := List.foldl_append

@[simp] theorem run_singleton (d : Desk) (op : Operation) : d.run [op] = d.perform op := rfl

end Desk

end BlockEditor
