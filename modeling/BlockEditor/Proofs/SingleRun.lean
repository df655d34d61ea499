import BlockEditor.Editor.Workbench
import BlockEditor.Proofs.Surfaces

/-!
# One run at a time

A session is busy exactly while one of the runs that were started from it is live, and no other run
can be started meanwhile.  What is done at a workbench, where a run counts as executed at once, is
also done at a desk.
-/

namespace BlockEditor

/-! ## Started runs -/

namespace StartedRun

/-- A change after which a run that is over is still over. -/
def Settles (change : StartedRun → StartedRun) : Prop :=
  ∀ r, r.isLive = false → (change r).isLive = false

/-- Polling a run that is over has no effect. -/
theorem poll_of_not_isLive {r : StartedRun} (settled : r.isLive = false) : r.poll = r := by
  obtain ⟨task, cancelled, stage⟩ := r
  cases stage with
  | waiting | paused => cases settled
  | rejected | ended | dropped => rfl

/-- Dropping a run that is over has no effect. -/
theorem drop_of_not_isLive {r : StartedRun} (settled : r.isLive = false) : r.drop = r := by
  rw [drop, settled, if_neg Bool.false_ne_true]

/-- A run that is over stays over when it is polled. -/
theorem settles_poll : Settles poll := fun r settled => by rwa [poll_of_not_isLive settled]

theorem settles_cancel : Settles cancel := fun _ settled => settled

/-- It stays over when it is dropped. -/
theorem settles_drop : Settles drop := fun r settled => by rwa [drop_of_not_isLive settled]

end StartedRun

/-! ## Desks -/

namespace Desk

variable {d : Desk}

/-- The session counts the live runs: none if it is not busy, and one if it is. -/
def CountsLive (d : Desk) : Prop := d.runs.countP StartedRun.isLive = d.session.running.toNat

/-- A new session is not busy and has no runs. -/
theorem countsLive_new (workspace : Workspace) (buffer : TextBuffer) (config : SessionConfig) :
    (Desk.new workspace buffer config).CountsLive := by
  show 0 = (Session.start workspace buffer config).running.toNat
  rw [Session.running_start]
  rfl

/-- A change of a run does not disturb the count. -/
theorem countsLive_changeRun (h : d.CountsLive) (n : Nat) {change : StartedRun → StartedRun}
    (settles : StartedRun.Settles change) : (d.changeRun n change).CountsLive := by
  rw [changeRun]
  split
  · exact h
  · rename_i r found
    obtain ⟨inside, rfl⟩ := List.getElem?_eq_some_iff.1 found
    have counted := List.countP_set (p := StartedRun.isLive) (a := change d.runs[n]) inside
    cases live : d.runs[n].isLive with
    | false =>
      have settled := settles _ live
      simp only [live, settled, Bool.false_eq_true, if_false, Nat.sub_zero, Nat.add_zero] at counted
      exact counted.trans h
    | true =>
      cases live' : (change d.runs[n]).isLive with
      | true =>
        have some_live : 0 < d.runs.countP StartedRun.isLive :=
          List.countP_pos_iff.2 ⟨_, List.getElem_mem inside, live⟩
        simp only [live, live', if_true, Nat.sub_add_cancel some_live] at counted
        exact counted.trans h
      | false =>
        -- the only live run is over
        have le : d.session.running.toNat ≤ 1 := Bool.toNat_le _
        simp only [live, live', Bool.false_eq_true, if_true, if_false, Nat.add_zero] at counted
        rw [CountsLive] at h
        show (d.runs.set n _).countP StartedRun.isLive = 0
        omega

/-- No operation disturbs the count: a start adds a live run and makes the session busy, and a poll
or a drop that ends a run makes it free. -/
theorem countsLive_perform (h : d.CountsLive) (op : Operation) : (d.perform op).CountsLive := by
  have ofSession {s : Session} (same : s.running = d.session.running) :
      (d.withSession s).CountsLive := by
    show d.runs.countP StartedRun.isLive = s.running.toNat
    rw [same]
    exact h
  cases op with
  | editText | editBlocks | textChanged | blocksChanged =>
    exact ofSession (Session.running_setCode _ _)
  | parse =>
    refine ofSession ?_
    rcases d.session.parseToBlocks_cases with ⟨fault, failed⟩ | ⟨t, -, made⟩
    · rw [failed]
    · rw [made]
  | withInterval => exact ofSession rfl
  | start =>
    rw [perform]
    rcases d.session.startRun_cases with ⟨-, fault, refused⟩ | ⟨free, started⟩
    · rw [refused]
      exact ofSession rfl
    · rw [started]
      have none_live : d.runs.countP StartedRun.isLive = 0 := by
        rw [h, free]
        rfl
      show (d.runs ++ [_]).countP StartedRun.isLive = 1
      rw [List.countP_append, none_live]
      rfl
  | poll n => exact countsLive_changeRun h n StartedRun.settles_poll
  | cancel n => exact countsLive_changeRun h n StartedRun.settles_cancel
  | drop n => exact countsLive_changeRun h n StartedRun.settles_drop

/-- Nor do operations in a row, by induction on them. -/
theorem countsLive_run (h : d.CountsLive) (ops : List Operation) : (d.run ops).CountsLive := by
  induction ops generalizing d with
  | nil => exact h
  | cons op ops ih => exact ih (countsLive_perform h op)

/-- The session of a desk has at most one live run, and is busy while it has one. -/
structure RunsOne (d : Desk) : Prop where
  /-- The session is busy exactly while a run is live. -/
  running_iff : d.session.running = true ↔ ∃ r ∈ d.runs, r.isLive = true
  /-- No two runs are live. -/
  single : d.runs.countP StartedRun.isLive ≤ 1
  /-- A run can be started exactly while none is live. -/
  starts_iff : (∃ task, d.session.startRun.2 = .ok task) ↔ ¬ ∃ r ∈ d.runs, r.isLive = true
  /-- A run that is started gets the code of the session. -/
  started : ∀ task, d.session.startRun.2 = .ok task →
    task = ⟨d.session.source, d.session.interval⟩
  /-- Where no run can be started, asking for one changes nothing. -/
  refused : ∀ fault, d.session.startRun.2 = .error fault → d.perform .start = d

/-- Where live runs are counted, there is at most one. -/
theorem runsOne_of_countsLive (h : d.CountsLive) : d.RunsOne := by
  have running_iff : d.session.running = true ↔ ∃ r ∈ d.runs, r.isLive = true := by
    rw [← List.countP_pos_iff, h]
    cases d.session.running <;> simp
  refine ⟨running_iff, ?_, ?_, fun task ok => ?_, fun fault failed => ?_⟩
  · rw [h]
    exact Bool.toNat_le _
  · rw [← running_iff]
    rcases d.session.startRun_cases with ⟨busy, fault, refused⟩ | ⟨free, started⟩
    · simp [busy, refused]
    · simp [free, started]
  · rcases d.session.startRun_cases with ⟨-, fault, refused⟩ | ⟨-, started⟩
    · rw [refused] at ok
      cases ok
    · rw [started] at ok
      cases ok
      rfl
  · rw [perform]
    rcases d.session.startRun_cases with ⟨-, fault, refused⟩ | ⟨-, started⟩
    · rw [refused]
      rfl
    · rw [started] at failed
      cases failed

end Desk

/-! ## Workbenches -/

namespace Session

/-- Loading a document is an edit of the blocks. -/
theorem loadDocument_eq (s : Session) (document : Document) :
    ∃ edit, (s.loadDocument document).1 = s.editBlocks edit := by
  rw [loadDocument]
  cases s.workspace.load document with
  | ok w => exact ⟨fun _ => w, rfl⟩
  | error fault => exact ⟨id, rfl⟩

end Session

namespace Workbench

variable {w : Workbench} {d : Desk}

/-- A desk at which the same has happened as at a workbench. -/
structure OnDesk (w : Workbench) (d : Desk) : Prop where
  session : d.session = w.session
  live : (d.runs.filter StartedRun.isLive).map StartedRun.task = w.live
  cancelled : (d.runs.map StartedRun.cancelled).getLast? = w.cancelled

/-- An operation on the session alone. -/
theorem OnDesk.withSession (h : w.OnDesk d) (s : Session) :
    (w.withSession s).OnDesk (d.withSession s) := ⟨rfl, h.live, h.cancelled⟩

/-- The live run of a workbench is dropped at the desk. -/
theorem onDesk_release (h : w.OnDesk d) (counts : d.CountsLive) (some_live : w.live ≠ []) :
    ∃ n, w.release.OnDesk (d.perform (.drop n)) := by
  rw [← h.live, ne_eq, List.map_eq_nil_iff] at some_live
  obtain ⟨r, member⟩ := List.exists_mem_of_ne_nil _ some_live
  obtain ⟨member, live⟩ := List.mem_filter.1 member
  obtain ⟨n, inside, rfl⟩ := List.getElem_of_mem member
  have dropped : d.perform (.drop n) =
      ⟨d.session.endRun, d.runs.set n { d.runs[n] with stage := .dropped }⟩ := by
    simp only [Desk.perform, Desk.changeRun, List.getElem?_eq_getElem inside, StartedRun.drop, live,
      if_true]
    rfl
  have none_live : (d.perform (.drop n)).runs.countP StartedRun.isLive = 0 := by
    rw [show _ = _ from Desk.countsLive_perform counts (.drop n), dropped]
    rfl
  -- The live runs are counted, so the one that is dropped was the only one.
  have one : w.live.length ≤ 1 := by
    rw [← h.live, List.length_map, ← List.countP_eq_length_filter, counts]
    exact Bool.toNat_le _
  refine ⟨n, ?_, ?_, ?_⟩
  · rw [dropped, h.session]
    rfl
  · rw [List.countP_eq_length_filter, List.length_eq_zero_iff] at none_live
    rw [none_live]
    exact (List.length_eq_zero_iff.1 (by rw [Workbench.release, List.length_tail]; omega)).symm
  · rw [dropped, List.map_set]
    have same : (d.runs.map StartedRun.cancelled).set n d.runs[n].cancelled =
        d.runs.map StartedRun.cancelled := by
      rw [← List.getElem_map StartedRun.cancelled (h := by rwa [List.length_map])]
      exact List.set_getElem_self _
    exact (congrArg List.getLast? same).trans h.cancelled

/-- The last run is cancelled at the desk. -/
theorem onDesk_cancel (h : w.OnDesk d) :
    (w.step .cancel).1.OnDesk (d.perform (.cancel (d.runs.length - 1))) := by
  obtain ⟨session, runs⟩ := d
  rcases List.eq_nil_or_concat runs with rfl | ⟨earlier, r, rfl⟩
  · have never : w.cancelled = none := h.cancelled.symm
    rw [step, never]
    exact h
  · rw [List.concat_eq_append] at h ⊢
    have started : w.cancelled = some r.cancelled := by simp [← h.cancelled]
    have last : (earlier ++ [r]).length - 1 = earlier.length := by simp
    have cancelled : Desk.perform ⟨session, earlier ++ [r]⟩ (.cancel earlier.length) =
        ⟨session, earlier ++ [r.cancel]⟩ := by
      simp [Desk.perform, Desk.changeRun]
    dsimp only
    rw [step, started, last, cancelled]
    refine ⟨h.session, ?_, by simp⟩
    rw [← h.live, List.filter_append, List.filter_append, List.map_append, List.map_append]
    cases live : r.isLive <;> simp [live]

/-- What a command does at a workbench is an operation at the desk.  An execution, which counts as
finished at once, is a run that is given up. -/
theorem onDesk_step (h : w.OnDesk d) (counts : d.CountsLive) (c : Command) :
    ∃ op, (w.step c).1.OnDesk (d.perform op) := by
  obtain ⟨session, runs⟩ := d
  obtain rfl : session = w.session := h.session
  have release {task : RunTask} {tasks : List RunTask} (e : w.live = task :: tasks) :
      ∃ n, w.release.OnDesk (Desk.perform ⟨w.session, runs⟩ (.drop n)) :=
    onDesk_release h counts (by rw [e]; exact List.cons_ne_nil _ _)
  -- Where no run is live the command has no effect, like dropping a run that was never started.
  have nothing : w.OnDesk (Desk.perform ⟨w.session, runs⟩ (.drop runs.length)) := by
    rw [Desk.perform, Desk.changeRun, List.getElem?_eq_none (Nat.le_refl _)]
    exact h
  cases c with
  | insert text => exact ⟨.editText (·.insert text.toList), h.withSession _⟩
  | backspace times => exact ⟨.editText (backspaces times), h.withSession _⟩
  | moveCursor offset => exact ⟨.editText (·.moveTo offset), h.withSession _⟩
  | setText text => exact ⟨.editText (·.setText text.toList), h.withSession _⟩
  | load document =>
    obtain ⟨edit, edited⟩ := w.session.loadDocument_eq document
    refine ⟨.editBlocks edit, ?_⟩
    show (w.withSession (w.session.loadDocument document).1).OnDesk _
    rw [edited]
    exact h.withSession _
  | push b => exact ⟨.editBlocks (·.change fun d => ⟨d.blocks ++ [b]⟩), h.withSession _⟩
  | remove i => exact ⟨.editBlocks (·.change fun d => ⟨d.blocks.eraseIdx i⟩), h.withSession _⟩
  | clear => exact ⟨.editBlocks Workspace.clear, h.withSession _⟩
  | blocksChanged => exact ⟨.blocksChanged, h.withSession _⟩
  | textChanged => exact ⟨.textChanged, h.withSession _⟩
  | parse => exact ⟨.parse, h.withSession _⟩
  | start =>
    refine ⟨.start, ?_⟩
    rw [step, Desk.perform]
    rcases w.session.startRun_cases with ⟨-, fault, refused⟩ | ⟨-, started⟩
    · rw [refused]
      exact h.withSession _
    · rw [started]
      refine ⟨rfl, ?_, ?_⟩
      · rw [List.filter_append, List.map_append, h.live]
        rfl
      · rw [List.map_append]
        exact List.getLast?_concat
  -- What counts as executed at the workbench is a run at the desk that is given up.
  | execute =>
    rw [step]
    cases live : w.live with
    | nil => exact ⟨_, nothing⟩
    | cons task tasks =>
      obtain ⟨n, released⟩ := release live
      exact ⟨_, released⟩
  | cancel => exact ⟨_, onDesk_cancel h⟩
  | drop =>
    rw [step]
    cases live : w.live with
    | nil => exact ⟨_, nothing⟩
    | cons task tasks =>
      obtain ⟨n, released⟩ := release live
      exact ⟨_, released⟩

/-- What happens at a workbench happens at a desk. -/
theorem onDesk_run (h : w.OnDesk d) (counts : d.CountsLive) (commands : List Command) :
    ∃ ops, (w.run commands).OnDesk (d.run ops) := by
  induction commands generalizing w d with
  | nil => exact ⟨[], h⟩
  | cons c commands ih =>
    obtain ⟨op, h'⟩ := onDesk_step h counts c
    obtain ⟨ops, rest⟩ := ih h' (Desk.countsLive_perform counts op)
    exact ⟨op :: ops, rest⟩

/-- A workbench with a new session has a live run, and no other, exactly while the session is busy.
-/
theorem length_live_run (workspace : Workspace) (buffer : TextBuffer) (config : SessionConfig)
    (commands : List Command) :
    ((ofSession (Session.start workspace buffer config)).run commands).live.length =
      ((ofSession (Session.start workspace buffer config)).run commands).session.running.toNat := by
  have counts := Desk.countsLive_new workspace buffer config
  obtain ⟨ops, h⟩ := onDesk_run (w := ofSession (Session.start workspace buffer config))
    ⟨rfl, rfl, rfl⟩ counts commands
  have counted : _ = _ := Desk.countsLive_run counts ops
  rw [← h.live, ← h.session, List.length_map, ← List.countP_eq_length_filter, counted]

end Workbench

end BlockEditor
