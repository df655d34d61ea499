import BlockEditor.Proofs.Cancellation
import BlockEditor.Proofs.SingleRun
import Mathlib.Data.List.Induction

/-!
# Histories of runs

What becomes of a run is decided by the code that the session had at its start and by what is done
to the run itself: how often it is polled, before which poll it is cancelled, and whether it is
dropped while it is live.  Nothing else that happens at the desk has a part in it.  A live run can
be polled to the end that its program comes to, and the session is free behind it.
-/

namespace BlockEditor

/-! ## Operations on one run -/

namespace Operation

variable {n : Nat} {p : Operation → Bool} {ops : List Operation}

/-- Whether an operation polls the run with the given number. -/
def isPoll (n : Nat) : Operation → Bool
  | .poll run => run == n
  | _ => false

/-- Whether an operation cancels the run with the given number. -/
def isCancel (n : Nat) : Operation → Bool
  | .cancel run => run == n
  | _ => false

/-- Whether an operation drops the run with the given number. -/
def isDrop (n : Nat) : Operation → Bool
  | .drop run => run == n
  | _ => false

/-- An operation that polls a run is the poll of that run. -/
theorem eq_of_isPoll {op : Operation} (h : op.isPoll n = true) : op = .poll n := by
  cases op with
  | poll run => rw [eq_of_beq h]
  | _ => cases h

/-- One that cancels a run is the cancellation of that run. -/
theorem eq_of_isCancel {op : Operation} (h : op.isCancel n = true) : op = .cancel n := by
  cases op with
  | cancel run => rw [eq_of_beq h]
  | _ => cases h

/-- One that drops a run is the drop of that run. -/
theorem eq_of_isDrop {op : Operation} (h : op.isDrop n = true) : op = .drop n := by
  cases op with
  | drop run => rw [eq_of_beq h]
  | _ => cases h

/-- The operations in front of the first of a kind. -/
def inFrontOf (p : Operation → Bool) (ops : List Operation) : List Operation :=
  ops.takeWhile (!p ·)

/-- Where there is one of the kind, nothing that follows matters. -/
theorem inFrontOf_append_of_any (some_one : ops.any p = true) (more : List Operation) :
    inFrontOf p (ops ++ more) = inFrontOf p ops := by
  induction ops with
  | nil => cases some_one
  | cons op ops ih =>
    cases first : p op with
    | true => simp [inFrontOf, first]
    | false =>
      rw [List.any_cons, first, Bool.false_or] at some_one
      have rest := ih some_one
      simp only [inFrontOf] at rest
      simp [inFrontOf, first, rest]

/-- Where there is none of the kind, all operations are in front. -/
theorem inFrontOf_append_of_none (none : ops.any p = false) (more : List Operation) :
    inFrontOf p (ops ++ more) = ops ++ inFrontOf p more := by
  refine List.takeWhile_append_of_pos fun op member => ?_
  rw [Bool.eq_false_iff.2 (List.any_eq_false.1 none op member)]
  rfl

/-- All operations are in front if none is of the kind. -/
theorem inFrontOf_of_none (none : ops.any p = false) : inFrontOf p ops = ops := by
  simpa [inFrontOf] using inFrontOf_append_of_none none []

end Operation

open Operation

/-! ## Tokens -/

namespace CancelToken

variable {n i : Nat} {ops : List Operation}

/-- The token of the run with the given number, as operations since its start cancel it: from the
first poll behind a cancellation. -/
def ofHistory (n : Nat) (ops : List Operation) : CancelToken :=
  if ops.any (isCancel n) then .after ((inFrontOf (isCancel n) ops).countP (isPoll n)) else .never

/-- The next poll finds the run cancelled if it has been. -/
theorem ofHistory_of_le (behind : ops.countP (isPoll n) ≤ i) :
    ofHistory n ops i = ops.any (isCancel n) := by
  rw [ofHistory]
  split
  · rename_i cancelled
    have fewer : (inFrontOf (isCancel n) ops).countP (isPoll n) ≤ ops.countP (isPoll n) :=
      (List.takeWhile_sublist _).countP_le
    rw [cancelled, after, decide_eq_true (Nat.le_trans fewer behind)]
  · rename_i pending
    rw [Bool.eq_false_iff.2 pending, never]

/-- What is done later does not change what a poll has found. -/
theorem ofHistory_append (before : i < ops.countP (isPoll n)) (more : List Operation) :
    ofHistory n (ops ++ more) i = ofHistory n ops i := by
  simp only [ofHistory, List.any_append]
  cases cancelled : ops.any (isCancel n) with
  | true => rw [inFrontOf_append_of_any cancelled, Bool.true_or]
  | false =>
    rw [inFrontOf_append_of_none cancelled, Bool.false_or, List.countP_append]
    split
    · rw [if_neg Bool.false_ne_true, after, never]
      exact decide_eq_false (by omega)
    · rfl

/-- Operations that do not cancel the run leave its token as it is. -/
theorem ofHistory_append_of_none {more : List Operation} (none : more.any (isCancel n) = false) :
    ofHistory n (ops ++ more) = ofHistory n ops := by
  simp only [ofHistory, List.any_append, none, Bool.or_false]
  split
  · rename_i cancelled
    rw [inFrontOf_append_of_any cancelled]
  · rfl

end CancelToken

/-! ## Runs of a history -/

/-- How far the run of a task has come with some polls that find it cancelled as the token says. -/
def Stage.ofPolls (task : RunTask) (token : CancelToken) : Nat → Stage
  | 0 => .waiting
  | polls + 1 =>
    match task.source.compile with
    | .error fault => .rejected fault
    | .ok p =>
      match p.polls task.interval token 0 (polls + 1) Machine.fresh.begin with
      | .inl c => .paused p c
      | .inr o => .ended o

namespace Stage

variable {task : RunTask} {token token' : CancelToken} {k : Nat}

/-- The stage of a run that is given up.  One that is over stays as it is. -/
def givenUp : Stage → Stage
  | .waiting | .paused .. | .dropped => .dropped
  | .rejected fault => .rejected fault
  | .ended o => .ended o

/-- Only what the polls have found matters. -/
theorem ofPolls_congr (agree : ∀ i < k, token i = token' i) :
    ofPolls task token k = ofPolls task token' k := by
  cases k with
  | zero => rfl
  | succ k =>
    have same (p : Program) : p.polls task.interval token 0 (k + 1) Machine.fresh.begin =
        p.polls task.interval token' 0 (k + 1) Machine.fresh.begin :=
      Program.polls_congr fun i _ less => agree i (by omega)
    simp only [ofPolls, same]

/-- A run ends with the polls of its program. -/
theorem ofPolls_eq_ended_iff {p : Program} {o : Outcome} (compiled : task.source.compile = .ok p) :
    ofPolls task token k = .ended o ↔
      p.polls task.interval token 0 k Machine.fresh.begin = .inr o := by
  cases k with
  | zero => exact ⟨nofun, nofun⟩
  | succ k =>
    simp only [ofPolls, compiled]
    cases p.polls task.interval token 0 (k + 1) Machine.fresh.begin with
    | inl c => exact ⟨nofun, nofun⟩
    | inr o' => simp

end Stage

namespace StartedRun

variable {task : RunTask} {n k : Nat} {token token' : CancelToken} {ops : List Operation}

/-- What has become of the run with the given number by operations since its start: it has come as
far as its polls in front of the first drop, and was given up there. -/
def behind (task : RunTask) (n : Nat) (ops : List Operation) : StartedRun :=
  let reached := Stage.ofPolls task (.ofHistory n ops) ((inFrontOf (isDrop n) ops).countP (isPoll n))
  ⟨task, ops.any (isCancel n), if ops.any (isDrop n) then reached.givenUp else reached⟩

/-- What an operation does to the run with the given number. -/
def perform (r : StartedRun) (n : Nat) (op : Operation) : StartedRun :=
  if op.isPoll n then r.poll
  else if op.isCancel n then r.cancel
  else if op.isDrop n then r.drop
  else r

/-- A drop gives a run up where it stands. -/
theorem drop_eq (r : StartedRun) : r.drop = { r with stage := r.stage.givenUp } := by
  obtain ⟨task, cancelled, stage⟩ := r
  cases stage <;> rfl

/-- A poll of a run is one more of the polls of its program. -/
theorem poll_ofPolls (task : RunTask) (token : CancelToken) (k : Nat) :
    poll ⟨task, token k, .ofPolls task token k⟩ =
      ⟨task, token k, .ofPolls task token (k + 1)⟩ := by
  cases k with
  | zero =>
    rw [poll, Stage.ofPolls, Stage.ofPolls]
    cases task.source.compile with
    | error fault => rfl
    | ok p =>
      dsimp only
      rw [goOn, Program.polls]
      cases p.poll task.interval (token 0) Machine.fresh.begin <;> rfl
  | succ k =>
    rw [poll, Stage.ofPolls, Stage.ofPolls]
    cases task.source.compile with
    | error fault => rfl
    | ok p =>
      dsimp only
      rw [Program.polls_add p _ _ 0 (k + 1) 1]
      cases p.polls task.interval token 0 (k + 1) Machine.fresh.begin with
      | inr o => rfl
      | inl c =>
        dsimp only
        rw [goOn, Nat.zero_add, Program.polls]
        cases p.poll task.interval (token (k + 1)) c <;> rfl

/-- A run that has not been dropped has come as far as all its polls. -/
theorem behind_of_undropped (task : RunTask) (undropped : ops.any (isDrop n) = false) :
    behind task n ops = ⟨task, ops.any (isCancel n),
      .ofPolls task (.ofHistory n ops) (ops.countP (isPoll n))⟩ := by
  rw [behind, undropped, if_neg Bool.false_ne_true, inFrontOf_of_none undropped]

/-- A run is over behind the first attempt to drop it. -/
theorem isLive_behind_of_dropped (dropped : ops.any (isDrop n) = true) :
    (behind task n ops).isLive = false := by
  rw [behind, isLive, dropped, if_pos rfl]
  dsimp only
  cases Stage.ofPolls task (.ofHistory n ops) _ <;> rfl

/-- Behind the first attempt to drop a run, at most its cancellation is noted. -/
theorem behind_append_of_dropped (dropped : ops.any (isDrop n) = true) (more : List Operation) :
    behind task n (ops ++ more) =
      { behind task n ops with cancelled := ops.any (isCancel n) || more.any (isCancel n) } := by
  have same : Stage.ofPolls task (.ofHistory n (ops ++ more))
        ((inFrontOf (isDrop n) ops).countP (isPoll n)) =
      Stage.ofPolls task (.ofHistory n ops) ((inFrontOf (isDrop n) ops).countP (isPoll n)) := by
    refine Stage.ofPolls_congr fun i less => CancelToken.ofHistory_append ?_ more
    exact Nat.lt_of_lt_of_le less (List.takeWhile_sublist _).countP_le
  simp only [behind, List.any_append, dropped, Bool.true_or, inFrontOf_append_of_any, same]

/-- A poll at the end of a history polls the run. -/
theorem behind_append_poll (task : RunTask) (n : Nat) (ops : List Operation) :
    behind task n (ops ++ [Operation.poll n]) = (behind task n ops).poll := by
  cases dropped : ops.any (isDrop n) with
  | true =>
    rw [behind_append_of_dropped dropped, poll_of_not_isLive (isLive_behind_of_dropped dropped)]
    simp [behind, isCancel]
  | false =>
    have undropped : (ops ++ [Operation.poll n]).any (isDrop n) = false := by
      simp [dropped, isDrop]
    have found := CancelToken.ofHistory_of_le (Nat.le_refl (ops.countP (isPoll n)))
    rw [behind_of_undropped task undropped, behind_of_undropped task dropped,
      CancelToken.ofHistory_append_of_none rfl, ← found, poll_ofPolls, found]
    simp [isPoll, isCancel]

/-- A cancellation at the end of a history leaves the run where it stands. -/
theorem behind_append_cancel (task : RunTask) (n : Nat) (ops : List Operation) :
    behind task n (ops ++ [Operation.cancel n]) = (behind task n ops).cancel := by
  cases dropped : ops.any (isDrop n) with
  | true =>
    rw [behind_append_of_dropped dropped, cancel]
    simp [isCancel]
  | false =>
    have undropped : (ops ++ [Operation.cancel n]).any (isDrop n) = false := by
      simp [dropped, isDrop]
    have same : Stage.ofPolls task (.ofHistory n (ops ++ [Operation.cancel n]))
          (ops.countP (isPoll n)) =
        Stage.ofPolls task (.ofHistory n ops) (ops.countP (isPoll n)) :=
      Stage.ofPolls_congr fun i less => CancelToken.ofHistory_append less _
    rw [behind_of_undropped task undropped, behind_of_undropped task dropped, cancel,
      List.countP_append]
    simp [isPoll, isCancel, same]

/-- A drop at the end of a history gives the run up. -/
theorem behind_append_drop (task : RunTask) (n : Nat) (ops : List Operation) :
    behind task n (ops ++ [Operation.drop n]) = (behind task n ops).drop := by
  cases dropped : ops.any (isDrop n) with
  | true =>
    rw [behind_append_of_dropped dropped, drop_of_not_isLive (isLive_behind_of_dropped dropped)]
    simp [behind, isCancel]
  | false =>
    rw [drop_eq, behind_of_undropped task dropped, behind, CancelToken.ofHistory_append_of_none rfl,
      inFrontOf_append_of_none dropped]
    simp [isCancel, isDrop, inFrontOf]

/-- A history acts on a run one operation after the other. -/
theorem behind_append_singleton (task : RunTask) (n : Nat) (ops : List Operation) (op : Operation) :
    behind task n (ops ++ [op]) = (behind task n ops).perform n op := by
  rw [perform]
  split
  · rename_i polls
    rw [eq_of_isPoll polls, behind_append_poll]
  split
  · rename_i cancels
    rw [eq_of_isCancel cancels, behind_append_cancel]
  split
  · rename_i drops
    rw [eq_of_isDrop drops, behind_append_drop]
  rename_i waits pending stays
  -- an operation that does not concern the run
  have front : (inFrontOf (isDrop n) (ops ++ [op])).countP (isPoll n) =
      (inFrontOf (isDrop n) ops).countP (isPoll n) := by
    cases dropped : ops.any (isDrop n) with
    | true => rw [inFrontOf_append_of_any dropped]
    | false =>
      rw [inFrontOf_append_of_none dropped, inFrontOf_of_none dropped]
      simp [inFrontOf, waits, stays]
  have unchanged : [op].any (isCancel n) = false := by simpa using pending
  simp only [behind, List.any_append, CancelToken.ofHistory_append_of_none unchanged, front,
    unchanged, Bool.or_false]
  simp [stays]

/-- A history that goes on acts on what the run has become. -/
theorem behind_append (task : RunTask) (n : Nat) (ops more : List Operation) :
    behind task n (ops ++ more) = more.foldl (·.perform n) (behind task n ops) := by
  induction more using List.reverseRecOn with
  | nil => rw [List.append_nil, List.foldl_nil]
  | append_singleton more op ih =>
    rw [← List.append_assoc, behind_append_singleton, ih, List.foldl_append, List.foldl_cons,
      List.foldl_nil]

/-- What is done to a run that is over does not make it live again. -/
theorem settles_perform (n : Nat) (op : Operation) : Settles (·.perform n op) := by
  intro r settled
  dsimp only
  rw [perform]
  split
  · exact settles_poll r settled
  split
  · exact settles_cancel r settled
  split
  · exact settles_drop r settled
  · exact settled

/-- Nor do operations in a row. -/
theorem settles_foldl (n : Nat) (ops : List Operation) : Settles (ops.foldl (·.perform n)) := by
  intro r settled
  induction ops generalizing r with
  | nil => exact settled
  | cons op ops ih => exact ih _ (settles_perform n op r settled)

/-- A live run has not been dropped. -/
theorem undropped_of_isLive (live : (behind task n ops).isLive = true) :
    ops.any (isDrop n) = false := by
  cases dropped : ops.any (isDrop n) with
  | false => rfl
  | true =>
    rw [isLive_behind_of_dropped dropped] at live
    cases live

/-- Polls in a row bring a run forward that has not been dropped. -/
theorem behind_append_polls (task : RunTask) (undropped : ops.any (isDrop n) = false) (k : Nat) :
    behind task n (ops ++ List.replicate k (.poll n)) = ⟨task, ops.any (isCancel n),
      .ofPolls task (.ofHistory n ops) (ops.countP (isPoll n) + k)⟩ := by
  have polls : ∀ op ∈ List.replicate k (Operation.poll n), op = .poll n :=
    fun op member => List.eq_of_mem_replicate member
  have no_drop : (List.replicate k (Operation.poll n)).any (isDrop n) = false :=
    List.any_eq_false.2 fun op member => by rw [polls op member]; nofun
  have no_cancel : (List.replicate k (Operation.poll n)).any (isCancel n) = false :=
    List.any_eq_false.2 fun op member => by rw [polls op member]; nofun
  rw [behind_of_undropped task (by rw [List.any_append, undropped, no_drop]; rfl),
    CancelToken.ofHistory_append_of_none no_cancel, List.any_append, no_cancel, Bool.or_false,
    List.countP_append, List.countP_replicate, isPoll, beq_self_eq_true, if_pos rfl]

/-- A live run that is cancelled is interrupted by the next poll. -/
theorem poll_cancel {p : Program} {cancelled : Bool} (compiled : task.source.compile = .ok p)
    (live : isLive ⟨task, cancelled, .ofPolls task token k⟩ = true) :
    ∃ c, p.polls task.interval token 0 k Machine.fresh.begin = .inl c ∧
      poll (cancel ⟨task, cancelled, .ofPolls task token k⟩) =
        ⟨task, true, .ended (p.interrupt c)⟩ := by
  cases k with
  | zero =>
    refine ⟨Machine.fresh.begin, rfl, ?_⟩
    simp only [poll, cancel, Stage.ofPolls, compiled, goOn, Program.poll_true]
  | succ k =>
    rw [isLive, Stage.ofPolls, compiled] at live
    dsimp only at live
    cases polled : p.polls task.interval token 0 (k + 1) Machine.fresh.begin with
    | inr o =>
      rw [polled] at live
      cases live
    | inl c =>
      refine ⟨c, rfl, ?_⟩
      simp only [poll, cancel, Stage.ofPolls, compiled, polled, goOn, Program.poll_true]

/-- A live run of code without a program has not been polled. -/
theorem waiting_of_error {fault : Diagnostic} {cancelled : Bool}
    (failed : task.source.compile = .error fault)
    (live : isLive ⟨task, cancelled, .ofPolls task token k⟩ = true) : k = 0 := by
  cases k with
  | zero => rfl
  | succ k =>
    rw [isLive, Stage.ofPolls, failed] at live
    cases live

end StartedRun

/-! ## Desks -/

namespace Desk

variable {d : Desk} {n : Nat} {r : StartedRun} {task : RunTask} {ops before after : List Operation}

/-- A change of one run leaves the others as they are. -/
theorem runs_changeRun (found : d.runs[n]? = some r) (i : Nat) (change : StartedRun → StartedRun) :
    (d.changeRun i change).runs[n]? = some (if i == n then change r else r) := by
  rw [changeRun]
  split
  · rename_i missing
    have other : i ≠ n := by
      rintro rfl
      rw [found] at missing
      cases missing
    rw [found, if_neg (by simpa using other)]
  · rename_i r₀ there
    rw [List.getElem?_set]
    by_cases same : i = n
    · subst same
      obtain rfl : r = r₀ := by simpa [found] using there
      simp [(List.getElem?_eq_some_iff.1 found).1]
    · simp [same, found]

/-- An operation at a desk is an operation on each of the runs. -/
theorem runs_perform (found : d.runs[n]? = some r) (op : Operation) :
    (d.perform op).runs[n]? = some (r.perform n op) := by
  cases op with
  | editText | editBlocks | textChanged | blocksChanged | parse | withInterval => exact found
  | start =>
    rw [perform]
    split
    · exact (List.getElem?_append_left (List.getElem?_eq_some_iff.1 found).1).trans found
    · exact found
  | poll i | cancel i | drop i =>
    rw [perform, runs_changeRun found, StartedRun.perform]
    rfl

/-- A start adds a run of the code, unless the session is busy. -/
theorem runs_start (d : Desk) : d.session.running = true ∧ d.perform .start = d ∨
    d.session.running = false ∧ (d.perform .start).runs =
      d.runs ++ [.behind ⟨d.session.source, d.session.interval⟩ d.runs.length []] := by
  rw [perform]
  rcases d.session.startRun_cases with ⟨busy, fault, refused⟩ | ⟨free, started⟩
  · rw [refused]
    exact .inl ⟨busy, rfl⟩
  · rw [started]
    exact .inr ⟨free, rfl⟩

/-- A run was there before the last operation, or the operation started it. -/
theorem exists_of_runs_perform {op : Operation} (found : (d.perform op).runs[n]? = some r) :
    (∃ r₀, d.runs[n]? = some r₀ ∧ r = r₀.perform n op) ∨
      op = .start ∧ n = d.runs.length ∧ d.session.running = false ∧
        r = .behind ⟨d.session.source, d.session.interval⟩ d.runs.length [] := by
  cases there : d.runs[n]? with
  | some r₀ =>
    have same := (runs_perform there op).symm.trans found
    exact .inl ⟨r₀, rfl, (Option.some.inj same).symm⟩
  | none =>
    right
    have outside := List.getElem?_eq_none_iff.1 there
    have unchanged : (d.perform op).runs.length ≠ d.runs.length := by
      have inside := (List.getElem?_eq_some_iff.1 found).1
      omega
    cases op with
    | editText | editBlocks | textChanged | blocksChanged | parse | withInterval =>
      exact absurd rfl unchanged
    | poll i | cancel i | drop i =>
      refine absurd ?_ unchanged
      rw [perform, changeRun]
      split
      · rfl
      · exact List.length_set
    | start =>
      rcases d.runs_start with ⟨-, refused⟩ | ⟨free, started⟩
      · rw [refused] at unchanged
        exact absurd rfl unchanged
      · rw [started, List.getElem?_append_right outside, List.getElem?_singleton] at found
        split at found
        · cases found
          exact ⟨rfl, by omega, free, rfl⟩
        · cases found

/-- A run goes on with its history. -/
theorem runs_run (found : d.runs[n]? = some (.behind task n ops)) (more : List Operation) :
    (d.run more).runs[n]? = some (.behind task n (ops ++ more)) := by
  -- From behind, as a history is longer by its last operation.
  induction more using List.reverseRecOn with
  | nil => rwa [List.append_nil]
  | append_singleton more op ih =>
    rw [← List.append_assoc, StartedRun.behind_append_singleton, run_append, run_singleton]
    exact runs_perform ih op

/-- Behind some operations a desk starts a run, which gets the next number and the code that the
session has there. -/
structure Starts (d : Desk) (before : List Operation) (n : Nat) (task : RunTask) : Prop where
  free : (d.run before).session.running = false
  length_runs : (d.run before).runs.length = n
  task_eq : task = ⟨(d.run before).session.source, (d.run before).session.interval⟩

/-- A run that was started is there, and has become what its history says. -/
theorem Starts.runs (h : d.Starts before n task) (after : List Operation) :
    (d.run (before ++ .start :: after)).runs[n]? = some (.behind task n after) := by
  have here : (d.run (before ++ [.start])).runs[n]? = some (.behind task n []) := by
    rw [run_append, run_singleton]
    rcases (d.run before).runs_start with ⟨busy, -⟩ | ⟨-, started⟩
    · rw [h.free] at busy
      cases busy
    · rw [started, ← h.length_runs, h.task_eq]
      exact List.getElem?_concat_length
  rw [List.append_cons, run_append]
  exact runs_run here after

/-- The runs of a desk are the runs that were started, each of which has become what its history
says. -/
theorem runs_run_iff (none : d.runs = []) (ops : List Operation) :
    (d.run ops).runs[n]? = some r ↔ ∃ before after task, ops = before ++ .start :: after ∧
      d.Starts before n task ∧ r = .behind task n after := by
  constructor
  · intro found
    induction ops using List.reverseRecOn generalizing r with
    | nil =>
      rw [run_nil, none] at found
      cases found
    | append_singleton ops op ih =>
      rw [run_append, run_singleton] at found
      rcases exists_of_runs_perform found with ⟨r₀, there, rfl⟩ | ⟨rfl, number, free, rfl⟩
      · obtain ⟨before, after, task, rfl, starts, rfl⟩ := ih there
        exact ⟨before, after ++ [op], task, by simp, starts,
          (StartedRun.behind_append_singleton task n after op).symm⟩
      · rw [← number]
        exact ⟨ops, [], _, rfl, ⟨free, number.symm, rfl⟩, rfl⟩
  · rintro ⟨before, after, task, rfl, starts, rfl⟩
    exact starts.runs after

/-! ## Executions -/

/-- Operations end the run with the given number: it becomes a run that is over, the session is
free, and nothing else has changed. -/
def Ends (d : Desk) (ops : List Operation) (n : Nat) (r : StartedRun) : Prop :=
  r.isLive = false ∧ d.run ops = ⟨d.session.endRun, d.runs.set n r⟩

/-- What becomes of the live run with the given number, which has been polled so often. -/
structure Executes (d : Desk) (n : Nat) (r : StartedRun) (token : CancelToken) (polls : Nat) :
    Prop where
  /-- The first poll of code without a program rejects it. -/
  rejected : ∀ fault, r.task.source.compile = .error fault →
    d.Ends [.poll n] n { r with stage := .rejected fault }
  /-- A program is polled to the end that it comes to, complete, with a fault, or cancelled, and to
  no other. -/
  ended_iff : ∀ p, r.task.source.compile = .ok p → ∀ o,
    (∃ k, d.Ends (List.replicate k (.poll n)) n { r with stage := .ended o }) ↔
      p.Finishes r.task.interval token .fresh o
  /-- A program that is cancelled is interrupted by the next poll. -/
  cancelled : ∀ p, r.task.source.compile = .ok p → ∃ c,
    p.polls r.task.interval token 0 polls Machine.fresh.begin = .inl c ∧
      d.Ends [.cancel n, .poll n] n { r with cancelled := true, stage := .ended (p.interrupt c) }
  /-- A run can be dropped wherever it stands. -/
  dropped : d.Ends [.drop n] n { r with stage := .dropped }

/-- An operation on one run changes that run, and makes the session free where it comes to its end.
-/
theorem perform_own {op : Operation} (found : d.runs[n]? = some r)
    (own : (op.isPoll n || op.isCancel n || op.isDrop n) = true) :
    d.perform op = ⟨if r.isLive && !(r.perform n op).isLive then d.session.endRun else d.session,
      d.runs.set n (r.perform n op)⟩ := by
  simp only [Bool.or_eq_true] at own
  rcases own with (polls | cancels) | drops
  · obtain rfl := eq_of_isPoll polls
    simp only [perform, changeRun, found, StartedRun.perform, polls, if_true]
  · obtain rfl := eq_of_isCancel cancels
    simp only [perform, changeRun, found, StartedRun.perform, isPoll, cancels, if_true,
      Bool.false_eq_true, if_false]
  · obtain rfl := eq_of_isDrop drops
    simp only [perform, changeRun, found, StartedRun.perform, isPoll, isCancel, drops, if_true,
      Bool.false_eq_true, if_false]

/-- Operations on one run change that run, and make the session free where it comes to its end. -/
theorem run_own (found : d.runs[n]? = some r)
    (own : ∀ op ∈ ops, (op.isPoll n || op.isCancel n || op.isDrop n) = true) :
    d.run ops = ⟨if r.isLive && !(ops.foldl (·.perform n) r).isLive then d.session.endRun
      else d.session, d.runs.set n (ops.foldl (·.perform n) r)⟩ := by
  induction ops generalizing d r with
  | nil =>
    obtain ⟨inside, rfl⟩ := List.getElem?_eq_some_iff.1 found
    simp [List.foldl_nil]
  | cons op ops ih =>
    obtain ⟨first, rest⟩ := List.forall_mem_cons.1 own
    have next := perform_own found first
    have found' : (d.perform op).runs[n]? = some (r.perform n op) := runs_perform found op
    show (d.perform op).run ops = _
    rw [ih found' rest, next, List.foldl_cons, List.set_set]
    congr 1
    -- the session is set free by the first operation that ends the run
    cases live : r.isLive with
    | false =>
      have settled := StartedRun.settles_perform n op r live
      dsimp only at settled
      rw [settled]
      rfl
    | true =>
      cases live' : (r.perform n op).isLive with
      | true => rfl
      | false =>
        rw [StartedRun.settles_foldl n ops _ live']
        rfl

/-- A live run that some operations on it bring to its end. -/
theorem ends_of_behind (found : d.runs[n]? = some (.behind task n after))
    (live : (StartedRun.behind task n after).isLive = true)
    (own : ∀ op ∈ ops, (op.isPoll n || op.isCancel n || op.isDrop n) = true)
    (same : StartedRun.behind task n (after ++ ops) = r) (settled : r.isLive = false) :
    d.Ends ops n r := by
  rw [StartedRun.behind_append] at same
  refine ⟨settled, ?_⟩
  rw [run_own found own, same, live, settled]
  rfl

section Executions

variable (found : d.runs[n]? = some (.behind task n after))
  (live : (StartedRun.behind task n after).isLive = true)

include found live

/-- The first poll of a live run of code without a program rejects it. -/
theorem ends_rejected {fault : Diagnostic} (failed : task.source.compile = .error fault) :
    d.Ends [.poll n] n { StartedRun.behind task n after with stage := .rejected fault } := by
  have undropped := StartedRun.undropped_of_isLive live
  refine ends_of_behind found live (by simp [isPoll]) ?_ rfl
  rw [StartedRun.behind_of_undropped task undropped] at live ⊢
  have polled := StartedRun.behind_append_polls task undropped 1
  rw [StartedRun.waiting_of_error failed live, Stage.ofPolls, failed] at polled
  exact polled

/-- A live run is polled to the end that its program comes to, and to no other. -/
theorem ends_ended_iff {p : Program} (compiled : task.source.compile = .ok p) (o : Outcome) :
    (∃ k, d.Ends (List.replicate k (.poll n)) n
        { StartedRun.behind task n after with stage := .ended o }) ↔
      p.Finishes task.interval (.ofHistory n after) .fresh o := by
  have undropped := StartedRun.undropped_of_isLive live
  have polled := StartedRun.behind_append_polls task undropped
  constructor
  · rintro ⟨k, -, ran⟩
    have inside := (List.getElem?_eq_some_iff.1 found).1
    have ended := runs_run found (List.replicate k (.poll n))
    rw [ran, List.getElem?_set_self inside, polled, Option.some.injEq, StartedRun.mk.injEq] at ended
    exact ⟨_, (Stage.ofPolls_eq_ended_iff compiled).1 ended.2.2.symm⟩
  · rintro ⟨k, finishes⟩
    have own : ∀ op ∈ List.replicate k (Operation.poll n),
        (op.isPoll n || op.isCancel n || op.isDrop n) = true := fun op member => by
      rw [List.eq_of_mem_replicate member]
      simp [isPoll]
    -- The polls that are still to come go on where those of the history left off.
    have longer : p.polls task.interval (.ofHistory n after) 0 (after.countP (isPoll n) + k)
        Machine.fresh.begin = .inr o := by
      rw [Nat.add_comm, Program.polls_add, finishes]
    refine ⟨k, ends_of_behind found live own ?_ rfl⟩
    rw [polled, (Stage.ofPolls_eq_ended_iff compiled).2 longer]
    rfl

/-- A live run that is cancelled ends where it stands. -/
theorem ends_cancelled {p : Program} (compiled : task.source.compile = .ok p) :
    ∃ c, p.polls task.interval (.ofHistory n after) 0 (after.countP (isPoll n))
        Machine.fresh.begin = .inl c ∧
      d.Ends [.cancel n, .poll n] n ⟨task, true, .ended (p.interrupt c)⟩ := by
  have reached := StartedRun.behind_of_undropped task (StartedRun.undropped_of_isLive live)
  obtain ⟨c, running, interrupted⟩ := StartedRun.poll_cancel compiled (reached ▸ live)
  refine ⟨c, running, ends_of_behind found live (by simp [isPoll, isCancel]) ?_ rfl⟩
  rw [List.append_cons, StartedRun.behind_append_poll, StartedRun.behind_append_cancel, reached,
    interrupted]

/-- A live run can be dropped wherever it stands. -/
theorem ends_dropped :
    d.Ends [.drop n] n { StartedRun.behind task n after with stage := .dropped } := by
  refine ends_of_behind found live (by simp [isDrop]) ?_ rfl
  rw [StartedRun.behind_append_drop, StartedRun.drop, live, if_pos rfl]

/-- A live run can be executed to its end. -/
theorem executes : d.Executes n (.behind task n after) (.ofHistory n after)
    (after.countP (isPoll n)) where
  rejected _ failed := ends_rejected found live failed
  ended_iff _ compiled o := ends_ended_iff found live compiled o
  cancelled _ compiled := ends_cancelled found live compiled
  dropped := ends_dropped found live

end Executions

/-- At any point in the history of a new session at most one run is live, and the session is busy
exactly while one is.  Its runs are those that were started while it was free, each of the code that
it had there, and each has become what its own polls, its cancellation and its drop make of it.  A
live run can be polled to the end that its program comes to, be it complete, with a fault or
cancelled, and can be dropped, and the session is free behind it. -/
theorem runsOne_run (workspace : Workspace) (buffer : TextBuffer) (config : SessionConfig)
    (ops : List Operation) :
    ((Desk.new workspace buffer config).run ops).RunsOne ∧
      (∀ n r, ((Desk.new workspace buffer config).run ops).runs[n]? = some r ↔
        ∃ before after task, ops = before ++ .start :: after ∧
          (Desk.new workspace buffer config).Starts before n task ∧ r = .behind task n after) ∧
      ∀ n before after task, ops = before ++ .start :: after →
        (Desk.new workspace buffer config).Starts before n task →
        (StartedRun.behind task n after).isLive = true →
        ((Desk.new workspace buffer config).run ops).Executes n (.behind task n after)
          (.ofHistory n after) (after.countP (isPoll n)) := by
  have counts := countsLive_run (countsLive_new workspace buffer config) ops
  refine ⟨runsOne_of_countsLive counts, fun n r => runs_run_iff rfl ops, ?_⟩
  rintro n before after task rfl starts live
  exact executes (starts.runs after) live

/-- The run of the first code of a session. -/
def greeting : RunTask := ⟨⟨Source.standardInput, "print(\"Hello Ace!\")\n"⟩, defaultYieldInterval⟩

/-- The run of a name that has no value. -/
def unboundName : RunTask := ⟨⟨Source.standardInput, "x"⟩, defaultYieldInterval⟩

/-- The code is edited and another run is asked for, while the first one waits. -/
def editsMeanwhile : List Operation := [.start, .editText (·.setText ['x']), .start]

/-- The first run prints the greeting in the end, though the code was edited meanwhile.  Behind it
the edited code can be run, and fails. -/
theorem runsOne_run_startsAgain : ∃ k k' o o', o.result = .ok () ∧ o.machine.output = "Hello Ace!\n" ∧
    (∃ fault, o'.result = .error fault ∧ fault.cause = .undefinedName "x") ∧
    ((Desk.new .standard .empty .standard).run (editsMeanwhile ++ List.replicate k (.poll 0) ++
        [.start] ++ List.replicate k' (.poll 1))).runs =
      [⟨greeting, false, .ended o⟩, ⟨unboundName, false, .ended o'⟩] ∧
    ((Desk.new .standard .empty .standard).run (editsMeanwhile ++ List.replicate k (.poll 0) ++
        [.start] ++ List.replicate k' (.poll 1))).session.running = false := by
  have computed : (match greeting.source.compile, unboundName.source.compile with
      | .ok p, .ok p' =>
        match p.advance 3 Machine.fresh.begin, p'.advance 3 Machine.fresh.begin with
        | .inr ⟨.ok (), _, m⟩, .inr ⟨.error fault, _, _⟩ =>
          decide (m.output = "Hello Ace!\n" ∧ fault.cause = .undefinedName "x")
        | _, _ => false
      | _, _ => false) = true := by
    decide +kernel
  split at computed
  · rename_i p p' compiled compiled'
    split at computed
    · rename_i executed m fault executed' m' ended ended'
      obtain ⟨printed, unbound⟩ := of_decide_eq_true computed
      have first := (runsOne_run .standard .empty .standard editsMeanwhile).2.2 0 [] _ greeting rfl
        ⟨rfl, rfl, rfl⟩ rfl
      obtain ⟨k, -, ran⟩ :=
        (first.ended_iff p compiled _).2 (Program.finishes_never_iff.2 ⟨3, ended⟩)
      have free : (Desk.new .standard .empty .standard).run
          (editsMeanwhile ++ List.replicate k (.poll 0)) = _ := (run_append _ _ _).trans ran
      have second := (runsOne_run .standard .empty .standard
        (editsMeanwhile ++ List.replicate k (.poll 0) ++ [.start])).2.2 1 _ [] unboundName rfl
        ⟨by rw [free]; rfl, by rw [free]; rfl, by rw [free]; rfl⟩ rfl
      obtain ⟨k', -, ran'⟩ :=
        (second.ended_iff p' compiled' _).2 (Program.finishes_never_iff.2 ⟨3, ended'⟩)
      refine ⟨k, k', ⟨.ok (), executed, m⟩, ⟨.error fault, executed', m'⟩, rfl, printed,
        ⟨fault, rfl, unbound⟩, ?_, ?_⟩
      · rw [run_append, ran', run_append, free]
        rfl
      · rw [run_append, ran']
        rfl
    · cases computed
  · cases computed

end Desk

end BlockEditor
