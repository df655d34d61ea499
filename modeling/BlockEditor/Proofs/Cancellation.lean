import BlockEditor.Machine.Run

/-!
# Cancelled runs

The polls of a run are slices of one run that never pauses, so the interval between its pauses does
not matter to it.  Where a run is cancelled at a pause, it is cut off behind the instructions of the
slices before, unless it has ended within them.
-/

namespace BlockEditor

namespace Program

variable {p : Program} {interval i j n : Nat} {token token' : CancelToken} {m : Machine}
  {c c' : Configuration} {o o' : Outcome}

/-! ## Slices -/

/-- In front of a multiple, one step of the interval is left. -/
theorem pause_next (h : (n + 1) % max interval 1 = 0) :
    max interval 1 - n % max interval 1 = 1 := by
  have := pause_or_further n interval
  omega

/-- A poll of a run that is not cancelled goes on up to the next pause. -/
theorem poll_false (p : Program) (interval : Nat) (c : Configuration) :
    p.poll interval false c =
      p.advance (max interval 1 - c.executed % max interval 1) c := by
  have some_left (c : Configuration) : ∃ left,
      max interval 1 - c.executed % max interval 1 = left + 1 := by
    have := Nat.mod_lt c.executed (show 0 < max interval 1 by omega)
    exact ⟨max interval 1 - c.executed % max interval 1 - 1, by omega⟩
  generalize uncancelled : false = cancelled
  -- the recursion of the poll: one case for each way to leave it, and one for going on
  fun_induction poll p interval cancelled c with
  | case1 c ended =>
    obtain ⟨left, left_eq⟩ := some_left c
    rw [left_eq, advance, step, ended]
  | case2 c instr more cancelled => rw [cancelled] at uncancelled; cases uncancelled
  | case3 c instr more _ fault m' ran =>
    obtain ⟨left, left_eq⟩ := some_left c
    rw [left_eq, advance, step, more]
    simp only [ran]
  | case4 c instr more _ pc m' ran pause =>
    rw [pause_next pause, advance, step, more]
    simp only [ran, advance]
  | case5 c instr more _ pc m' ran between ih =>
    rw [ih, ← pause_nearer between, advance, step, more]
    simp only [ran]

/-- A poll of a run that is cancelled ends it. -/
theorem poll_true (p : Program) (interval : Nat) (c : Configuration) :
    p.poll interval true c = .inr (p.interrupt c) := by
  rw [poll, interrupt]
  cases p.get? c.pc <;> rfl

/-- An instruction that succeeds is counted. -/
theorem executed_of_step (e : p.step c = .inl c') : c'.executed = c.executed + 1 := by
  rw [step] at e
  split at e
  · cases e
  · split at e
    · cases e
      rfl
    · cases e

/-- What ends a run is not counted, and a run is complete only if no instruction is left. -/
theorem executed_of_step_end (e : p.step c = .inr o) :
    o.executed = c.executed ∧ (o.result = .ok () → p.get? c.pc = none) := by
  rw [step] at e
  split at e
  · rename_i ended
    cases e
    exact ⟨rfl, fun _ => ended⟩
  · split at e
    · cases e
    · cases e
      exact ⟨rfl, by simp⟩

/-- A slice counts its instructions. -/
theorem executed_of_advance (e : p.advance n c = .inl c') : c'.executed = c.executed + n := by
  induction n generalizing c with
  | zero =>
    cases e
    rfl
  | succ n ih =>
    rw [advance] at e
    cases s : p.step c with
    | inr o =>
      rw [s] at e
      cases e
    | inl c₁ =>
      rw [s] at e
      rw [ih e, executed_of_step s]
      omega

/-- Polls that are never cancelled are one slice. -/
theorem polls_never (p : Program) (interval first n : Nat) (fresh : c.executed % max interval 1 = 0) :
    p.polls interval .never first n c = p.advance (n * max interval 1) c := by
  induction n generalizing first c with
  | zero => rw [Nat.zero_mul, polls, advance]
  | succ n ih =>
    rw [polls, CancelToken.never, poll_false, fresh, Nat.sub_zero, Nat.succ_mul,
      Nat.add_comm (n * _), advance_add]
    cases slice : p.advance (max interval 1) c with
    | inr o => rfl
    | inl c' =>
      have next := executed_of_advance slice
      exact ih (first + 1) (by rw [next, Nat.add_mod_right, fresh])

/-- Two series of polls, one after the other. -/
theorem polls_add (p : Program) (interval : Nat) (token : CancelToken) (first i j : Nat)
    (c : Configuration) :
    p.polls interval token first (i + j) c =
      match p.polls interval token first i c with
      | .inl c => p.polls interval token (first + i) j c
      | .inr o => .inr o := by
  induction i generalizing first c with
  | zero => simp [polls]
  | succ i ih =>
    rw [Nat.succ_add]
    simp only [polls]
    cases p.poll interval (token first) c with
    | inr o => rfl
    | inl c => simp only [ih, Nat.add_assoc, Nat.add_comm 1 i]

/-- Tokens that agree while a run is polled have the same effect. -/
theorem polls_congr {first : Nat} (agree : ∀ i, first ≤ i → i < first + n → token i = token' i) :
    p.polls interval token first n c = p.polls interval token' first n c := by
  induction n generalizing first c with
  | zero => rfl
  | succ n ih =>
    rw [polls, polls, agree first (Nat.le_refl _) (by omega)]
    cases p.poll interval (token' first) c with
    | inr o => rfl
    | inl c => exact ih fun i above below => agree i (by omega) (by omega)

/-- However a run is cancelled, it ends as the run without pauses does, or is cut off from it. -/
theorem advance_of_polls {first : Nat} (e : p.polls interval token first n c = .inr o) :
    ∃ j, p.advance j c = .inr o ∨ ∃ c', p.advance j c = .inl c' ∧ o = p.interrupt c' := by
  induction n generalizing first c with
  | zero => cases e
  | succ n ih =>
    rw [polls] at e
    cases fires : token first with
    | true =>
      rw [fires, poll_true] at e
      cases e
      exact ⟨0, .inr ⟨c, rfl, rfl⟩⟩
    | false =>
      rw [fires, poll_false] at e
      cases slice : p.advance (max interval 1 - c.executed % max interval 1) c with
      | inr o' =>
        rw [slice] at e
        cases e
        exact ⟨_, .inl slice⟩
      | inl c₁ =>
        rw [slice] at e
        obtain ⟨j, ends⟩ := ih e
        refine ⟨max interval 1 - c.executed % max interval 1 + j, ?_⟩
        rw [advance_add, slice]
        exact ends

/-! ## Polled runs -/

/-- A run that pauses after every `interval` instructions ends by `o`, if it is polled for as long as
it goes on. -/
def Finishes (p : Program) (interval : Nat) (token : CancelToken) (m : Machine) (o : Outcome) :
    Prop :=
  ∃ n, p.polls interval token 0 n m.begin = .inr o

/-- A run has only one end. -/
theorem Finishes.unique (h : p.Finishes interval token m o) (h' : p.Finishes interval token m o') :
    o = o' := by
  obtain ⟨i, e⟩ := h
  obtain ⟨j, e'⟩ := h'
  have first : p.polls interval token 0 (i + j) m.begin = .inr o := by rw [polls_add, e]
  have second : p.polls interval token 0 (j + i) m.begin = .inr o' := by rw [polls_add, e']
  rw [Nat.add_comm, second, Sum.inr.injEq] at first
  exact first.symm

/-- A run that is never cancelled ends as it would without its pauses. -/
theorem finishes_never_iff :
    p.Finishes interval .never m o ↔ ∃ n, p.advance n m.begin = .inr o := by
  have slices (n : Nat) : p.polls interval .never 0 n m.begin =
      p.advance (n * max interval 1) m.begin := polls_never p interval 0 n (Nat.zero_mod _)
  constructor
  · rintro ⟨n, e⟩
    exact ⟨n * max interval 1, by rw [← slices, e]⟩
  · rintro ⟨n, e⟩
    have le : n ≤ n * max interval 1 := Nat.le_mul_of_pos_right n (by omega)
    refine ⟨n, ?_⟩
    rw [slices, ← Nat.add_sub_of_le le, advance_add, e]

/-- A run that is cancelled at a pause ends as one that is cut off behind the instructions in front
of the pause. -/
theorem finishes_after_iff (k : Nat) :
    p.Finishes interval (.after k) m o ↔ o = p.runFor (cancelPoint interval k) m := by
  have before : p.polls interval (.after k) 0 k m.begin =
      p.advance (cancelPoint interval k) m.begin := by
    have pending : ∀ i, 0 ≤ i → i < 0 + k → CancelToken.after k i = CancelToken.never i := by
      intro i _ less
      simp only [CancelToken.after, CancelToken.never, decide_eq_false_iff_not]
      omega
    rw [polls_congr pending, polls_never p interval 0 k (Nat.zero_mod _), cancelPoint]
  have here : p.Finishes interval (.after k) m (p.runFor (cancelPoint interval k) m) := by
    unfold runFor
    cases slice : p.advance (cancelPoint interval k) m.begin with
    | inr o => exact ⟨k, by rw [before, slice]⟩
    | inl c =>
      refine ⟨k + 1, ?_⟩
      rw [polls_add, before, slice]
      simp only [polls, CancelToken.after, Nat.zero_add, Nat.le_refl, decide_true, poll_true]
  constructor
  · exact fun h => h.unique here
  · rintro rfl
    exact here

end Program

/-! ## Prefixes -/

/-- The run ends within its first `n` instructions: it fails in one of them, or is complete behind
them at the latest. -/
def Outcome.Within (n : Nat) (o : Outcome) : Prop :=
  match o.result with
  | .ok () => o.executed ≤ n
  | .error _ => o.executed < n

namespace Program

variable {p : Program} {interval j n : Nat} {m : Machine} {c c' : Configuration} {o : Outcome}
  {instr : Instr}

/-- A run that ends does so before the number of its steps is used up. -/
theorem executed_lt_of_advance (e : p.advance n c = .inr o) : o.executed < c.executed + n := by
  induction n generalizing c with
  | zero => cases e
  | succ n ih =>
    rw [advance] at e
    cases s : p.step c with
    | inl c₁ =>
      rw [s] at e
      have counted := executed_of_step s
      have less := ih e
      omega
    | inr o₁ =>
      rw [s] at e
      cases e
      have same := (executed_of_step_end s).1
      omega

/-- The count of a run does not decrease, and grows before a run is complete that has an instruction
left. -/
theorem le_executed_of_advance (e : p.advance n c = .inr o) :
    c.executed ≤ o.executed ∧
      ∀ instr, p.get? c.pc = some instr → o.result = .ok () → c.executed < o.executed := by
  induction n generalizing c with
  | zero => cases e
  | succ n ih =>
    rw [advance] at e
    cases s : p.step c with
    | inl c₁ =>
      rw [s] at e
      have counted := executed_of_step s
      have le := (ih e).1
      exact ⟨by omega, fun _ _ _ => by omega⟩
    | inr o₁ =>
      rw [s] at e
      cases e
      obtain ⟨same, complete⟩ := executed_of_step_end s
      refine ⟨Nat.le_of_eq same.symm, fun instr more ok => ?_⟩
      rw [complete ok] at more
      cases more

/-- An outcome that `n` steps come to lies within `n` instructions. -/
theorem within_of_advance (e : p.advance n m.begin = .inr o) : o.Within n := by
  have less : o.executed < 0 + n := executed_lt_of_advance e
  unfold Outcome.Within
  split <;> omega

/-- A run that stands at the end of the program after `n` steps is complete within them. -/
theorem within_of_ended (e : p.advance n m.begin = .inl c) (ended : p.get? c.pc = none) :
    (p.interrupt c).Within n ∧ p.advance (n + 1) m.begin = .inr (p.interrupt c) := by
  have counted : c.executed = 0 + n := executed_of_advance e
  have interrupted : p.interrupt c = ⟨.ok (), c.executed, c.machine⟩ := by rw [interrupt, ended]
  constructor
  · rw [interrupted]
    change c.executed ≤ n
    omega
  · rw [advance_add, e, interrupted]
    simp only [advance, step, ended]

/-- A run that has an instruction left after `n` steps does not end within them. -/
theorem not_within_of_running (e : p.advance n m.begin = .inl c) (more : p.get? c.pc = some instr)
    (ends : p.advance j m.begin = .inr o) : ¬ o.Within n := by
  have counted : c.executed = 0 + n := executed_of_advance e
  have longer : n ≤ j := by
    rcases Nat.le_total n j with longer | shorter
    · exact longer
    · have ended : p.advance (j + (n - j)) m.begin = .inr o := by rw [advance_add, ends]
      rw [Nat.add_sub_of_le shorter, e] at ended
      cases ended
  rw [← Nat.add_sub_of_le longer, advance_add, e] at ends
  obtain ⟨le, complete⟩ := le_executed_of_advance ends
  intro within
  unfold Outcome.Within at within
  split at within
  · rename_i ok
    have := complete instr more ok
    omega
  · omega

/-- A run that is cancelled after `k` polls is a prefix of the one that is not cancelled.  If that
one ends within the instructions of the first `k` polls, both end alike.  Otherwise the cancelled run
ends behind exactly these instructions, on the machine that the other has at its pause, and the
cancellation is reported where the next instruction stands.  The run that is not cancelled does not
depend on the interval between its pauses. -/
theorem finishes_after_beginning (p : Program) (m : Machine) (interval k : Nat) :
    (∀ o, p.Finishes interval .never m o → o.Within (cancelPoint interval k) →
      ∀ o', p.Finishes interval (.after k) m o' ↔ o' = o) ∧
    ((¬ ∃ o, p.Finishes interval .never m o ∧ o.Within (cancelPoint interval k)) →
      ∃ c instr, p.polls interval .never 0 k m.begin = .inl c ∧
        p.advance (cancelPoint interval k) m.begin = .inl c ∧ p.get? c.pc = some instr ∧
        ∀ o', p.Finishes interval (.after k) m o' ↔
          o' = ⟨.error ⟨.cancelled, instr.span⟩, cancelPoint interval k, c.machine⟩) ∧
    ∀ interval' o, p.Finishes interval' .never m o ↔ p.Finishes interval .never m o := by
  refine ⟨?_, ?_, ?_⟩
  · intro o finishes within o'
    rw [finishes_after_iff]
    obtain ⟨j, ends⟩ := finishes_never_iff.1 finishes
    -- The instructions up to the cancellation end the run, or leave nothing to be executed.
    have same : p.runFor (cancelPoint interval k) m = o := by
      unfold runFor
      cases slice : p.advance (cancelPoint interval k) m.begin with
      | inr o₁ => exact (finishes_never_iff.2 ⟨_, slice⟩).unique finishes
      | inl c =>
        cases next : p.get? c.pc with
        | none =>
          have ended := (within_of_ended slice next).2
          exact (finishes_never_iff.2 ⟨_, ended⟩).unique finishes
        | some instr => exact absurd within (not_within_of_running slice next ends)
    rw [same]
  · intro none_within
    cases slice : p.advance (cancelPoint interval k) m.begin with
    | inr o =>
      exact absurd ⟨o, finishes_never_iff.2 ⟨_, slice⟩, within_of_advance slice⟩ none_within
    | inl c =>
      cases next : p.get? c.pc with
      | none =>
        obtain ⟨within, ended⟩ := within_of_ended slice next
        exact absurd ⟨_, finishes_never_iff.2 ⟨_, ended⟩, within⟩ none_within
      | some instr =>
        -- The run has come to the cancellation, and there is an instruction left for it to be
        -- reported at.
        have counted : c.executed = 0 + cancelPoint interval k := executed_of_advance slice
        refine ⟨c, instr, ?_, rfl, next, fun o' => ?_⟩
        · rw [polls_never p interval 0 k (Nat.zero_mod _)]
          exact slice
        · rw [finishes_after_iff, runFor, slice]
          simp only [interrupt, next, counted, Nat.zero_add]
  · intro interval' o
    rw [finishes_never_iff, finishes_never_iff]

/-- A program that goes round in a circle. -/
def circle : Program := ⟨#[.jump 0]⟩

/-- Without pauses of its own choice, the circle is left after one instruction for each poll. -/
theorem finishes_after_beginning_circle :
    circle.Finishes 0 (.after 3) .fresh ⟨.error ⟨.cancelled, .none⟩, 3, .fresh⟩ := by
  obtain ⟨c, instr, -, slice, more, ends⟩ := (finishes_after_beginning circle .fresh 0 3).2.1 (by
    rintro ⟨o, finishes, within⟩
    obtain ⟨j, complete⟩ := finishes_never_iff.1 finishes
    have running : circle.advance 3 Machine.fresh.begin = .inl ⟨0, 3, .fresh⟩ := rfl
    have more : circle.get? 0 = some (.jump 0) := rfl
    exact not_within_of_running running more complete within)
  cases slice
  cases more
  exact (ends _).2 rfl

end Program

end BlockEditor
