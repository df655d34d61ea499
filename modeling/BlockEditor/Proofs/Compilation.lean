import BlockEditor.Proofs.Drafts
import BlockEditor.Proofs.Structured

/-!
# Correctness of compilation

The program of a module does what its statements do.  Both directions speak of a piece of code that
stands somewhere in a program: if the piece runs structurally, the program leads from its start to
where control goes, and if the program ends from there, the piece has run structurally before.
-/

namespace BlockEditor

/-! ## Lists along positions -/

section Along

variable {α : Type} {R : Nat → α → Prop} {pc : Nat} {x : α} {xs ys : List α}

/-- From the position `pc` on, every entry of `xs` is in the relation `R` with its position. -/
def Along (R : Nat → α → Prop) (pc : Nat) (xs : List α) : Prop :=
  ∀ i x, xs[i]? = some x → R (pc + i) x

/-- No entries are in any relation. -/
theorem Along.nil : Along R pc [] := by
  intro i x e
  cases e

/-- The first entry is in the relation with the first position. -/
theorem Along.head (h : Along R pc (x :: xs)) : R pc x := h 0 x rfl

/-- The others are so from the next position on. -/
theorem Along.tail (h : Along R pc (x :: xs)) : Along R (pc + 1) xs := by
  intro i y e
  have := h (i + 1) y (by simpa using e)
  rwa [Nat.add_assoc, Nat.add_comm 1 i]

/-- The entries of a first part are in the relation from the same position on. -/
theorem Along.left (h : Along R pc (xs ++ ys)) : Along R pc xs := by
  intro i y e
  apply h i y
  rw [List.getElem?_append_left (List.getElem?_eq_some_iff.1 e).1, e]

/-- Those of a second part are so behind the first one. -/
theorem Along.right {pc' : Nat} (h : Along R pc (xs ++ ys)) (e : pc' = pc + xs.length) :
    Along R pc' ys := by
  intro i y ei
  subst e
  rw [Nat.add_assoc]
  apply h
  rw [List.getElem?_append_right (by omega), Nat.add_sub_cancel_left, ei]

theorem Along.cons (h : R pc x) (h' : Along R (pc + 1) xs) : Along R pc (x :: xs) := by
  intro i y e
  cases i with
  | zero =>
    cases e
    exact h
  | succ i =>
    have := h' i y (by simpa using e)
    rwa [Nat.add_assoc, Nat.add_comm 1 i] at this

/-- Two parts in a row are in the relation as one list. -/
theorem Along.append {pc' : Nat} (h : Along R pc xs) (e : pc' = pc + xs.length)
    (h' : Along R pc' ys) : Along R pc (xs ++ ys) := by
  intro i y ei
  by_cases less : i < xs.length
  · rw [List.getElem?_append_left less] at ei
    exact h i y ei
  · rw [List.getElem?_append_right (by omega)] at ei
    have := h' (i - xs.length) y ei
    rwa [e, Nat.add_assoc, Nat.add_sub_of_le (by omega)] at this

end Along

namespace Program

variable {p : Program} {pc : Nat}

/-- The instructions `is` stand in the program from the position `pc` on. -/
def HasCode (p : Program) (pc : Nat) (is : List Instr) : Prop :=
  Along (fun pc instr => p.get? pc = some instr) pc is

/-! ## Runs -/

/-- The program leads from a position and a machine to others. -/
def Leads (p : Program) (pc : Nat) (m : Machine) (pc' : Nat) (m' : Machine) : Prop :=
  ∀ k, ∃ n, p.advance n ⟨pc, k, m⟩ = .inl ⟨pc', k + n, m'⟩

/-- The program fails on the way from a position and a machine. -/
def Fails (p : Program) (pc : Nat) (m : Machine) (fault : Fault) (m' : Machine) : Prop :=
  ∀ k, ∃ n j, p.advance n ⟨pc, k, m⟩ = .inr ⟨.error fault, j, m'⟩

/-- From a position and a machine, the program ends after at most `n` steps. -/
def EndsIn (p : Program) (n pc : Nat) (m : Machine) (r : Except Fault Unit) (m' : Machine) : Prop :=
  ∃ k j, p.advance n ⟨pc, k, m⟩ = .inr ⟨r, j, m'⟩

/-- How the run of a program that is never cancelled ends, and the machine that it leaves. -/
def Ends (p : Program) (m : Machine) (r : Except Fault Unit) (m' : Machine) : Prop :=
  ∃ n j, p.advance n m.begin = .inr ⟨r, j, m'⟩

/-- A program leads from every position to itself. -/
theorem Leads.refl (p : Program) (pc : Nat) (m : Machine) : p.Leads pc m pc m :=
  fun _ => ⟨0, rfl⟩

/-- Ways of a program that follow one another are one way. -/
theorem Leads.trans {pc₁ pc₂ pc₃ : Nat} {m₁ m₂ m₃ : Machine} (h : p.Leads pc₁ m₁ pc₂ m₂)
    (h' : p.Leads pc₂ m₂ pc₃ m₃) : p.Leads pc₁ m₁ pc₃ m₃ := by
  intro k
  obtain ⟨a, ha⟩ := h k
  obtain ⟨b, hb⟩ := h' (k + a)
  exact ⟨a + b, by rw [advance_add, ha]; simp only [hb, Nat.add_assoc]⟩

/-- A failure behind a way is a failure on it. -/
theorem Leads.fails {pc₁ pc₂ : Nat} {m₁ m₂ m₃ : Machine} {fault : Fault}
    (h : p.Leads pc₁ m₁ pc₂ m₂) (h' : p.Fails pc₂ m₂ fault m₃) : p.Fails pc₁ m₁ fault m₃ := by
  intro k
  obtain ⟨a, ha⟩ := h k
  obtain ⟨b, j, hb⟩ := h' (k + a)
  exact ⟨a + b, j, by rw [advance_add, ha]; exact hb⟩

/-- One instruction that succeeds. -/
theorem leads_of_step {instr : Instr} {pc' : Nat} {m m' : Machine} (h : p.get? pc = some instr)
    (e : (Action.step pc instr).runOn m = (.ok pc', m')) : p.Leads pc m pc' m' :=
  fun k => ⟨1, by simp only [advance, step, h, e]⟩

/-- One instruction that fails. -/
theorem fails_of_step {instr : Instr} {fault : Fault} {m m' : Machine} (h : p.get? pc = some instr)
    (e : (Action.step pc instr).runOn m = (.error fault, m')) : p.Fails pc m fault m' :=
  fun k => ⟨1, k, by simp only [advance, step, h, e]⟩

/-- A run that ends makes the step of its next instruction, and ends earlier behind it. -/
theorem EndsIn.step {n : Nat} {instr : Instr} {m m' : Machine} {r : Except Fault Unit}
    (h : p.EndsIn n pc m r m') (e : p.get? pc = some instr) :
    (∃ n' pc' m₁, n = n' + 1 ∧ (Action.step pc instr).runOn m = (.ok pc', m₁) ∧
        p.EndsIn n' pc' m₁ r m') ∨
      ∃ fault, (Action.step pc instr).runOn m = (.error fault, m') ∧ r = .error fault := by
  obtain ⟨k, j, h⟩ := h
  cases n with
  | zero => simp [advance] at h
  | succ n =>
    simp only [advance, Program.step, e] at h
    rcases es : (Action.step pc instr).runOn m with ⟨r₁, m₁⟩
    cases r₁ with
    | ok pc' =>
      simp only [es] at h
      exact .inl ⟨n, pc', m₁, rfl, rfl, k + 1, j, h⟩
    | error fault =>
      simp only [es, Sum.inr.injEq, Outcome.mk.injEq] at h
      exact .inr ⟨fault, by rw [h.2.2], h.1.symm⟩

end Program

/-! ## Code of activities -/

/-- The instruction at the head of a loop.  It goes to `dest` where no further pass is made. -/
def Guard.instr : Guard → Nat → Instr
  | holds test, dest => .jumpIfFalse test dest
  | visit target, dest => .iterNext target dest

namespace Activity

/-- The code of a piece of a program that starts at the position `pc`.  That of a loop starts at its
head. -/
def code (loop : Option LoopFrame) (pc : Nat) : Activity → List Instr
  | one s => s.code loop pc
  | all ss => Stmt.codes loop pc ss
  | .loop guard body orelse =>
    let otherwise := pc + 2 + Stmt.codeSizes (some guard.kind) body
    let exit := otherwise + Stmt.codeSizes (loop.map LoopFrame.kind) orelse
    guard.instr otherwise :: Stmt.codes (some ⟨guard.kind, pc, exit⟩) (pc + 1) body ++
      .jump pc :: Stmt.codes loop otherwise orelse

/-- Number of instructions in the code of a piece of a program. -/
def codeSize (loop : Option LoopKind) : Activity → Nat
  | one s => s.codeSize loop
  | all ss => Stmt.codeSizes loop ss
  | .loop guard body orelse =>
    2 + Stmt.codeSizes (some guard.kind) body + Stmt.codeSizes loop orelse

/-- The first stray `break` or `continue` of a piece of a program. -/
def stray? (inLoop : Bool) : Activity → Option Fault
  | one s => s.stray? inLoop
  | all ss => Stmt.strayIn? inLoop ss
  | loop _ body orelse => (Stmt.strayIn? true body).or (Stmt.strayIn? inLoop orelse)

/-- The code of a piece without stray statements stands in a program, from the position `pc` up to
`stop`. -/
structure Placed (p : Program) (loop : Option LoopFrame) (pc stop : Nat) (a : Activity) : Prop where
  code : p.HasCode pc (a.code loop pc)
  stop_eq : stop = pc + a.codeSize (loop.map LoopFrame.kind)
  notStray : a.stray? loop.isSome = none

end Activity

/-! ## Steps -/

namespace Action

/-- The head of a loop goes into a pass or to the `else` part, as the guard says. -/
theorem step_guard (guard : Guard) (pc dest : Nat) :
    step pc (guard.instr dest) = guard.check >>= fun b => pure (if b then pc + 1 else dest) := by
  cases guard with
  | holds test => simp [Guard.instr, Guard.check, step]
  | visit target =>
    simp only [Guard.instr, Guard.check, step, bind_assoc]
    congr 1
    funext item
    cases item <;> simp

/-- The first instruction of a `for` begins its items. -/
theorem step_iterInit (pc : Nat) (e : Expr) :
    step pc (.iterInit e) = beginItems e >>= fun _ => pure (pc + 1) := by
  simp [step, beginItems]

/-- A statement without parts has one instruction with its effect, or neither. -/
theorem step_effect {s : Stmt} (plain : s.isControl = false) (loop : Option LoopFrame) (pc : Nat) :
    (s.code loop pc = [] ∧ s.effect = pure ()) ∨
      ∃ instr, s.code loop pc = [instr] ∧
        ∀ pc', step pc' instr = s.effect >>= fun _ => pure (pc' + 1) := by
  cases s with
  | branch | whileLoop | breakLoop | continueLoop => cases plain
  | pass => exact .inl ⟨by simp [Stmt.code], rfl⟩
  | annAssign span target typeHint value =>
    cases value with
    | none => exact .inl ⟨by simp [Stmt.code], rfl⟩
    | some value =>
      refine .inr ⟨.assign [target] value, by simp [Stmt.code], fun pc' => ?_⟩
      simp [step, Stmt.effect]
  | forLoop span isAsync =>
    cases isAsync with
    | false => cases plain
    | true =>
      refine .inr ⟨_, by simp only [Stmt.code]; rfl, fun pc' => ?_⟩
      simp [step, Stmt.effect, fail]
  | assert span test message =>
    refine .inr ⟨.assert span test message, by simp only [Stmt.code], fun pc' => ?_⟩
    cases message <;> simp only [step, Stmt.effect, bind_assoc] <;> congr 1 <;> funext v <;>
      split <;> simp [fail]
  | _ =>
    refine .inr ⟨_, by simp only [Stmt.code]; rfl, fun pc' => ?_⟩
    simp [step, Stmt.effect, fail]

end Action

namespace Program

variable {p : Program} {pc dest : Nat} {m m' : Machine} {guard : Guard} {s : Stmt}

/-- The head of a loop, where the guard gives an answer. -/
theorem leads_of_check {b : Bool} (h : p.get? pc = some (guard.instr dest))
    (e : guard.check.runOn m = (.ok b, m')) :
    p.Leads pc m (if b then pc + 1 else dest) m' :=
  leads_of_step h (by rw [Action.step_guard, Action.runOn_bind_ok e, Action.runOn_pure])

/-- The head of a loop, where the guard fails. -/
theorem fails_of_check {fault : Fault} (h : p.get? pc = some (guard.instr dest))
    (e : guard.check.runOn m = (.error fault, m')) : p.Fails pc m fault m' :=
  fails_of_step h (by rw [Action.step_guard, Action.runOn_bind_error e])

/-- A jump leaves the machine as it is. -/
theorem leads_of_jump (h : p.get? pc = some (.jump dest)) (m : Machine) : p.Leads pc m dest m :=
  leads_of_step h rfl

/-- A statement without parts leads behind its code. -/
theorem leads_of_effect {loop : Option LoopFrame} (plain : s.isControl = false)
    (code : p.HasCode pc (s.code loop pc)) (e : s.effect.runOn m = (.ok (), m')) :
    p.Leads pc m (pc + (s.code loop pc).length) m' := by
  rcases Action.step_effect plain loop pc with ⟨empty, nothing⟩ | ⟨instr, single, steps⟩
  · rw [nothing, Action.runOn_pure, Prod.mk.injEq] at e
    rw [empty, ← e.2]
    exact Leads.refl p pc m
  · rw [single] at code ⊢
    exact leads_of_step code.head (by rw [steps, Action.runOn_bind_ok e, Action.runOn_pure]; rfl)

/-- A statement without parts that fails has an instruction that fails. -/
theorem fails_of_effect {loop : Option LoopFrame} {fault : Fault} (plain : s.isControl = false)
    (code : p.HasCode pc (s.code loop pc)) (e : s.effect.runOn m = (.error fault, m')) :
    p.Fails pc m fault m' := by
  rcases Action.step_effect plain loop pc with ⟨-, nothing⟩ | ⟨instr, single, steps⟩
  · rw [nothing, Action.runOn_pure] at e
    cases e
  · rw [single] at code
    exact fails_of_step code.head (by rw [steps, Action.runOn_bind_error e])

end Program

/-! ## Parts of code -/

namespace Activity.Placed

variable {p : Program} {frame? : Option LoopFrame} {pc stop : Nat} {span : Span}
  {test target : Expr} {body orelse : List Stmt}

/-- The code of no statements ends where it begins. -/
theorem nil (h : Placed p frame? pc stop (.all [])) : stop = pc := h.stop_eq

/-- The code of a sequence is that of its first statement and that of the others. -/
theorem cons {s : Stmt} {rest : List Stmt} (h : Placed p frame? pc stop (.all (s :: rest))) :
    ∃ mid, Placed p frame? pc mid (.one s) ∧ Placed p frame? mid stop (.all rest) := by
  obtain ⟨code, stop_eq, notStray⟩ := h
  simp only [Activity.code, Stmt.codes] at code
  simp only [codeSize, Stmt.codeSizes] at stop_eq
  simp only [stray?, Stmt.strayIn?, Option.or_eq_none_iff] at notStray
  have rest_code := code.right (congrArg (pc + ·) (Stmt.length_code frame? pc s).symm)
  exact ⟨_, ⟨code.left, rfl, notStray.1⟩, rest_code, by simp only [codeSize]; omega, notStray.2⟩

/-- The code of an `if` tests, goes on with one of its parts, and ends behind either. -/
theorem branch (h : Placed p frame? pc stop (.one (.branch span test body orelse))) :
    ∃ otherwise mid, p.get? pc = some ((Guard.holds test).instr otherwise) ∧
      Placed p frame? (pc + 1) mid (.all body) ∧ Placed p frame? otherwise stop (.all orelse) ∧
      (mid = stop ∨ p.get? mid = some (.jump stop)) := by
  obtain ⟨code, stop_eq, notStray⟩ := h
  simp only [stray?, Stmt.stray?, Option.or_eq_none_iff] at notStray
  have len := Stmt.length_codes frame? (pc + 1) body
  cases orelse with
  | nil =>
    simp only [Activity.code, Stmt.code] at code
    simp only [codeSize, Stmt.codeSize] at stop_eq
    refine ⟨_, _, code.head, ⟨code.tail, rfl, notStray.1⟩, ⟨?_, ?_, notStray.2⟩, .inl ?_⟩
    · intro i instr e
      simp [Activity.code, Stmt.codes] at e
    · simp only [codeSize, Stmt.codeSizes]
      omega
    · simp only [codeSize]
      omega
  | cons s rest =>
    simp only [Activity.code, Stmt.code, List.cons_append] at code
    simp only [codeSize, Stmt.codeSize] at stop_eq
    have behind : p.HasCode (pc + 1 + Stmt.codeSizes (frame?.map LoopFrame.kind) body) _ :=
      code.tail.right (by rw [len])
    have otherwise_eq : pc + 1 + Stmt.codeSizes (frame?.map LoopFrame.kind) body + 1 =
      pc + 2 + Stmt.codeSizes (frame?.map LoopFrame.kind) body := by omega
    refine ⟨_, _, code.head, ⟨code.tail.left, rfl, notStray.1⟩,
      ⟨otherwise_eq ▸ behind.tail, ?_, notStray.2⟩, .inr ?_⟩
    · simp only [codeSize]
      omega
    · rw [codeSize, behind.head]
      congr 2
      omega

/-- The code of a loop asks its guard, runs its body and goes back, and ends with its `else`
part. -/
theorem loop {guard : Guard} (h : Placed p frame? pc stop (.loop guard body orelse)) :
    ∃ otherwise mid, p.get? pc = some (guard.instr otherwise) ∧
      Placed p (some ⟨guard.kind, pc, stop⟩) (pc + 1) mid (.all body) ∧
      p.get? mid = some (.jump pc) ∧ Placed p frame? otherwise stop (.all orelse) := by
  obtain ⟨code, stop_eq, notStray⟩ := h
  simp only [stray?, Option.or_eq_none_iff] at notStray
  simp only [Activity.code, List.cons_append] at code
  simp only [codeSize] at stop_eq
  have exit_eq : pc + 2 + Stmt.codeSizes (some guard.kind) body +
      Stmt.codeSizes (frame?.map LoopFrame.kind) orelse = stop := by omega
  rw [exit_eq] at code
  have behind : p.HasCode (pc + 1 + Stmt.codeSizes (some guard.kind) body) _ :=
    code.tail.right (by rw [Stmt.length_codes]; rfl)
  have otherwise_eq : pc + 1 + Stmt.codeSizes (some guard.kind) body + 1 =
    pc + 2 + Stmt.codeSizes (some guard.kind) body := by omega
  exact ⟨_, _, code.head, ⟨code.tail.left, rfl, notStray.1⟩, behind.head,
    otherwise_eq ▸ behind.tail, by simp only [codeSize]; omega, notStray.2⟩

/-- The code of a `while` is that of a loop on its condition. -/
theorem whileLoop (h : Placed p frame? pc stop (.one (.whileLoop span test body orelse))) :
    Placed p frame? pc stop (.loop (.holds test) body orelse) := by
  obtain ⟨code, stop_eq, notStray⟩ := h
  simp only [Activity.code, Stmt.code] at code
  simp only [codeSize, Stmt.codeSize] at stop_eq
  exact ⟨code, stop_eq, notStray⟩

/-- The code of a `for` begins its items, and goes on as a loop. -/
theorem forLoop {iter : Expr}
    (h : Placed p frame? pc stop (.one (.forLoop span false target iter body orelse))) :
    p.get? pc = some (.iterInit iter) ∧
      Placed p frame? (pc + 1) stop (.loop (.visit target) body orelse) := by
  obtain ⟨code, stop_eq, notStray⟩ := h
  simp only [Activity.code, Stmt.code, List.cons_append] at code
  simp only [codeSize, Stmt.codeSize] at stop_eq
  have otherwise_eq : pc + 3 + Stmt.codeSizes (some LoopKind.items) body =
    pc + 1 + 2 + Stmt.codeSizes (some LoopKind.items) body := by omega
  rw [otherwise_eq] at code
  exact ⟨code.head, code.tail, by simp only [codeSize, Guard.kind]; omega, notStray⟩

/-- A `break` stands in a loop.  In one over items its code drops the cursor, and then it goes to
the end of the loop. -/
theorem breakLoop (h : Placed p frame? pc stop (.one (.breakLoop span))) :
    ∃ frame, frame? = some frame ∧
      (frame.kind = .condition ∧ p.get? pc = some (.jump frame.exit) ∨
        frame.kind = .items ∧ p.get? pc = some .iterPop ∧
          p.get? (pc + 1) = some (.jump frame.exit)) := by
  obtain ⟨code, -, notStray⟩ := h
  cases frame? with
  | none => simp [stray?, Stmt.stray?] at notStray
  | some frame =>
    obtain ⟨kind, head, exit⟩ := frame
    cases kind with
    | condition =>
      simp only [Activity.code, Stmt.code, Stmt.breakCode] at code
      exact ⟨_, rfl, .inl ⟨rfl, code.head⟩⟩
    | items =>
      simp only [Activity.code, Stmt.code, Stmt.breakCode] at code
      exact ⟨_, rfl, .inr ⟨rfl, code.head, code.tail.head⟩⟩

/-- A `continue` stands in a loop, and goes to its head. -/
theorem continueLoop (h : Placed p frame? pc stop (.one (.continueLoop span))) :
    ∃ frame, frame? = some frame ∧ p.get? pc = some (.jump frame.head) := by
  obtain ⟨code, -, notStray⟩ := h
  cases frame? with
  | none => simp [stray?, Stmt.stray?] at notStray
  | some frame =>
    simp only [Activity.code, Stmt.code, Stmt.continueCode] at code
    exact ⟨_, rfl, code.head⟩

end Activity.Placed

/-! ## From statements to the program -/

namespace Program

variable {p : Program} {frame? : Option LoopFrame} {pc pc' stop stop' : Nat} {m m₁ m' : Machine}
  {q : Passage} {fault : Fault}

/-- The program gets from `pc` to where control goes by `q`: to `stop`, or in the loop around. -/
def Arrives (p : Program) (frame? : Option LoopFrame) (pc : Nat) (m : Machine) (stop : Nat) :
    Passage → Machine → Prop
  | .next, m' => p.Leads pc m stop m'
  | .leave, m' => ∃ frame, frame? = some frame ∧ p.Leads pc m frame.exit (frame.kind.leave m')
  | .again, m' => ∃ frame, frame? = some frame ∧ p.Leads pc m frame.head m'
  | .failed fault, m' => p.Fails pc m fault m'

/-- Arriving from a position that the program leads to. -/
theorem Leads.arrives (h : p.Leads pc m pc' m₁) (h' : p.Arrives frame? pc' m₁ stop q m') :
    p.Arrives frame? pc m stop q m' := by
  cases q with
  | next => exact h.trans h'
  | leave =>
    obtain ⟨frame, e, h'⟩ := h'
    exact ⟨frame, e, h.trans h'⟩
  | again =>
    obtain ⟨frame, e, h'⟩ := h'
    exact ⟨frame, e, h.trans h'⟩
  | failed fault => exact h.fails h'

/-- What does not go to `stop` arrives whatever `stop` is. -/
theorem Arrives.elsewhere (away : q ≠ .next) (h : p.Arrives frame? pc m stop q m') :
    p.Arrives frame? pc m stop' q m' := by
  cases q with
  | next => exact absurd rfl away
  | leave | again | failed => exact h

/-- From its end, a piece of code may go on by a jump. -/
theorem Arrives.onward (h : p.Arrives frame? pc m stop q m')
    (jump : stop = stop' ∨ p.get? stop = some (.jump stop')) :
    p.Arrives frame? pc m stop' q m' := by
  cases q with
  | next =>
    rcases jump with rfl | jump
    · exact h
    · exact Leads.trans h (leads_of_jump jump m')
  | leave | again | failed => exact h

end Program

namespace Activity

open Program

/-- What runs structurally is what its code does. -/
theorem Runs.arrives {p : Program} {a : Activity} {m m' : Machine} {q : Passage}
    (h : Runs a m q m') : ∀ {frame? : Option LoopFrame} {pc stop : Nat},
      Placed p frame? pc stop a → p.Arrives frame? pc m stop q m' := by
  -- induction on the run; each rule leads through the code of its parts in turn
  induction h with
  | effect plain done =>
    intro frame? pc stop placed
    have leads := leads_of_effect plain placed.code done
    rw [Stmt.length_code] at leads
    rw [placed.stop_eq]
    exact leads
  | effectFails plain fails =>
    intro frame? pc stop placed
    exact fails_of_effect plain placed.code fails
  | @breakLoop span m =>
    intro frame? pc stop placed
    obtain ⟨frame, e, ⟨kind, jump⟩ | ⟨kind, pop, jump⟩⟩ := placed.breakLoop
    · exact ⟨frame, e, by rw [kind]; exact leads_of_jump jump m⟩
    · refine ⟨frame, e, ?_⟩
      rw [kind]
      exact (leads_of_step pop rfl).trans (leads_of_jump jump _)
  | @continueLoop span m =>
    intro frame? pc stop placed
    obtain ⟨frame, e, jump⟩ := placed.continueLoop
    exact ⟨frame, e, leads_of_jump jump m⟩
  | @branch span test body orelse m m₁ m' b q tested part ih =>
    intro frame? pc stop placed
    obtain ⟨otherwise, mid, head, inner, outer, jump⟩ := placed.branch
    have first := leads_of_check head tested
    cases b with
    | true => exact first.arrives ((ih inner).onward jump)
    | false => exact first.arrives (ih outer)
  | branchFails fails =>
    intro frame? pc stop placed
    obtain ⟨otherwise, mid, head, -⟩ := placed.branch
    exact fails_of_check head fails
  | whileLoop passes ih =>
    intro frame? pc stop placed
    exact ih placed.whileLoop
  | forLoop begun passes ih =>
    intro frame? pc stop placed
    obtain ⟨head, inner⟩ := placed.forLoop
    refine Leads.arrives (leads_of_step head ?_) (ih inner)
    rw [Action.step_iterInit, Action.runOn_bind_ok begun, Action.runOn_pure]
  | forFails fails =>
    intro frame? pc stop placed
    obtain ⟨head, -⟩ := placed.forLoop
    exact fails_of_step head (by rw [Action.step_iterInit, Action.runOn_bind_error fails])
  | @nil m =>
    intro frame? pc stop placed
    rw [placed.nil]
    exact Leads.refl p pc m
  | cons first others ih₁ ih₂ =>
    intro frame? pc stop placed
    obtain ⟨mid, one, all⟩ := placed.cons
    exact Leads.arrives (ih₁ one) (ih₂ all)
  | stop away first ih =>
    intro frame? pc stop placed
    obtain ⟨mid, one, all⟩ := placed.cons
    exact (ih one).elsewhere away
  | @pass guard body orelse m m₁ m₂ m' q r asked ended inner others ih₁ ih₂ =>
    intro frame? pc stop placed
    obtain ⟨otherwise, mid, head, bodyPlaced, back, -⟩ := placed.loop
    have first := leads_of_check head asked
    have second : p.Leads (pc + 1) m₁ pc m₂ := by
      rcases ended with rfl | rfl
      · exact Leads.trans (ih₁ bodyPlaced) (leads_of_jump back m₂)
      · obtain ⟨frame, e, h⟩ := ih₁ bodyPlaced
        cases e
        exact h
    exact (first.trans second).arrives (ih₂ placed)
  | left asked inner ih =>
    intro frame? pc stop placed
    obtain ⟨otherwise, mid, head, bodyPlaced, -⟩ := placed.loop
    obtain ⟨frame, e, h⟩ := ih bodyPlaced
    cases e
    exact (leads_of_check head asked).trans h
  | passFails asked inner ih =>
    intro frame? pc stop placed
    obtain ⟨otherwise, mid, head, bodyPlaced, -⟩ := placed.loop
    exact (leads_of_check head asked).fails (ih bodyPlaced)
  | orelse asked part ih =>
    intro frame? pc stop placed
    obtain ⟨otherwise, mid, head, -, -, elsePlaced⟩ := placed.loop
    exact (leads_of_check head asked).arrives (ih elsePlaced)
  | guardFails fails =>
    intro frame? pc stop placed
    obtain ⟨otherwise, mid, head, -⟩ := placed.loop
    exact fails_of_check head fails

end Activity

/-! ## From the program to statements -/

namespace Program

variable {p : Program} {frame? : Option LoopFrame} {n n' pc pc' dest stop stop' : Nat}
  {m m₁ m' : Machine} {r : Except Fault Unit} {guard : Guard} {q : Passage}

/-- A run that ends makes the step of its next instruction, and ends sooner behind it. -/
theorem EndsIn.action {α : Type} {instr : Instr} {a : Action α} {f : α → Nat}
    (h : p.EndsIn n pc m r m') (e : p.get? pc = some instr)
    (steps : Action.step pc instr = a >>= fun x => pure (f x)) :
    (∃ n' x m₁, n' < n ∧ a.runOn m = (.ok x, m₁) ∧ p.EndsIn n' (f x) m₁ r m') ∨
      ∃ fault, a.runOn m = (.error fault, m') ∧ r = .error fault := by
  rcases ran : a.runOn m with ⟨x | x, m₁⟩
  · have step := Action.runOn_bind_error (f := fun x => pure (f x)) ran
    rw [← steps] at step
    rcases h.step e with ⟨n', pc', m₂, -, e', -⟩ | ⟨fault, e', rfl⟩
    · rw [step] at e'
      cases e'
    · rw [step] at e'
      cases e'
      exact .inr ⟨x, rfl, rfl⟩
  · have step := Action.runOn_bind_ok (f := fun x => pure (f x)) ran
    rw [← steps, Action.runOn_pure] at step
    rcases h.step e with ⟨n', pc', m₂, rfl, e', behind⟩ | ⟨fault, e', -⟩
    · rw [step] at e'
      cases e'
      exact .inl ⟨n', x, m₁, by omega, rfl, behind⟩
    · rw [step] at e'
      cases e'

/-- A jump is made in one step of a run that ends. -/
theorem EndsIn.jump (h : p.EndsIn n pc m r m') (e : p.get? pc = some (.jump dest)) :
    ∃ n', n' < n ∧ p.EndsIn n' dest m r m' := by
  rcases h.action (a := pure ()) (f := fun _ => dest) e rfl with ⟨n', x, m₁, less, ran, behind⟩ | ⟨fault, ran, -⟩
  · cases ran
    exact ⟨n', less, behind⟩
  · cases ran

/-- After control has gone by `q`, the program ends as it would have, and no later. -/
def Proceeds (p : Program) (n : Nat) (frame? : Option LoopFrame) (stop : Nat)
    (r : Except Fault Unit) (m' : Machine) : Passage → Machine → Prop
  | .next, m => ∃ n', n' ≤ n ∧ p.EndsIn n' stop m r m'
  | .leave, m => ∃ frame, frame? = some frame ∧
      ∃ n', n' ≤ n ∧ p.EndsIn n' frame.exit (frame.kind.leave m) r m'
  | .again, m => ∃ frame, frame? = some frame ∧ ∃ n', n' ≤ n ∧ p.EndsIn n' frame.head m r m'
  | .failed fault, m => r = .error fault ∧ m' = m

/-- What proceeds in some steps proceeds in more. -/
theorem Proceeds.mono (h : p.Proceeds n frame? stop r m' q m) (le : n ≤ n') :
    p.Proceeds n' frame? stop r m' q m := by
  cases q with
  | next =>
    obtain ⟨k, hk, h⟩ := h
    exact ⟨k, by omega, h⟩
  | leave | again =>
    obtain ⟨frame, e, k, hk, h⟩ := h
    exact ⟨frame, e, k, by omega, h⟩
  | failed fault => exact h

/-- What does not go to `stop` proceeds whatever `stop` is. -/
theorem Proceeds.elsewhere (h : p.Proceeds n frame? stop r m' q m) (away : q ≠ .next) :
    p.Proceeds n frame? stop' r m' q m := by
  cases q with
  | next => exact absurd rfl away
  | leave | again | failed => exact h

/-- From its end, a piece of code may go on by a jump. -/
theorem Proceeds.onward (h : p.Proceeds n frame? stop r m' q m)
    (jump : stop = stop' ∨ p.get? stop = some (.jump stop')) :
    p.Proceeds n frame? stop' r m' q m := by
  cases q with
  | next =>
    rcases jump with rfl | jump
    · exact h
    · obtain ⟨k, hk, h⟩ := h
      obtain ⟨j, hj, h⟩ := h.jump jump
      exact ⟨j, by omega, h⟩
  | leave | again | failed => exact h

end Program

namespace Activity

open Program

variable {p : Program} {frame? : Option LoopFrame} {n pc stop : Nat} {m m' : Machine}
  {r : Except Fault Unit}

/-- A statement without parts has run before its code ends. -/
theorem runs_effect_of_endsIn {s : Stmt} (plain : s.isControl = false)
    (placed : Placed p frame? pc stop (.one s)) (ends : p.EndsIn n pc m r m') :
    ∃ q m₁, Runs (.one s) m q m₁ ∧ p.Proceeds n frame? stop r m' q m₁ := by
  obtain ⟨code, stop_eq, -⟩ := placed
  have len := Stmt.length_code frame? pc s
  simp only [Activity.code, codeSize] at code stop_eq
  rcases Action.step_effect plain frame? pc with ⟨empty, nothing⟩ | ⟨instr, single, steps⟩
  · refine ⟨.next, m, .effect plain (by rw [nothing, Action.runOn_pure]), n, Nat.le_refl n, ?_⟩
    rw [empty, List.length_nil] at len
    rwa [stop_eq, ← len]
  · rw [single] at code len
    rcases ends.action code.head (steps pc) with ⟨n', x, m₁, less, ran, behind⟩ | ⟨fault, ran, rfl⟩
    · refine ⟨.next, m₁, .effect plain ran, n', by omega, ?_⟩
      rwa [stop_eq, ← len]
    · exact ⟨.failed fault, m', .effectFails plain ran, rfl, rfl⟩

/-- What ends as code has run structurally before.  The measure is the number of steps that are
left, and at the same number of steps the size of the piece. -/
theorem runs_of_endsIn (n : Nat) (a : Activity) {frame? : Option LoopFrame} {pc stop : Nat}
    {m m' : Machine} {r : Except Fault Unit} (placed : Placed p frame? pc stop a)
    (ends : p.EndsIn n pc m r m') :
    ∃ q m₁, Runs a m q m₁ ∧ p.Proceeds n frame? stop r m' q m₁ := by
  match a with
  | .all [] =>
    -- No statement is no code, so no step is taken either.
    exact ⟨.next, m, .nil, n, Nat.le_refl n, by rwa [placed.nil]⟩
  | .all (s :: rest) =>
    obtain ⟨mid, one, all⟩ := placed.cons
    obtain ⟨q, m₁, run, proceeds⟩ := runs_of_endsIn n (.one s) one ends
    by_cases next : q = .next
    · subst next
      obtain ⟨n', le, behind⟩ := proceeds
      obtain ⟨q, m₂, run', proceeds⟩ := runs_of_endsIn n' (.all rest) all behind
      exact ⟨q, m₂, .cons run run', proceeds.mono le⟩
    · exact ⟨q, m₁, .stop next run, proceeds.elsewhere next⟩
  | .loop guard body orelse =>
    obtain ⟨otherwise, mid, head, bodyPlaced, back, elsePlaced⟩ := placed.loop
    rcases ends.action head (Action.step_guard guard pc otherwise) with
      ⟨n₁, b, m₁, less, asked, behind⟩ | ⟨fault, asked, rfl⟩
    · cases b with
      | false =>
        obtain ⟨q, m₂, run, proceeds⟩ := runs_of_endsIn n₁ (.all orelse) elsePlaced behind
        exact ⟨q, m₂, .orelse asked run, proceeds.mono (by omega)⟩
      | true =>
        obtain ⟨q, m₂, run, proceeds⟩ := runs_of_endsIn n₁ (.all body) bodyPlaced behind
        -- a pass that is followed by another one has used up at least the step of the guard
        have another {n₂ : Nat} (le : n₂ ≤ n₁) (ended : q = .next ∨ q = .again)
            (behind : p.EndsIn n₂ pc m₂ r m') : ∃ q m₃, Runs (.loop guard body orelse) m q m₃ ∧
              p.Proceeds n frame? stop r m' q m₃ := by
          obtain ⟨q', m₃, run', proceeds⟩ := runs_of_endsIn n₂ (.loop guard body orelse) placed behind
          exact ⟨q', m₃, .pass asked ended run run', proceeds.mono (by omega)⟩
        cases q with
        | next =>
          obtain ⟨n₂, le, behind⟩ := proceeds
          obtain ⟨n₃, less', behind⟩ := behind.jump back
          exact another (by omega) (.inl rfl) behind
        | again =>
          obtain ⟨frame, e, n₂, le, behind⟩ := proceeds
          cases e
          exact another le (.inr rfl) behind
        | leave =>
          obtain ⟨frame, e, n₂, le, behind⟩ := proceeds
          cases e
          exact ⟨.next, _, .left asked run, n₂, by omega, behind⟩
        | failed fault => exact ⟨.failed fault, m₂, .passFails asked run, proceeds⟩
    · exact ⟨.failed fault, m', .guardFails asked, rfl, rfl⟩
  | .one s =>
    by_cases plain : s.isControl = false
    · exact runs_effect_of_endsIn plain placed ends
    match s with
    | .branch span test body orelse =>
      obtain ⟨otherwise, mid, head, inner, outer, jump⟩ := placed.branch
      rcases ends.action head (Action.step_guard (.holds test) pc otherwise) with
        ⟨n₁, b, m₁, less, tested, behind⟩ | ⟨fault, tested, rfl⟩
      · cases b with
        | true =>
          obtain ⟨q, m₂, run, proceeds⟩ := runs_of_endsIn n₁ (.all body) inner behind
          exact ⟨q, m₂, .branch tested run, (proceeds.onward jump).mono (by omega)⟩
        | false =>
          obtain ⟨q, m₂, run, proceeds⟩ := runs_of_endsIn n₁ (.all orelse) outer behind
          exact ⟨q, m₂, .branch tested run, proceeds.mono (by omega)⟩
      · exact ⟨.failed fault, m', .branchFails tested, rfl, rfl⟩
    | .whileLoop span test body orelse =>
      have : 0 < sizeOf span := by cases span; simp only [Span.mk.sizeOf_spec]; omega
      obtain ⟨q, m₁, run, proceeds⟩ :=
        runs_of_endsIn n (.loop (.holds test) body orelse) placed.whileLoop ends
      exact ⟨q, m₁, .whileLoop run, proceeds⟩
    | .forLoop span false target iter body orelse =>
      obtain ⟨head, loopPlaced⟩ := placed.forLoop
      rcases ends.action head (Action.step_iterInit pc iter) with
        ⟨n₁, _, m₁, less, begun, behind⟩ | ⟨fault, begun, rfl⟩
      · obtain ⟨q, m₂, run, proceeds⟩ :=
          runs_of_endsIn n₁ (.loop (.visit target) body orelse) loopPlaced behind
        exact ⟨q, m₂, .forLoop begun run, proceeds.mono (by omega)⟩
      · exact ⟨.failed fault, m', .forFails begun, rfl, rfl⟩
    | .breakLoop span =>
      refine ⟨.leave, m, .breakLoop, ?_⟩
      obtain ⟨frame, e, ⟨kind, jump⟩ | ⟨kind, pop, jump⟩⟩ := placed.breakLoop
      · obtain ⟨n₁, less, behind⟩ := ends.jump jump
        exact ⟨frame, e, n₁, by omega, by rwa [kind]⟩
      · rcases ends.action (a := Action.dropCursor) (f := fun _ => pc + 1) pop rfl with
          ⟨n₁, _, m₁, less, dropped, behind⟩ | ⟨fault, dropped, -⟩
        · obtain ⟨n₂, less', behind⟩ := behind.jump jump
          cases dropped
          exact ⟨frame, e, n₂, by omega, by rwa [kind]⟩
        · cases dropped
    | .continueLoop span =>
      obtain ⟨frame, e, jump⟩ := placed.continueLoop
      obtain ⟨n₁, less, behind⟩ := ends.jump jump
      exact ⟨.again, m, .continueLoop, frame, e, n₁, by omega, behind⟩
    | .forLoop _ true .. | .expr .. | .assign .. | .augAssign .. | .annAssign .. | .functionDef ..
    | .classDef .. | .tryBlock .. | .withBlock .. | .returnValue .. | .raise .. | .assert ..
    | .delete .. | .globalNames .. | .importNames .. | .importFrom .. | .pass _ =>
      exact absurd rfl plain
termination_by (n, sizeOf a)
decreasing_by
  all_goals simp_wf
  all_goals omega

end Activity

/-! ## Modules -/

namespace Module

open Program

/-- The program of a module is the code of its statements, none of which is stray. -/
theorem compile_eq {mod : Module} {p : Program} (h : mod.compile = .ok p) :
    p = ⟨(Stmt.codes none 0 mod.body).toArray⟩ ∧ Stmt.strayIn? false mod.body = none := by
  rw [compile_eq_layout] at h
  split at h
  · cases h
  · rename_i notStray
    cases h
    exact ⟨rfl, notStray⟩

/-- The code of a module that compiles is placed from the start of its program to its end. -/
theorem placed_compile {mod : Module} {p : Program} (h : mod.compile = .ok p) :
    Activity.Placed p none 0 p.size (.all mod.body) := by
  obtain ⟨rfl, notStray⟩ := compile_eq h
  refine ⟨?_, ?_, notStray⟩
  · intro i instr e
    simpa [Program.get?, Activity.code] using e
  · simp [Program.size, Activity.codeSize, Stmt.length_codes]

/-- A run that stands at the end of a program is complete. -/
theorem ends_of_leads {p : Program} {m m' : Machine} (h : p.Leads 0 m p.size m') :
    p.Ends m (.ok ()) m' := by
  obtain ⟨n, h⟩ := h 0
  have none : p.get? p.size = none := by simp [Program.get?, Program.size]
  refine ⟨n + 1, 0 + n, ?_⟩
  rw [advance_add, Machine.begin, h]
  simp only [advance, Program.step, none]

/-- The program of a module ends exactly as the structured execution of its statements does, and
leaves the same machine. -/
theorem ends_compile_iff {mod : Module} {p : Program} (h : mod.compile = .ok p) (m m' : Machine)
    (r : Except Fault Unit) : p.Ends m r m' ↔ mod.Executes m r m' := by
  have placed := placed_compile h
  constructor
  · rintro ⟨n, j, ends⟩
    obtain ⟨q, m₁, run, proceeds⟩ := Activity.runs_of_endsIn n _ placed ⟨0, j, ends⟩
    cases q with
    | next =>
      obtain ⟨n', -, k, j', behind⟩ := proceeds
      have none : p.get? p.size = none := by simp [Program.get?, Program.size]
      cases n' with
      | zero => simp [advance] at behind
      | succ n' =>
        simp only [advance, Program.step, none, Sum.inr.injEq, Outcome.mk.injEq] at behind
        rw [← behind.1, ← behind.2.2]
        exact .completes run
    | leave | again =>
      obtain ⟨frame, e, -⟩ := proceeds
      cases e
    | failed fault =>
      obtain ⟨rfl, rfl⟩ := proceeds
      exact .fails run
  · rintro (run | run)
    · exact ends_of_leads (run.arrives placed)
    · obtain ⟨n, j, fails⟩ := run.arrives placed 0
      exact ⟨n, j, fails⟩

/-- A loop that is left from the `else` part of a loop in it. -/
def leftFromElse : Module :=
  ⟨[.whileLoop .none (.constant .none (.bool true))
    [.forLoop .none false (.name .none "i") (.list .none []) [.continueLoop .none]
      [.breakLoop .none]] []]⟩

/-- The jumps of the sample go out of both loops, and the empty inner loop is left at once. -/
theorem ends_compile_iff_leftFromElse :
    leftFromElse.compile = .ok ⟨#[.jumpIfFalse (.constant .none (.bool true)) 7,
        .iterInit (.list .none []), .iterNext (.name .none "i") 5, .jump 2, .jump 2, .jump 7,
        .jump 0]⟩ ∧
      (Program.Ends ⟨#[.jumpIfFalse (.constant .none (.bool true)) 7,
        .iterInit (.list .none []), .iterNext (.name .none "i") 5, .jump 2, .jump 2, .jump 7,
        .jump 0]⟩ .fresh (.ok ()) .fresh ↔ leftFromElse.Executes .fresh (.ok ()) .fresh) :=
  ⟨rfl, ends_compile_iff rfl .fresh .fresh (.ok ())⟩

end Module

/-- A source that parses has the program of its module. -/
theorem Source.compile_of_parse {s : Source} {mod : Module} {p : Program} (h : s.parse = .ok mod)
    (compiled : mod.compile = .ok p) : s.compile = .ok p := by
  unfold compile reportAs
  rw [h]
  show mod.compile.mapError _ = _
  rw [compiled]
  rfl

end BlockEditor
