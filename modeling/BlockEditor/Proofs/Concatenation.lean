import BlockEditor.Proofs.Cancellation
import BlockEditor.Proofs.CursorDepth

/-!
# Programs one behind the other

The program of two modules in a row is the program of the first, with that of the second moved
behind it.  A run of it is a run of the first program; and if that completes, it goes on as a run of
the second one on the machine that the first has left.
-/

namespace BlockEditor

/-! ## Moving code -/

/-- An instruction whose program stands `n` positions further on. -/
def Instr.relocate (n : Nat) : Instr → Instr
  | jumpIfFalse test dest => jumpIfFalse test (dest + n)
  | jump dest => jump (dest + n)
  | iterNext target dest => iterNext target (dest + n)
  | instr => instr

/-- A loop whose program stands `n` positions further on. -/
def LoopFrame.relocate (n : Nat) (frame : LoopFrame) : LoopFrame :=
  ⟨frame.kind, frame.head + n, frame.exit + n⟩

/-- Moving a loop does not change its kind. -/
@[simp] theorem LoopFrame.map_kind_relocate (n : Nat) (loop : Option LoopFrame) :
    (loop.map (relocate n)).map kind = loop.map kind := by
  cases loop <;> rfl

namespace Stmt

mutual

/-- The code of a statement that stands `n` positions further on.  A stray `break` or `continue`
would go to the start of the whole program and not move along. -/
theorem code_relocate (n : Nat) (loop : Option LoopFrame) (pc : Nat) (s : Stmt)
    (notStray : stray? loop.isSome s = none) :
    code (loop.map (.relocate n)) (pc + n) s = (code loop pc s).map (.relocate n) := by
  cases s with
  | branch span test body orelse =>
    rw [stray?, Option.or_eq_none_iff] at notStray
    have part := codes_relocate n loop (pc + 1) body notStray.1
    cases orelse with
    | nil =>
      simp only [code, LoopFrame.map_kind_relocate, Nat.add_right_comm _ n, part, List.map_cons,
        Instr.relocate]
    | cons s rest =>
      have other := codes_relocate n loop (pc + 2 + codeSizes (loop.map LoopFrame.kind) body)
        (s :: rest) notStray.2
      simp only [code, LoopFrame.map_kind_relocate, Nat.add_right_comm _ n, part, other,
        List.map_cons, List.map_append, Instr.relocate]
  | whileLoop span test body orelse =>
    rw [stray?, Option.or_eq_none_iff] at notStray
    have other :=
      codes_relocate n loop (pc + 2 + codeSizes (some .condition) body) orelse notStray.2
    have part := codes_relocate n (some ⟨.condition, pc,
      pc + 2 + codeSizes (some .condition) body + codeSizes (loop.map LoopFrame.kind) orelse⟩)
      (pc + 1) body notStray.1
    simp only [Option.map_some, LoopFrame.relocate] at part
    simp only [code, LoopFrame.map_kind_relocate, Nat.add_right_comm _ n, part, other,
      List.map_cons, List.map_append, Instr.relocate]
  | forLoop span isAsync target iter body orelse =>
    cases isAsync with
    | true => simp only [code, List.map_cons, List.map_nil, Instr.relocate]
    | false =>
      rw [stray?, Option.or_eq_none_iff] at notStray
      have other := codes_relocate n loop (pc + 3 + codeSizes (some .items) body) orelse notStray.2
      have part := codes_relocate n (some ⟨.items, pc + 1,
        pc + 3 + codeSizes (some .items) body + codeSizes (loop.map LoopFrame.kind) orelse⟩)
        (pc + 2) body notStray.1
      simp only [Option.map_some, LoopFrame.relocate] at part
      simp only [code, LoopFrame.map_kind_relocate, Nat.add_right_comm _ n, part, other,
        List.map_cons, List.map_append, Instr.relocate]
  | breakLoop span =>
    cases loop with
    | none => cases notStray
    | some frame =>
      obtain ⟨kind, head, exit⟩ := frame
      cases kind <;> rfl
  | continueLoop span =>
    cases loop with
    | none => cases notStray
    | some frame => rfl
  | annAssign span target typeHint value => cases value <;> rfl
  | _ => rfl

/-- The code of neighbouring statements that stand `n` positions further on. -/
theorem codes_relocate (n : Nat) (loop : Option LoopFrame) (pc : Nat) (ss : List Stmt)
    (notStray : strayIn? loop.isSome ss = none) :
    codes (loop.map (.relocate n)) (pc + n) ss = (codes loop pc ss).map (.relocate n) := by
  cases ss with
  | nil => simp only [codes, List.map_nil]
  | cons s rest =>
    rw [strayIn?, Option.or_eq_none_iff] at notStray
    have first := code_relocate n loop pc s notStray.1
    have others := codes_relocate n loop (pc + codeSize (loop.map LoopFrame.kind) s) rest notStray.2
    simp only [codes, LoopFrame.map_kind_relocate, Nat.add_right_comm _ n, first, others,
      List.map_append]

end

/-! ### Statements in a row -/

/-- The code of statements in a row is the code of the first ones and, behind it, that of the
others. -/
theorem codes_append (loop : Option LoopFrame) (pc : Nat) (ss more : List Stmt) :
    codes loop pc (ss ++ more) =
      codes loop pc ss ++ codes loop (pc + codeSizes (loop.map LoopFrame.kind) ss) more := by
  induction ss generalizing pc with
  | nil => rfl
  | cons s ss ih =>
    rw [List.cons_append, codes, codes, codeSizes, ih, List.append_assoc, Nat.add_assoc]

/-- The first stray statement is one of the first statements, or of those behind them. -/
theorem strayIn?_append (inLoop : Bool) (ss more : List Stmt) :
    strayIn? inLoop (ss ++ more) = (strayIn? inLoop ss).or (strayIn? inLoop more) := by
  induction ss with
  | nil => rfl
  | cons s ss ih => rw [List.cons_append, strayIn?, strayIn?, ih, Option.or_assoc]

end Stmt

/-! ## Programs in a row -/

/-- The statements of one module behind those of another. -/
instance : Append Module := ⟨fun a b => ⟨a.body ++ b.body⟩⟩

/-- One program behind another. -/
instance : Append Program := ⟨fun p q => ⟨p.instrs ++ q.instrs.map (.relocate p.size)⟩⟩

namespace Program

variable {p q : Program} {pc : Nat}

/-- The instructions of the first program stay where they are. -/
theorem get?_append_left (q : Program) (inside : pc < p.size) : (p ++ q).get? pc = p.get? pc :=
  Array.getElem?_append_left inside

/-- The instructions of the second program stand behind the first one. -/
theorem get?_append_right (p q : Program) (pc : Nat) :
    (p ++ q).get? (pc + p.size) = (q.get? pc).map (.relocate p.size) := by
  show (p.instrs ++ q.instrs.map _)[pc + p.instrs.size]? = _
  rw [Array.getElem?_append_right (Nat.le_add_left _ _), Nat.add_sub_cancel, Array.getElem?_map]
  rfl

end Program

/-- Modules in a row are compiled to their programs in a row. -/
theorem Module.compile_append {a b : Module} {p q : Program} (ha : a.compile = .ok p)
    (hb : b.compile = .ok q) : (a ++ b).compile = .ok (p ++ q) := by
  obtain ⟨rfl, notStray⟩ := compile_eq ha
  obtain ⟨rfl, notStray'⟩ := compile_eq hb
  have none_stray : Stmt.strayIn? false (a.body ++ b.body) = none := by
    rw [Stmt.strayIn?_append, notStray, notStray', Option.or_none]
  have moved := Stmt.codes_relocate (Stmt.codeSizes none a.body) none 0 b.body notStray'
  have code : (Stmt.codes none 0 (a.body ++ b.body)).toArray =
      (Stmt.codes none 0 a.body).toArray ++
        (Stmt.codes none 0 b.body).toArray.map
          (.relocate (Stmt.codes none 0 a.body).toArray.size) := by
    rw [Stmt.codes_append, List.map_toArray, List.append_toArray, List.size_toArray,
      Stmt.length_codes, Option.map_none, ← moved]
    rfl
  show compile ⟨a.body ++ b.body⟩ = _
  rw [compile_eq_layout]
  dsimp only
  rw [none_stray, code]
  rfl

/-! ## Runs of programs in a row -/

/-- A run whose program stands `n` positions further on, and which has executed `count` instructions
before. -/
def Configuration.moved (n count : Nat) (c : Configuration) : Configuration :=
  ⟨c.pc + n, c.executed + count, c.machine⟩

/-- The end of a run which has executed `count` instructions before. -/
def Outcome.counting (count : Nat) (o : Outcome) : Outcome :=
  ⟨o.result, o.executed + count, o.machine⟩

/-- An instruction that was moved does what it did before, and goes on as much further. -/
theorem Action.step_relocate (n pc : Nat) (instr : Instr) :
    step (pc + n) (instr.relocate n) = step pc instr >>= fun pc' => pure (pc' + n) := by
  have next : pc + n + 1 = pc + 1 + n := Nat.add_right_comm pc n 1
  cases instr with
  | jumpIfFalse test dest =>
    simp only [Instr.relocate, step, bind_assoc, pure_bind, next]
    congr 1
    funext condition
    cases condition.truthy <;> rfl
  | iterNext target dest =>
    simp only [Instr.relocate, step, bind_assoc, next]
    congr 1
    funext item
    cases item <;> simp
  | assert span test message =>
    simp only [Instr.relocate, step, bind_assoc, next]
    congr 1
    funext condition
    cases condition.truthy with
    | true => simp
    | false => cases message <;> simp [fail]
  | _ => simp [Instr.relocate, step, next, fail]

namespace Program

variable {p q : Program} {c c' : Configuration} {o : Outcome} {n : Nat}

/-- A step of the first program. -/
theorem step_append_left (q : Program) (inside : c.pc < p.size) : (p ++ q).step c = p.step c := by
  rw [step, get?_append_left q inside]
  rfl

/-- A step of the second program. -/
theorem step_append_right (p q : Program) (count : Nat) (c : Configuration) :
    (p ++ q).step (c.moved p.size count) =
      (q.step c).map (.moved p.size count) (.counting count) := by
  rw [step, step, Configuration.moved, get?_append_right]
  cases q.get? c.pc with
  | none => rfl
  | some instr =>
    simp only [Option.map_some, Action.step_relocate, Action.runOn_bind]
    rcases (Action.step c.pc instr).runOn c.machine with ⟨fault | pc', m⟩
    · rfl
    · simp only [Action.runOn_pure, Sum.map_inl, Configuration.moved, Nat.add_right_comm]

/-- A slice of a run of the second program. -/
theorem advance_append_right (p q : Program) (count n : Nat) (c : Configuration) :
    (p ++ q).advance n (c.moved p.size count) =
      (q.advance n c).map (.moved p.size count) (.counting count) := by
  induction n generalizing c with
  | zero => rfl
  | succ n ih =>
    rw [advance, advance, step_append_right]
    cases q.step c with
    | inl c₁ => exact ih c₁
    | inr o => rfl

/-- There is an instruction where a run makes a step, or where it fails. -/
theorem lt_size_of_get? {instr : Instr} (e : p.get? c.pc = some instr) : c.pc < p.size :=
  (Array.getElem?_eq_some_iff.1 e).1

/-- As long as it goes on, a run of the first program is one of both. -/
theorem advance_append_left (q : Program) (e : p.advance n c = .inl c') :
    (p ++ q).advance n c = .inl c' := by
  induction n generalizing c with
  | zero => exact e
  | succ n ih =>
    rw [advance] at e ⊢
    cases more : p.get? c.pc with
    | none => simp [step, more] at e
    | some instr =>
      rw [step_append_left q (lt_size_of_get? more)]
      cases s : p.step c with
      | inr o => simp [s] at e
      | inl c₁ =>
        rw [s] at e
        exact ih e

/-- Where the first program fails, both do. -/
theorem advance_append_error (q : Program) (e : p.advance n c = .inr o)
    (fails : o.result ≠ .ok ()) : (p ++ q).advance n c = .inr o := by
  induction n generalizing c with
  | zero => cases e
  | succ n ih =>
    rw [advance] at e ⊢
    cases more : p.get? c.pc with
    | none =>
      simp only [step, more, Sum.inr.injEq] at e
      rw [← e] at fails
      exact absurd rfl fails
    | some instr =>
      rw [step_append_left q (lt_size_of_get? more)]
      cases s : p.step c with
      | inr o₁ =>
        rw [s] at e
        exact e
      | inl c₁ =>
        rw [s] at e
        exact ih e

/-- A run that has ended does not go on. -/
theorem advance_add_of_ended (j : Nat) (e : p.advance n c = .inr o) :
    p.advance (n + j) c = .inr o := by
  rw [advance_add, e]

/-- Where the first program completes behind its last instruction, both go on with the second one.
-/
theorem advance_append_complete {m : Machine} {first : Outcome} (q : Program)
    (inside : ∀ c, p.Reaches m c → c.pc ≤ p.size) (e : p.advance n m.begin = .inr first)
    (complete : first.result = .ok ()) :
    ∃ k, ∀ j, (p ++ q).advance (k + j) m.begin =
      (q.advance j first.machine.begin).map (.moved p.size first.executed)
        (.counting first.executed) := by
  obtain ⟨result, executed, machine⟩ := first
  obtain rfl : result = .ok () := complete
  obtain ⟨k, c, reached, none, rfl⟩ := exists_advance_of_complete e
  have counted : c.executed = executed := by
    have ended := (within_of_ended reached none).2
    have finishes : p.Finishes 0 .never m (p.interrupt c) := finishes_never_iff.2 ⟨_, ended⟩
    have unique := finishes.unique (finishes_never_iff.2 ⟨n, e⟩)
    rw [interrupt, none, Outcome.mk.injEq] at unique
    exact unique.2.1
  have behind : c.pc = p.size :=
    Nat.le_antisymm (inside c ⟨k, reached⟩) (Array.getElem?_eq_none_iff.1 none)
  have here : c = c.machine.begin.moved p.size executed := by
    rw [← counted, ← behind, Configuration.moved, Machine.begin, Nat.zero_add, Nat.zero_add]
  refine ⟨k, fun j => ?_⟩
  rw [advance_add, advance_append_left q reached, here]
  exact advance_append_right p q executed j c.machine.begin

/-- How a program ends on a machine, and another one after it on the machine that it has left,
unless it has failed. -/
inductive FinishesInTurn (p q : Program) (interval : Nat) (m : Machine) : Outcome → Prop
  /-- The first program fails, and the second one is not run. -/
  | fails {o : Outcome} {fault : Fault} (first : p.Finishes interval .never m o)
      (failed : o.result = .error fault) : FinishesInTurn p q interval m o
  /-- The first program completes, and the second one goes on counting. -/
  | completes {first o : Outcome} (ended : p.Finishes interval .never m first)
      (complete : first.result = .ok ()) (second : q.Finishes interval .never first.machine o) :
      FinishesInTurn p q interval m (o.counting first.executed)

end Program

/-- Running the programs of two modules in turn on one machine is running the program of their
statements in a row: it ends in the same way, on the same machine, and after as many instructions,
if it ends at all. -/
theorem Module.finishes_append_iff {a b : Module} {p q : Program} (ha : a.compile = .ok p)
    (hb : b.compile = .ok q) : ∃ both, (a ++ b).compile = .ok both ∧
      ∀ m i j o, both.Finishes i .never m o ↔ p.FinishesInTurn q j m o := by
  refine ⟨p ++ q, compile_append ha hb, fun m i j o => ?_⟩
  have inside : ∀ c, p.Reaches m c → c.pc ≤ p.size :=
    fun c reached => (holds_of_reaches ha reached).1
  constructor
  · intro finishes
    obtain ⟨n, e⟩ := Program.finishes_never_iff.1 finishes
    cases slice : p.advance n m.begin with
    | inl c =>
      -- the first program is still running where both have ended
      rw [Program.advance_append_left q slice] at e
      cases e
    | inr first =>
      have ended : p.Finishes j .never m first := Program.finishes_never_iff.2 ⟨n, slice⟩
      cases result : first.result with
      | error fault =>
        have failed : (p ++ q).advance n m.begin = .inr first :=
          Program.advance_append_error q slice (by rw [result]; exact nofun)
        rw [failed] at e
        cases e
        exact .fails ended result
      | ok _ =>
        obtain ⟨k, both⟩ := Program.advance_append_complete q inside slice result
        have later := Program.advance_add_of_ended k e
        rw [Nat.add_comm, both] at later
        cases second : q.advance n first.machine.begin with
        | inl c =>
          rw [second] at later
          cases later
        | inr o₁ =>
          rw [second] at later
          cases later
          exact .completes ended result (Program.finishes_never_iff.2 ⟨n, second⟩)
  · intro inTurn
    rw [Program.finishes_never_iff]
    cases inTurn with
    | fails first failed =>
      obtain ⟨n, slice⟩ := Program.finishes_never_iff.1 first
      exact ⟨n, Program.advance_append_error q slice (by rw [failed]; exact nofun)⟩
    | completes ended complete second =>
      obtain ⟨n, slice⟩ := Program.finishes_never_iff.1 ended
      obtain ⟨n', slice'⟩ := Program.finishes_never_iff.1 second
      obtain ⟨k, both⟩ := Program.advance_append_complete q inside slice complete
      exact ⟨k + n', by rw [both, slice']; rfl⟩

/-- A loop that leaves the last of two items behind in its name. -/
def Module.leavesItem : Module :=
  ⟨[.forLoop .none false (.name .none "i") (.list .none [.constant .none (.bool false),
    .constant .none (.bool true)]) [.pass .none] []]⟩

/-- A loop that goes on for as long as the name of the item stands for a true value. -/
def Module.clearsItem : Module :=
  ⟨[.whileLoop .none (.name .none "i")
    [.assign .none [.name .none "i"] (.constant .none .none)] []]⟩

/-- The second loop takes up the name of the first one. -/
theorem Module.finishes_append_iff_takesUp : ∃ both,
    (leavesItem ++ clearsItem).compile = .ok both ∧
      ∃ o, both.Finishes 0 .never .fresh o ∧ o.result = .ok () ∧ o.executed = 10 := by
  obtain ⟨both, compiled, finishes_iff⟩ :=
    finishes_append_iff (a := leavesItem) (b := clearsItem) rfl rfl
  exact ⟨both, compiled, _, (finishes_iff .fresh 0 0 _).2
    (.completes (Program.finishes_never_iff.2 ⟨7, rfl⟩) rfl
      (Program.finishes_never_iff.2 ⟨5, rfl⟩)), rfl, rfl⟩

end BlockEditor
