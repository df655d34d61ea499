import BlockEditor.Proofs.Compilation

/-!
# Cursors of a running program

How many loops over items are under way follows from the position in the program alone.  The
program of a module therefore uses only cursors of its own, and leaves none behind.
-/

namespace BlockEditor

/-! ## Depths -/

namespace Stmt

mutual

/-- The number of cursors before each instruction of a statement that begins with `depth` of them,
given the kind of the loop around it. -/
def depths (loop : Option LoopKind) (depth : Nat) : Stmt → List Nat
  | .pass _ => []
  | .annAssign _ _ _ none => []
  | .breakLoop _ => if loop = some .items then [depth, depth - 1] else [depth]
  | .branch _ _ body [] => depth :: depthsOf loop depth body
  | .branch _ _ body orelse => depth :: depthsOf loop depth body ++ depth :: depthsOf loop depth orelse
  | .whileLoop _ _ body orelse =>
    depth :: depthsOf (some .condition) depth body ++ depth :: depthsOf loop depth orelse
  | .forLoop _ false _ _ body orelse =>
    depth :: (depth + 1) :: depthsOf (some .items) (depth + 1) body ++
      (depth + 1) :: depthsOf loop depth orelse
  | _ => [depth]

/-- The number of cursors before each instruction of neighbouring statements. -/
def depthsOf (loop : Option LoopKind) (depth : Nat) : List Stmt → List Nat
  | [] => []
  | s :: rest => depths loop depth s ++ depthsOf loop depth rest

end

mutual

/-- Every instruction of a statement has a depth. -/
theorem length_depths (loop : Option LoopKind) (depth : Nat) (s : Stmt) :
    (depths loop depth s).length = codeSize loop s := by
  cases s with
  | branch span test body orelse =>
    cases orelse <;>
      simp only [depths, codeSize, List.length_cons, List.length_append, length_depthsOf] <;> omega
  | whileLoop span test body orelse =>
    simp only [depths, codeSize, List.length_cons, List.length_append, length_depthsOf]
    omega
  | forLoop span isAsync target iter body orelse =>
    cases isAsync with
    | true => simp [depths, codeSize]
    | false =>
      simp only [depths, codeSize, List.length_cons, List.length_append, length_depthsOf]
      omega
  | annAssign span target typeHint value => cases value <;> simp [depths, codeSize]
  | breakLoop span => by_cases h : loop = some .items <;> simp [depths, codeSize, h]
  | _ => simp [depths, codeSize]

/-- Every instruction of neighbouring statements has a depth. -/
theorem length_depthsOf (loop : Option LoopKind) (depth : Nat) (ss : List Stmt) :
    (depthsOf loop depth ss).length = codeSizes loop ss := by
  cases ss with
  | nil => simp [depthsOf, codeSizes]
  | cons s rest => simp only [depthsOf, codeSizes, List.length_append, length_depths, length_depthsOf]

end

end Stmt

/-- The number of cursors that the program of a module has at a position. -/
def Module.depthAt (mod : Module) (pc : Nat) : Nat := (Stmt.depthsOf none 0 mod.body).getD pc 0

/-! ## Instructions in balance -/

/-- Where an instruction may jump. -/
def Instr.dest? : Instr → Option Nat
  | jumpIfFalse _ dest | jump dest | iterNext _ dest => some dest
  | _ => none

/-- Whether an instruction moves or drops the innermost cursor. -/
def Instr.usesCursor : Instr → Bool
  | iterNext .. | iterPop => true
  | _ => false

section Balance

variable {level : Nat → Nat} {size pc : Nat}

/-- The depths at an instruction and where it goes on fit what it does to the cursors, and it does
not leave the program. -/
def Instr.Balanced (level : Nat → Nat) (size pc : Nat) : Instr → Prop
  | jumpIfFalse _ dest => level (pc + 1) = level pc ∧ level dest = level pc ∧ dest ≤ size
  | jump dest => level dest = level pc ∧ dest ≤ size
  | iterInit _ => level (pc + 1) = level pc + 1
  | iterNext _ dest => level (pc + 1) = level pc ∧ level dest + 1 = level pc ∧ dest ≤ size
  | iterPop => level (pc + 1) + 1 = level pc
  | _ => level (pc + 1) = level pc

/-- Where control goes in the loop around a piece of code that has `depth` cursors: its head has as
many, and its end one less if it has a cursor of its own. -/
def LoopFrame.Level (level : Nat → Nat) (size depth : Nat) : Option LoopFrame → Prop
  | some ⟨.condition, head, exit⟩ =>
    level head = depth ∧ level exit = depth ∧ head ≤ size ∧ exit ≤ size
  | some ⟨.items, head, exit⟩ =>
    level head = depth ∧ level exit + 1 = depth ∧ head ≤ size ∧ exit ≤ size
  -- there is no such code in a program, and what stands in for its jumps goes to the start
  | none => level 0 = depth

end Balance

/-! ## Code in balance -/

namespace Stmt

/-- The depths of a statement begin with the depth before it. -/
theorem depths_head (loop : Option LoopKind) (depth : Nat) (s : Stmt) :
    depths loop depth s = [] ∨ ∃ ds, depths loop depth s = depth :: ds := by
  cases s with
  | branch span test body orelse => cases orelse <;> simp [depths]
  | forLoop span isAsync => cases isAsync <;> simp [depths]
  | annAssign span target typeHint value => cases value <;> simp [depths]
  | breakLoop span => by_cases h : loop = some .items <;> simp [depths, h]
  | _ => simp [depths]

/-- The depths of neighbouring statements begin with the depth before them. -/
theorem depthsOf_head (loop : Option LoopKind) (depth : Nat) (ss : List Stmt) :
    depthsOf loop depth ss = [] ∨ ∃ ds, depthsOf loop depth ss = depth :: ds := by
  induction ss with
  | nil => exact .inl rfl
  | cons s rest ih =>
    rw [depthsOf]
    rcases depths_head loop depth s with h | ⟨ds, h⟩
    · rwa [h, List.nil_append]
    · exact .inr ⟨ds ++ depthsOf loop depth rest, by rw [h, List.cons_append]⟩

variable {level : Nat → Nat} {size : Nat}

/-- The start of neighbouring statements has the depth before them, even if they have no code. -/
theorem level_start {loop : Option LoopKind} {depth pc stop : Nat} {ss : List Stmt}
    (along : Along (fun pc d => level pc = d) pc (depthsOf loop depth ss))
    (e : stop = pc + codeSizes loop ss) (behind : level stop = depth) : level pc = depth := by
  rcases depthsOf_head loop depth ss with h | ⟨ds, h⟩
  · have len := length_depthsOf loop depth ss
    rw [h, List.length_nil] at len
    rwa [e, ← len] at behind
  · rw [h] at along
    exact along.head

/-- A single instruction that goes on behind itself has the same depth before and behind it. -/
theorem level_succ {depth pc stop : Nat} (along : Along (fun pc d => level pc = d) pc [depth])
    (e : stop = pc + 1) (behind : level stop = depth) : level (pc + 1) = level pc := by
  rw [← e, behind, along.head]

/-- The depths of code in two parts: before each part, at the jump between them, and along both. -/
theorem along_parts {inner outer : Option LoopKind} {d depth pc otherwise : Nat}
    {body orelse : List Stmt}
    (along : Along (fun pc d => level pc = d) pc
      (d :: (depthsOf inner d body ++ d :: depthsOf outer depth orelse)))
    (e : otherwise = pc + 2 + codeSizes inner body) :
    level pc = d ∧ level (pc + 1) = d ∧ level (pc + 1 + codeSizes inner body) = d ∧
      Along (fun pc d => level pc = d) (pc + 1) (depthsOf inner d body) ∧
      Along (fun pc d => level pc = d) otherwise (depthsOf outer depth orelse) := by
  have mid := along.tail.right (congrArg (pc + 1 + ·) (length_depthsOf inner d body).symm)
  have otherwise_eq : pc + 1 + codeSizes inner body + 1 = otherwise := by omega
  exact ⟨along.head, level_start along.tail.left rfl mid.head, mid.head, along.tail.left,
    otherwise_eq ▸ mid.tail⟩

/-- Code in two parts is in balance if its first instruction, both parts and the jump between them
are. -/
theorem balanced_parts {head : Instr} {inner outer : Option LoopFrame}
    {d pc dest otherwise : Nat} {body orelse : List Stmt}
    (e : otherwise = pc + 2 + codeSizes (inner.map LoopFrame.kind) body)
    (first : head.Balanced level size pc)
    (part : Along (fun pc instr => instr.Balanced level size pc) (pc + 1) (codes inner (pc + 1) body))
    (mid : level (pc + 1 + codeSizes (inner.map LoopFrame.kind) body) = d)
    (target : level dest = d) (inside : dest ≤ size)
    (other : Along (fun pc instr => instr.Balanced level size pc) otherwise
      (codes outer otherwise orelse)) :
    Along (fun pc instr => instr.Balanced level size pc) pc
      (head :: (codes inner (pc + 1) body ++ .jump dest :: codes outer otherwise orelse)) := by
  have otherwise_eq : pc + 1 + codeSizes (inner.map LoopFrame.kind) body + 1 = otherwise := by omega
  refine .cons first (part.append (congrArg (pc + 1 + ·) (length_codes inner (pc + 1) body).symm) ?_)
  exact .cons ⟨by rw [target, mid], inside⟩ (otherwise_eq ▸ other)

mutual

/-- The code of a statement is in balance if its depths, that behind it and those of the loop around
it are as planned. -/
theorem balanced_code {frame? : Option LoopFrame} {depth pc stop : Nat} (s : Stmt)
    (along : Along (fun pc d => level pc = d) pc (depths (frame?.map LoopFrame.kind) depth s))
    (e : stop = pc + codeSize (frame?.map LoopFrame.kind) s) (behind : level stop = depth)
    (inside : stop ≤ size) (around : LoopFrame.Level level size depth frame?) :
    Along (fun pc instr => instr.Balanced level size pc) pc (code frame? pc s) := by
  -- The depth at each jump has to be that at its target, which is the depth at the start of
  -- another part or behind the statement.
  cases s with
  | branch span test body orelse =>
    cases orelse with
    | nil =>
      simp only [depths, code, codeSize] at along e ⊢
      have start := along.head
      have bodyStop : stop = pc + 1 + codeSizes (frame?.map LoopFrame.kind) body := by omega
      rw [← bodyStop]
      refine .cons ⟨?_, by rw [behind, start], inside⟩
        (balanced_codes body along.tail bodyStop behind inside around)
      rw [level_start along.tail bodyStop behind, start]
    | cons s rest =>
      simp only [depths, code, codeSize, List.cons_append] at along e ⊢
      obtain ⟨start, first, mid, part, other⟩ := along_parts along rfl
      have elseStop : stop = pc + 2 + codeSizes (frame?.map LoopFrame.kind) body +
        codeSizes (frame?.map LoopFrame.kind) (s :: rest) := by omega
      rw [← elseStop]
      have otherwise := level_start other elseStop behind
      exact balanced_parts rfl ⟨by rw [first, start], by rw [otherwise, start], by omega⟩
        (balanced_codes body part rfl mid (by omega) around) mid behind inside
        (balanced_codes (s :: rest) other elseStop behind inside around)
  | whileLoop span test body orelse =>
    simp only [depths, code, codeSize, List.cons_append] at along e ⊢
    obtain ⟨start, first, mid, part, other⟩ := along_parts along rfl
    have elseStop : stop = pc + 2 + codeSizes (some .condition) body +
      codeSizes (frame?.map LoopFrame.kind) orelse := by omega
    rw [← elseStop]
    have otherwise := level_start other elseStop behind
    have inner : LoopFrame.Level level size depth (some ⟨.condition, pc, stop⟩) :=
      ⟨start, behind, by omega, inside⟩
    exact balanced_parts rfl ⟨by rw [first, start], by rw [otherwise, start], by omega⟩
      (balanced_codes body part rfl mid (by simp only [Option.map_some]; omega) inner) mid start
      (by omega) (balanced_codes orelse other elseStop behind inside around)
  | forLoop span isAsync target iter body orelse =>
    cases isAsync with
    | true => exact .cons (level_succ along e behind) .nil
    | false =>
      simp only [depths, code, codeSize, List.cons_append] at along e ⊢
      have otherwise_eq : pc + 3 + codeSizes (some .items) body =
        pc + 1 + 2 + codeSizes (some .items) body := by omega
      rw [otherwise_eq]
      obtain ⟨start, first, mid, part, other⟩ := along_parts along.tail rfl
      have elseStop : stop = pc + 1 + 2 + codeSizes (some .items) body +
        codeSizes (frame?.map LoopFrame.kind) orelse := by omega
      rw [← elseStop]
      have otherwise := level_start other elseStop behind
      have inner : LoopFrame.Level level size (depth + 1) (some ⟨.items, pc + 1, stop⟩) :=
        ⟨start, by rw [behind], by omega, inside⟩
      refine .cons ?_ (balanced_parts rfl ⟨by rw [first, start], by rw [otherwise, start], by omega⟩
        (balanced_codes body part rfl mid (by simp only [Option.map_some]; omega) inner) mid start
        (by omega) (balanced_codes orelse other elseStop behind inside around))
      change level (pc + 1) = level pc + 1
      rw [start, along.head]
  | breakLoop span =>
    rcases frame? with - | ⟨kind, head, exit⟩
    · exact .cons ⟨around.trans along.head.symm, Nat.zero_le size⟩ .nil
    · cases kind with
      | condition => exact .cons ⟨around.2.1.trans along.head.symm, around.2.2.2⟩ .nil
      | items =>
        -- A `break` out of a loop over items drops the cursor itself, as the loop does only where
        -- its items have come to an end.
        have before : level pc = depth := along.head
        have after : level (pc + 1) = depth - 1 := along.tail.head
        have exits : level exit + 1 = depth := around.2.1
        refine .cons ?_ (.cons ⟨?_, around.2.2.2⟩ .nil)
        · change level (pc + 1) + 1 = level pc
          omega
        · omega
  | continueLoop span =>
    rcases frame? with - | ⟨kind, head, exit⟩
    · exact .cons ⟨around.trans along.head.symm, Nat.zero_le size⟩ .nil
    · cases kind with
      | condition | items => exact .cons ⟨around.1.trans along.head.symm, around.2.2.1⟩ .nil
  | annAssign span target typeHint value =>
    cases value with
    | none => exact .nil
    | some value => exact .cons (level_succ along e behind) .nil
  | pass => exact .nil
  | _ => exact .cons (level_succ along e behind) .nil

/-- The code of neighbouring statements is in balance. -/
theorem balanced_codes {frame? : Option LoopFrame} {depth pc stop : Nat} (ss : List Stmt)
    (along : Along (fun pc d => level pc = d) pc (depthsOf (frame?.map LoopFrame.kind) depth ss))
    (e : stop = pc + codeSizes (frame?.map LoopFrame.kind) ss) (behind : level stop = depth)
    (inside : stop ≤ size) (around : LoopFrame.Level level size depth frame?) :
    Along (fun pc instr => instr.Balanced level size pc) pc (codes frame? pc ss) := by
  cases ss with
  | nil => exact .nil
  | cons s rest =>
    simp only [depthsOf, codes, codeSizes] at along e ⊢
    have rest_along := along.right (congrArg (pc + ·) (length_depths _ depth s).symm)
    have rest_stop : stop = pc + codeSize (frame?.map LoopFrame.kind) s +
      codeSizes (frame?.map LoopFrame.kind) rest := by omega
    have mid := level_start rest_along rest_stop behind
    exact .append (balanced_code s along.left rfl mid (by omega) around)
      (congrArg (pc + ·) (length_code frame? pc s).symm)
      (balanced_codes rest rest_along rest_stop behind inside around)

end

end Stmt

namespace Module

variable {mod : Module} {p : Program}

/-- The depths of a module run along its program. -/
theorem along_depthAt (mod : Module) :
    Along (fun pc d => mod.depthAt pc = d) 0 (Stmt.depthsOf none 0 mod.body) := by
  intro i d e
  rw [Nat.zero_add, depthAt, List.getD_eq_getElem?_getD, e, Option.getD_some]

/-- A program ends without cursors. -/
theorem depthAt_size (h : mod.compile = .ok p) : mod.depthAt p.size = 0 := by
  have size_eq := (placed_compile h).stop_eq
  have len := Stmt.length_depthsOf none 0 mod.body
  rw [depthAt, List.getD_eq_getElem?_getD, List.getElem?_eq_none, Option.getD_none]
  simp only [Activity.codeSize, Option.map_none] at size_eq
  omega

/-- A program begins without cursors. -/
theorem depthAt_zero (h : mod.compile = .ok p) : mod.depthAt 0 = 0 :=
  Stmt.level_start mod.along_depthAt (placed_compile h).stop_eq (depthAt_size h)

/-- Every instruction of the program of a module is in balance. -/
theorem balanced_of_compile (h : mod.compile = .ok p) {pc : Nat} {instr : Instr}
    (e : p.get? pc = some instr) : instr.Balanced mod.depthAt p.size pc := by
  have around : LoopFrame.Level mod.depthAt p.size 0 none := depthAt_zero h
  have balanced := Stmt.balanced_codes mod.body mod.along_depthAt (placed_compile h).stop_eq
    (depthAt_size h) (Nat.le_refl p.size) around
  have := balanced pc instr (by simpa [(compile_eq h).1, Program.get?] using e)
  rwa [Nat.zero_add] at this

end Module

/-! ## Actions that keep the cursors -/

namespace Action

/-- An action leaves the loops over items alone. -/
def KeepsCursors {α : Type} (a : Action α) : Prop :=
  ∀ m, (a.runOn m).2.cursors = m.cursors

theorem keepsCursors_pure {α : Type} (a : α) : KeepsCursors (pure a) := fun _ => rfl

theorem keepsCursors_fail {α : Type} (cause : Cause) (span : Span) :
    KeepsCursors (fail cause span : Action α) := fun _ => rfl

theorem keepsCursors_throw {α : Type} (fault : Fault) :
    KeepsCursors (throw fault : Action α) := fun _ => rfl

/-- Actions in a row leave the loops over items alone if each of them does. -/
theorem KeepsCursors.bind {α β : Type} {a : Action α} {f : α → Action β} (h : KeepsCursors a)
    (h' : ∀ x, KeepsCursors (f x)) : KeepsCursors (a >>= f) := by
  intro m
  have first := h m
  rw [runOn_bind]
  rcases ran : a.runOn m with ⟨x | x, m₁⟩
  · rwa [ran] at first
  · rw [ran] at first
    exact (h' x m₁).trans first

/-- An action that looks at the machine and goes on. -/
theorem keepsCursors_get {β : Type} {f : Machine → Action β} (h : ∀ m, KeepsCursors (f m)) :
    KeepsCursors (getThe Machine >>= f) := fun m => h m m

theorem keepsCursors_ofResult {α : Type} (span : Span) (r : Except Cause α) :
    KeepsCursors (ofResult span r) := by
  cases r with
  | ok a => exact keepsCursors_pure a
  | error cause => exact keepsCursors_fail cause span

/-- Evaluating an expression leaves the loops over items alone. -/
theorem keepsCursors_evaluate (e : Expr) : KeepsCursors (evaluate e) := by
  intro m
  rw [runOn_evaluate]

theorem keepsCursors_path (e : Expr) : KeepsCursors (path e) := by
  fun_induction path e with
  | case1 span id => exact keepsCursors_pure _
  | case2 span base index ih =>
    exact (keepsCursors_evaluate index).bind fun i => ih.bind fun p => keepsCursors_pure _
  | case3 e => exact keepsCursors_fail _ _

theorem keepsCursors_update (p : ElementPath)
    (change : List PathStep → Value → Except Fault Value) : KeepsCursors (update p change) := by
  refine keepsCursors_get fun m => ?_
  split
  · exact keepsCursors_fail _ _
  · split
    · exact fun _ => rfl
    · exact keepsCursors_throw _

mutual

/-- So does an assignment, by recursion through its targets. -/
theorem keepsCursors_assign (target : Expr) (v : Value) : KeepsCursors (assign target v) := by
  cases target with
  | name span id => exact fun _ => rfl
  | tuple span targets | list span targets =>
    exact (keepsCursors_ofResult span _).bind fun items =>
      (keepsCursors_ofResult span _).bind fun parts => keepsCursors_assignAll targets parts
  | subscript span base index =>
    exact (keepsCursors_path _).bind fun p => keepsCursors_update p _
  | _ => exact keepsCursors_fail _ _

theorem keepsCursors_assignAll (targets : List Expr) (vs : List Value) :
    KeepsCursors (assignAll targets vs) := by
  cases targets with
  | nil => exact keepsCursors_pure ()
  | cons target targets =>
    cases vs with
    | nil => cases target <;> exact keepsCursors_pure ()
    | cons v vs =>
      cases target with
      | starred span inner =>
        exact (keepsCursors_assign inner v).bind fun _ => keepsCursors_assignAll targets vs
      | _ => exact (keepsCursors_assign _ v).bind fun _ => keepsCursors_assignAll targets vs

end

mutual

theorem keepsCursors_delete (target : Expr) : KeepsCursors (delete target) := by
  cases target with
  | name span id =>
    intro m
    change ((match m.globals.get? id with
      | none => fail (.undefinedName id) span
      | some _ => set { m with globals := m.globals.erase id } : Action Unit).runOn m).2.cursors =
        m.cursors
    cases m.globals.get? id <;> rfl
  | tuple span targets | list span targets => exact keepsCursors_deleteAll targets
  | subscript span base index =>
    exact (keepsCursors_path _).bind fun p => keepsCursors_update p _
  | _ => exact keepsCursors_fail _ _

theorem keepsCursors_deleteAll (targets : List Expr) : KeepsCursors (deleteAll targets) := by
  cases targets with
  | nil => exact keepsCursors_pure ()
  | cons target targets =>
    exact (keepsCursors_delete target).bind fun _ => keepsCursors_deleteAll targets

end

theorem keepsCursors_forM {α : Type} {f : α → Action Unit} (h : ∀ x, KeepsCursors (f x))
    (xs : List α) : KeepsCursors (xs.forM f) := by
  induction xs with
  | nil => exact keepsCursors_pure ()
  | cons x xs ih => exact (h x).bind fun _ => ih

/-- The innermost loop over items is moved on, or is dropped at its end. -/
theorem runOn_nextItem {m : Machine} {cursor : ItemCursor} {rest : List ItemCursor}
    (h : m.cursors = cursor :: rest) :
    nextItem.runOn m =
      match cursor.next? with
      | some (item, cursor') => (.ok (some item), { m with cursors := cursor' :: rest })
      | none => (.ok none, { m with cursors := rest }) := by
  unfold nextItem
  rw [runOn_bind_ok (runOn_get m), h]
  dsimp only
  cases cursor.next? <;> rfl

/-- Where an action succeeds, it has left the cursors alone, and its result is as `Q` says. -/
def Returns {α : Type} (a : Action α) (Q : α → Prop) : Prop :=
  ∀ m m' x, a.runOn m = (.ok x, m') → m'.cursors = m.cursors ∧ Q x

/-- An action that only gives a result returns it. -/
theorem returns_pure {α : Type} {Q : α → Prop} {a : α} (h : Q a) : Returns (pure a) Q := by
  intro m m' x e
  cases e
  exact ⟨rfl, h⟩

/-- An action that fails never returns. -/
theorem returns_fail {α : Type} (cause : Cause) (span : Span) (Q : α → Prop) :
    Returns (fail cause span) Q := by
  intro m m' x e
  cases e

/-- An action that leaves the cursors alone may stand in front of one that returns. -/
theorem KeepsCursors.returns {α β : Type} {a : Action α} {f : α → Action β} {Q : β → Prop}
    (h : KeepsCursors a) (h' : ∀ x, Returns (f x) Q) : Returns (a >>= f) Q := by
  intro m m' y e
  have first := h m
  rw [runOn_bind] at e
  rcases ran : a.runOn m with ⟨x | x, m₁⟩
  · rw [ran] at e
    cases e
  · rw [ran] at first e
    obtain ⟨second, q⟩ := h' x m₁ m' y e
    exact ⟨second.trans first, q⟩

/-- An instruction that does not use the loops over items leaves their cursors alone, and goes to
the next instruction or to its own destination. -/
theorem returns_step {instr : Instr} {level : Nat → Nat} {size pc : Nat}
    (balanced : instr.Balanced level size pc) (inside : pc < size)
    (plain : instr.usesCursor = false) (notInit : ∀ e, instr ≠ .iterInit e) :
    Returns (step pc instr) fun pc' => pc' ≤ size ∧ level pc' = level pc := by
  cases instr with
  | exec e => exact (keepsCursors_evaluate e).returns fun _ => returns_pure ⟨inside, balanced⟩
  | assign targets value =>
    exact (keepsCursors_evaluate value).returns fun v =>
      (keepsCursors_forM (fun target => keepsCursors_assign target v) targets).returns fun _ =>
        returns_pure ⟨inside, balanced⟩
  | augAssign span target op value =>
    exact (keepsCursors_evaluate target).returns fun current =>
      (keepsCursors_evaluate value).returns fun operand =>
        (keepsCursors_ofResult span _).returns fun v =>
          (keepsCursors_assign target v).returns fun _ => returns_pure ⟨inside, balanced⟩
  | delete targets =>
    exact (keepsCursors_deleteAll targets).returns fun _ => returns_pure ⟨inside, balanced⟩
  | jumpIfFalse test dest =>
    refine (keepsCursors_evaluate test).returns fun condition => returns_pure ?_
    split
    · exact ⟨inside, balanced.1⟩
    · exact ⟨balanced.2.2, balanced.2.1⟩
  | jump dest => exact returns_pure ⟨balanced.2, balanced.1⟩
  | iterInit e => exact absurd rfl (notInit e)
  | iterNext | iterPop => cases plain
  | assert span test message =>
    refine (keepsCursors_evaluate test).returns fun condition => ?_
    split
    · exact returns_pure ⟨inside, balanced⟩
    · cases message with
      | none => exact returns_fail _ _ _
      | some e => exact (keepsCursors_evaluate e).returns fun v => returns_fail _ _ _
  | unsupported span construct => exact returns_fail _ _ _

end Action

/-! ## Steps and runs -/

namespace Program

variable {p : Program} {level : Nat → Nat} {size pc pc' : Nat} {m m' : Machine}

/-- The machine `m` has the cursors `base`, and above them as many of its own as `level` says for
the position `pc`. -/
def Holds (level : Nat → Nat) (base : List ItemCursor) (pc : Nat) (m : Machine) : Prop :=
  ∃ own, m.cursors = own ++ base ∧ own.length = level pc

/-- Beginning a loop over items adds a cursor. -/
theorem holds_of_iterInit {e : Expr} {base : List ItemCursor} (h : Holds level base pc m)
    (balanced : level (pc + 1) = level pc + 1)
    (ran : (Action.step pc (.iterInit e)).runOn m = (.ok pc', m')) :
    pc' = pc + 1 ∧ Holds level base pc' m' := by
  obtain ⟨own, cursors, depth⟩ := h
  have first := Action.keepsCursors_evaluate e m
  rw [Action.step, Action.runOn_bind] at ran
  rcases e₁ : (Action.evaluate e).runOn m with ⟨v | v, m₁⟩
  · rw [e₁] at ran
    cases ran
  · rw [e₁] at ran first
    cases start : ItemCursor.start v with
    | error cause =>
      simp only [start] at ran
      cases ran
    | ok cursor =>
      simp only [start] at ran
      cases ran
      refine ⟨rfl, cursor :: own, ?_, by rw [List.length_cons, depth, balanced]⟩
      rw [List.cons_append, ← cursors, ← first]

/-- Moving a loop over items on keeps its cursor where there is an item, and else drops it. -/
theorem holds_of_iterNext {target : Expr} {dest : Nat} {base : List ItemCursor}
    (h : Holds level base pc m) (before : level (pc + 1) = level pc)
    (behind : level dest + 1 = level pc)
    (ran : (Action.step pc (.iterNext target dest)).runOn m = (.ok pc', m')) :
    (pc' = pc + 1 ∨ pc' = dest) ∧ Holds level base pc' m' := by
  obtain ⟨own, cursors, depth⟩ := h
  cases own with
  | nil =>
    rw [List.length_nil] at depth
    omega
  | cons cursor own =>
    rw [List.length_cons] at depth
    rw [List.cons_append] at cursors
    rw [Action.step] at ran
    have moved := Action.runOn_nextItem cursors
    cases next : cursor.next? with
    | none =>
      rw [next] at moved
      rw [Action.runOn_bind_ok moved] at ran
      cases ran
      exact ⟨.inr rfl, own, rfl, by omega⟩
    | some visited =>
      obtain ⟨item, cursor'⟩ := visited
      rw [next] at moved
      rw [Action.runOn_bind_ok moved] at ran
      obtain ⟨kept, rfl⟩ := (Action.keepsCursors_assign target item).returns
        (fun _ => Action.returns_pure rfl) _ m' pc' ran
      exact ⟨.inl rfl, cursor' :: own, kept, by rw [List.length_cons]; omega⟩

/-- Dropping a cursor leaves one less. -/
theorem holds_of_iterPop {base : List ItemCursor} (h : Holds level base pc m)
    (balanced : level (pc + 1) + 1 = level pc)
    (ran : (Action.step pc .iterPop).runOn m = (.ok pc', m')) :
    pc' = pc + 1 ∧ Holds level base pc' m' := by
  obtain ⟨own, cursors, depth⟩ := h
  cases ran
  cases own with
  | nil => simp only [List.length_nil] at depth; omega
  | cons cursor own =>
    refine ⟨rfl, own, by simp [cursors], ?_⟩
    rw [List.length_cons] at depth
    omega

/-- A step of an instruction in balance keeps the cursors at the depth that is planned. -/
theorem holds_of_step {instr : Instr} {base : List ItemCursor}
    (balanced : instr.Balanced level size pc) (inside : pc < size) (h : Holds level base pc m)
    (ran : (Action.step pc instr).runOn m = (.ok pc', m')) :
    pc' ≤ size ∧ Holds level base pc' m' := by
  cases instr with
  | iterInit e =>
    obtain ⟨rfl, h'⟩ := holds_of_iterInit h balanced ran
    exact ⟨inside, h'⟩
  | iterNext target dest =>
    obtain ⟨rfl | rfl, h'⟩ := holds_of_iterNext h balanced.1 balanced.2.1 ran
    · exact ⟨inside, h'⟩
    · exact ⟨balanced.2.2, h'⟩
  | iterPop =>
    obtain ⟨rfl, h'⟩ := holds_of_iterPop h balanced ran
    exact ⟨inside, h'⟩
  | _ =>
    obtain ⟨cursors, le, same⟩ := Action.returns_step balanced inside rfl nofun m m' pc' ran
    obtain ⟨own, split, depth⟩ := h
    exact ⟨le, own, cursors.trans split, depth.trans same.symm⟩

/-- The configurations that a run from the start on a machine goes through. -/
def Reaches (p : Program) (m : Machine) (c : Configuration) : Prop :=
  ∃ n, p.advance n m.begin = .inl c

/-- Along a run, the cursors are at the depth that is planned for the position. -/
theorem holds_of_advance {base : List ItemCursor}
    (balanced : ∀ pc instr, p.get? pc = some instr → instr.Balanced level p.size pc) (n : Nat)
    {c c' : Configuration} (inside : c.pc ≤ p.size) (h : Holds level base c.pc c.machine)
    (e : p.advance n c = .inl c') : c'.pc ≤ p.size ∧ Holds level base c'.pc c'.machine := by
  induction n generalizing c with
  | zero =>
    cases e
    exact ⟨inside, h⟩
  | succ n ih =>
    rw [advance, step] at e
    cases get : p.get? c.pc with
    | none => simp [get] at e
    | some instr =>
      have less : c.pc < p.size := by
        rw [get?, Array.getElem?_eq_some_iff] at get
        exact get.1
      rcases ran : (Action.step c.pc instr).runOn c.machine with ⟨fault | pc', m'⟩
      · simp [get, ran] at e
      · simp only [get, ran] at e
        obtain ⟨le, h'⟩ := holds_of_step (balanced c.pc instr get) less h ran
        exact ih le h' e

/-- A run that completes stands behind the last instruction before it does. -/
theorem exists_advance_of_complete {n j : Nat} {c : Configuration} {m' : Machine}
    (e : p.advance n c = .inr ⟨.ok (), j, m'⟩) :
    ∃ k c', p.advance k c = .inl c' ∧ p.get? c'.pc = none ∧ c'.machine = m' := by
  induction n generalizing c with
  | zero => cases e
  | succ n ih =>
    rw [advance] at e
    cases s : p.step c with
    | inl c₁ =>
      rw [s] at e
      obtain ⟨k, c', h, rest⟩ := ih e
      exact ⟨k + 1, c', by rw [advance, s]; exact h, rest⟩
    | inr outcome =>
      simp only [s, Sum.inr.injEq] at e
      subst e
      refine ⟨0, c, rfl, ?_⟩
      rw [step] at s
      cases get : p.get? c.pc with
      | none =>
        simp only [get, Sum.inr.injEq, Outcome.mk.injEq] at s
        exact ⟨rfl, s.2.2⟩
      | some instr =>
        rcases ran : (Action.step c.pc instr).runOn c.machine with ⟨fault | pc', m₁⟩ <;>
          simp [get, ran] at s

end Program

namespace Module

open Program

variable {mod : Module} {p : Program}

/-- The run of a program that was compiled has the planned number of cursors of its own. -/
theorem holds_of_reaches (h : mod.compile = .ok p) {m : Machine} {c : Configuration}
    (reached : p.Reaches m c) :
    c.pc ≤ p.size ∧ Holds mod.depthAt m.cursors c.pc c.machine := by
  obtain ⟨n, e⟩ := reached
  exact holds_of_advance (fun pc instr => balanced_of_compile h) n (Nat.zero_le _)
    ⟨[], rfl, (depthAt_zero h).symm⟩ e

/-- Every module that compiles has a program in which the number of cursors follows from the
position: jumps stay in the program, a run moves and drops only cursors of its own, and one that
completes leaves the cursors as it found them. -/
theorem cursors_follow_depthAt (h : mod.compile = .ok p) :
    mod.depthAt 0 = 0 ∧ mod.depthAt p.size = 0 ∧
      (∀ pc instr dest, p.get? pc = some instr → instr.dest? = some dest → dest ≤ p.size) ∧
      (∀ m c, p.Reaches m c → c.pc ≤ p.size ∧
        (∃ own, c.machine.cursors = own ++ m.cursors ∧ own.length = mod.depthAt c.pc) ∧
        ∀ instr, p.get? c.pc = some instr → instr.usesCursor → 1 ≤ mod.depthAt c.pc) ∧
      ∀ m m', p.Ends m (.ok ()) m' → m'.cursors = m.cursors := by
  refine ⟨depthAt_zero h, depthAt_size h, ?_, ?_, ?_⟩
  · intro pc instr dest get e
    have balanced := balanced_of_compile h get
    cases instr <;> cases e
    · exact balanced.2.2
    · exact balanced.2
    · exact balanced.2.2
  · intro m c reached
    obtain ⟨inside, held⟩ := holds_of_reaches h reached
    refine ⟨inside, held, fun instr get uses => ?_⟩
    have balanced := balanced_of_compile h get
    cases instr with
    | iterNext => exact balanced.2.1 ▸ Nat.le_add_left 1 _
    | iterPop => exact Nat.le_trans (Nat.le_add_left 1 _) (Nat.le_of_eq balanced)
    | _ => cases uses
  · rintro m m' ⟨n, j, e⟩
    obtain ⟨k, c, reached, none, rfl⟩ := exists_advance_of_complete e
    obtain ⟨inside, own, cursors, depth⟩ := holds_of_reaches h ⟨k, reached⟩
    -- A run that is complete has no instruction left, so it stands behind the last one.
    have behind : c.pc = p.size := by
      have := Array.getElem?_eq_none_iff.1 none
      exact Nat.le_antisymm inside this
    rw [behind, depthAt_size h, List.length_eq_zero_iff] at depth
    rw [cursors, depth, List.nil_append]

/-- A loop over items that is left in its first pass. -/
def leftAtOnce : Module :=
  ⟨[.forLoop .none false (.name .none "i") (.list .none [.constant .none (.int 1)])
    [.breakLoop .none] []]⟩

/-- The loop that is left at once has no cursor in front of it and none behind it. -/
theorem cursors_follow_depthAt_leftAtOnce :
    ∃ p, leftAtOnce.compile = .ok p ∧
      leftAtOnce.depthAt 0 = 0 ∧ leftAtOnce.depthAt p.size = 0 ∧
        (∀ pc instr dest, p.get? pc = some instr → instr.dest? = some dest → dest ≤ p.size) ∧
        (∀ m c, p.Reaches m c → c.pc ≤ p.size ∧
          (∃ own, c.machine.cursors = own ++ m.cursors ∧ own.length = leftAtOnce.depthAt c.pc) ∧
          ∀ instr, p.get? c.pc = some instr → instr.usesCursor → 1 ≤ leftAtOnce.depthAt c.pc) ∧
        ∀ m m', p.Ends m (.ok ()) m' → m'.cursors = m.cursors :=
  ⟨_, rfl, cursors_follow_depthAt rfl⟩

end Module

end BlockEditor
