import BlockEditor.Proofs.CodeLayout

/-!
# Drafts

The pass that puts down a program, and completes its jumps later, comes to the code that is laid out
from the lengths of the parts, or stops at the first stray `break` or `continue`.  Its stack of open
loops stands for the loop around a statement in the layout, except that the end of that loop is still
open.
-/

namespace BlockEditor

namespace Draft

variable {is js is' js' before after : List Instr} {loops : List OpenLoop} {instr : Instr}
  {pc dest : Nat} {waiting waiting' : List Nat}

/-- A draft with given instructions, inside of given loops. -/
def ofList (is : List Instr) (loops : List OpenLoop) : Draft := ⟨is.toArray, loops⟩

@[simp] theorem here_ofList (is : List Instr) (loops : List OpenLoop) :
    (ofList is loops).here = is.length := rfl

@[simp] theorem emit_ofList (instr : Instr) (is : List Instr) (loops : List OpenLoop) :
    (ofList is loops).emit instr = ofList (is ++ [instr]) loops := by
  simp [ofList, emit]

/-! ## Completing jumps -/

/-- Only the instruction at the position of a jump is changed. -/
theorem patch_ofList (dest : Nat) (before after : List Instr) (instr : Instr)
    (loops : List OpenLoop) :
    (ofList (before ++ instr :: after) loops).patch dest before.length =
      .ok (ofList (before ++ instr.retarget dest :: after) loops) := by
  simp [patch, ofList]

/-- Jumps are completed one group after the other. -/
theorem patchAll_append (dest : Nat) (front back : List Nat) (d : Draft) :
    d.patchAll dest (front ++ back) = (d.patchAll dest front).bind (·.patchAll dest back) := by
  induction front generalizing d with
  | nil => rfl
  | cons at' front ih =>
    rw [List.cons_append, patchAll, patchAll]
    cases d.patch dest at' with
    | ok d' => exact ih d'
    | error fault => rfl

/-- Completing the waiting jumps turns one code into another, wherever it stands from a position on. -/
structure Completes (waiting : List Nat) (dest pc : Nat) (is is' : List Instr) : Prop where
  length_eq : is'.length = is.length
  patched : ∀ before after loops, before.length = pc →
    (ofList (before ++ is ++ after) loops).patchAll dest waiting =
      .ok (ofList (before ++ is' ++ after) loops)

theorem Completes.refl (dest pc : Nat) (is : List Instr) : Completes [] dest pc is is :=
  ⟨rfl, fun _ _ _ _ => rfl⟩

/-- A jump that waits gets its destination. -/
theorem Completes.jump (dest pc : Nat) : Completes [pc] dest pc [.jump 0] [.jump dest] where
  length_eq := rfl
  patched := fun before after loops stands => by
    subst stands
    rw [List.append_assoc, List.append_assoc, patchAll]
    change ((ofList (before ++ .jump 0 :: after) loops).patch dest before.length).bind _ = _
    rw [patch_ofList]
    rfl

/-- Codes in a row are completed together. -/
theorem Completes.append (front : Completes waiting dest pc is is')
    (back : Completes waiting' dest (pc + is.length) js js') :
    Completes (waiting ++ waiting') dest pc (is ++ js) (is' ++ js') where
  length_eq := by rw [List.length_append, List.length_append, front.length_eq, back.length_eq]
  patched := fun before after loops stands => by
    have first := front.patched before (js ++ after) loops stands
    have second := back.patched (before ++ is') after loops
      (by rw [List.length_append, stands, front.length_eq])
    simp only [List.append_assoc] at first second ⊢
    rw [patchAll_append, first]
    exact second

/-- What stands in front of the jumps stays as it is. -/
theorem Completes.behind {start : Nat} (back : Completes waiting dest start js js')
    (front : List Instr) (stands : pc + front.length = start) :
    Completes waiting dest pc (front ++ js) (front ++ js') :=
  (Completes.refl dest pc front).append (stands ▸ back)

/-! ## Open loops -/

/-- The innermost open loop, with an end. -/
def frame? (loops : List OpenLoop) (exit : Nat) : Option LoopFrame :=
  loops.head?.map fun l => ⟨l.kind, l.head, exit⟩

/-- Open loops, the innermost of which has further jumps that wait for its end. -/
def awaitAll (waiting : List Nat) : List OpenLoop → List OpenLoop
  | [] => []
  | inner :: outer => { inner with breaks := inner.breaks ++ waiting } :: outer

/-- Jumps that wait for the end of a loop leave its other positions alone. -/
@[simp] theorem frame?_awaitAll (waiting : List Nat) (loops : List OpenLoop) (exit : Nat) :
    frame? (awaitAll waiting loops) exit = frame? loops exit := by
  cases loops <;> rfl

@[simp] theorem isEmpty_awaitAll (waiting : List Nat) (loops : List OpenLoop) :
    (awaitAll waiting loops).isEmpty = loops.isEmpty := by
  cases loops <;> rfl

@[simp] theorem awaitAll_nil (loops : List OpenLoop) : awaitAll [] loops = loops := by
  cases loops <;> simp [awaitAll]

/-- Jumps that wait are gathered group by group. -/
@[simp] theorem awaitAll_awaitAll (front back : List Nat) (loops : List OpenLoop) :
    awaitAll back (awaitAll front loops) = awaitAll (front ++ back) loops := by
  cases loops <;> simp [awaitAll]

/-! ## Stages of the pass -/

/-- What a stage of the pass comes to.  Where something is stray, it stops there.  Else it puts down a
code that is laid out for the loop around it, in which the jumps to the end of that loop are still to
be completed. -/
structure Emits (f : Draft → Except Fault Draft) (stray? : Bool → Option Fault)
    (code : Option LoopFrame → Nat → List Instr) : Prop where
  stops : ∀ is loops fault, stray? (!loops.isEmpty) = some fault →
    f (ofList is loops) = .error fault
  goesOn : ∀ is loops, stray? (!loops.isEmpty) = none → ∃ waiting,
    f (ofList is loops) =
        .ok (ofList (is ++ code (frame? loops 0) is.length) (awaitAll waiting loops)) ∧
      ∀ exit, Completes waiting exit is.length (code (frame? loops 0) is.length)
        (code (frame? loops exit) is.length)

variable {f g : Draft → Except Fault Draft} {stray? stray?' : Bool → Option Fault}
  {code code' : Option LoopFrame → Nat → List Instr}

/-- A stage without jumps out of the loop around it. -/
theorem Emits.plain (code : Nat → List Instr)
    (puts : ∀ is loops, f (ofList is loops) = .ok (ofList (is ++ code is.length) loops)) :
    Emits f (fun _ => none) (fun _ => code) where
  stops := fun _ _ _ found => by cases found
  goesOn := fun is loops _ =>
    ⟨[], by rw [puts, awaitAll_nil], fun exit => .refl exit is.length (code is.length)⟩

/-- Stages that do the same come to the same. -/
theorem Emits.of_eq (stage : Emits g stray?' code') (pass_eq : f = g)
    (stray?_eq : ∀ inLoop, stray? inLoop = stray?' inLoop)
    (code_eq : ∀ loop pc, code loop pc = code' loop pc) : Emits f stray? code := by
  obtain rfl := pass_eq
  obtain rfl := funext stray?_eq
  obtain rfl := funext fun loop => funext (code_eq loop)
  exact stage

/-- A single instruction is put down as it is. -/
theorem Emits.single (instr : Instr) :
    Emits (fun d => .ok (d.emit instr)) (fun _ => none) (fun _ _ => [instr]) :=
  .plain (fun _ => [instr]) fun is loops => by rw [emit_ofList]

/-- A stage that puts down nothing. -/
theorem Emits.nothing : Emits Except.ok (fun _ => none) (fun _ _ => []) :=
  .plain (fun _ => []) fun is loops => by rw [List.append_nil]

/-- A stage behind another. -/
theorem Emits.andThen (first : Emits f stray? code) (second : Emits g stray?' code') :
    Emits (fun d => (f d).bind g) (fun inLoop => (stray? inLoop).or (stray?' inLoop))
      (fun loop pc => code loop pc ++ code' loop (pc + (code loop pc).length)) where
  stops := fun is loops fault found => by
    rcases Option.or_eq_some_iff.1 found with found | ⟨clean, found⟩
    · rw [first.stops is loops fault found]
      rfl
    · obtain ⟨waiting, puts, -⟩ := first.goesOn is loops clean
      rw [puts]
      exact second.stops _ _ fault (by rwa [isEmpty_awaitAll])
  goesOn := fun is loops clean => by
    obtain ⟨clean, clean'⟩ := Option.or_eq_none_iff.1 clean
    obtain ⟨waiting, puts, completes⟩ := first.goesOn is loops clean
    obtain ⟨waiting', puts', completes'⟩ :=
      second.goesOn (is ++ code (frame? loops 0) is.length) (awaitAll waiting loops)
        (by rwa [isEmpty_awaitAll])
    simp only [frame?_awaitAll, awaitAll_awaitAll, List.length_append] at puts' completes'
    refine ⟨waiting ++ waiting', ?_, fun exit => ?_⟩
    · rw [puts, ← List.append_assoc]
      exact puts'
    · rw [(completes exit).length_eq]
      exact (completes exit).append (completes' exit)

/-- A stage whose code is skipped from an instruction in front of it. -/
theorem Emits.skippable (instr : Instr) (body : Emits f stray? code) :
    Emits (skippable instr f) stray?
      (fun loop pc =>
        instr.retarget (pc + 1 + (code loop (pc + 1)).length) :: code loop (pc + 1)) where
  stops := fun is loops fault found => by
    rw [Draft.skippable, emit_ofList, body.stops _ _ fault found]
    rfl
  goesOn := fun is loops clean => by
    obtain ⟨waiting, puts, completes⟩ := body.goesOn (is ++ [instr]) loops clean
    rw [List.length_append, List.length_singleton] at puts completes
    refine ⟨waiting, ?_, fun exit => ?_⟩
    · rw [Draft.skippable, emit_ofList, puts, List.append_assoc]
      refine (patch_ofList _ is _ instr _).trans ?_
      rw [here_ofList, List.length_append, List.length_append, List.length_singleton, Nat.add_assoc]
      rfl
    · rw [(completes exit).length_eq]
      exact (completes exit).behind [_] rfl

/-- An instruction in front of a part and a jump behind it are two more instructions. -/
theorem length_guarded (is inner : List Instr) (guard jump : Instr) :
    (is ++ (guard :: inner ++ [jump])).length = is.length + 2 + inner.length := by
  simp only [List.length_append, List.length_cons, List.length_nil]
  omega

/-- Behind a part that may be skipped, a jump is put down, and the instruction in front of the part is
completed. -/
theorem patch_emit_ofList (is inner : List Instr) (guard jump : Instr) (loops : List OpenLoop) :
    ((ofList (is ++ [guard] ++ inner) loops).emit jump).patch
        ((ofList (is ++ [guard] ++ inner) loops).emit jump).here is.length =
      .ok (ofList (is ++ (guard.retarget (is.length + 2 + inner.length) :: inner ++ [jump])) loops) := by
  have put : (ofList (is ++ [guard] ++ inner) loops).emit jump =
      ofList (is ++ (guard :: inner ++ [jump])) loops := by
    rw [emit_ofList]
    simp
  rw [put, here_ofList, length_guarded]
  exact patch_ofList _ is (inner ++ [jump]) guard loops

/-- A loop completes the jump at its head and goes back to it behind its body.  Its `else` part stands
outside of it, and the jumps of `break` wait until that is put down. -/
theorem loop_ofList {kind : LoopKind} {guard : Instr} {inner : List Instr}
    (body : f (ofList (is ++ [guard]) (⟨kind, is.length, []⟩ :: loops)) =
      .ok (ofList (is ++ [guard] ++ inner) (⟨kind, is.length, waiting⟩ :: loops))) :
    loop kind is.length f g (ofList (is ++ [guard]) loops) =
      (g (ofList (is ++ (guard.retarget (is.length + 2 + inner.length) :: inner ++
        [.jump is.length])) loops)).bind fun d => d.patchAll d.here waiting := by
  change (f (ofList (is ++ [guard]) (⟨kind, is.length, []⟩ :: loops))).bind _ = _
  rw [body]
  change (((ofList (is ++ [guard] ++ inner) loops).emit (.jump is.length)).patch
    ((ofList (is ++ [guard] ++ inner) loops).emit (.jump is.length)).here is.length).bind _ = _
  rw [patch_emit_ofList]
  rfl

/-- Behind its `else` part, a loop completes the jumps of `break` in its body. -/
theorem breaks_ofList {inner inner' tail : List Instr}
    (completes : Completes waiting (is.length + 2 + inner.length + tail.length) (is.length + 1)
      inner inner') (guard : Instr) (loops : List OpenLoop) :
    (ofList (is ++ (guard :: inner ++ [.jump is.length]) ++ tail) loops).patchAll
        (is ++ (guard :: inner ++ [Instr.jump is.length]) ++ tail).length waiting =
      .ok (ofList (is ++ (guard :: inner' ++ .jump is.length :: tail)) loops) := by
  have patched := completes.patched (is ++ [guard]) (.jump is.length :: tail) loops (by simp)
  rw [List.length_append, length_guarded]
  simpa only [List.append_assoc, List.cons_append, List.nil_append] using patched

/-- A stage for a loop.  Its body has the loop around it, and its `else` part what is around the
loop. -/
theorem Emits.loop (kind : LoopKind) (guard : Instr) (body : Emits f stray? code)
    (orelse : Emits g stray?' code') :
    Emits (fun d => loop kind d.here f g (d.emit guard))
      (fun inLoop => (stray? true).or (stray?' inLoop))
      (fun loop pc =>
        let otherwise := pc + 2 + (code (some ⟨kind, pc, 0⟩) (pc + 1)).length
        let exit := otherwise + (code' loop otherwise).length
        guard.retarget otherwise :: code (some ⟨kind, pc, exit⟩) (pc + 1) ++
          .jump pc :: code' loop otherwise) where
  stops := fun is loops fault found => by
    rw [emit_ofList, here_ofList]
    rcases Option.or_eq_some_iff.1 found with found | ⟨clean, found⟩
    · change (f (ofList (is ++ [guard]) (⟨kind, is.length, []⟩ :: loops))).bind _ = _
      rw [body.stops (is ++ [guard]) (⟨kind, is.length, []⟩ :: loops) fault found]
      rfl
    · obtain ⟨waiting, puts, -⟩ :=
        body.goesOn (is ++ [guard]) (⟨kind, is.length, []⟩ :: loops) clean
      rw [loop_ofList puts, orelse.stops _ _ fault found]
      rfl
  goesOn := fun is loops clean => by
    obtain ⟨clean, clean'⟩ := Option.or_eq_none_iff.1 clean
    obtain ⟨waiting, puts, completes⟩ :=
      body.goesOn (is ++ [guard]) (⟨kind, is.length, []⟩ :: loops) clean
    rw [List.length_append, List.length_singleton] at puts completes
    generalize inner_eq : code (frame? (⟨kind, is.length, []⟩ :: loops) 0) (is.length + 1) = inner
      at puts completes
    have inner_eq : code (some ⟨kind, is.length, 0⟩) (is.length + 1) = inner := inner_eq
    obtain ⟨waiting', puts', completes'⟩ := orelse.goesOn
      (is ++ (guard.retarget (is.length + 2 + inner.length) :: inner ++ [.jump is.length]))
      loops clean'
    rw [length_guarded] at puts' completes'
    refine ⟨waiting', ?_, fun exit => ?_⟩
    -- the jumps of `break` get the end of the loop, which is known behind the `else` part
    · rw [emit_ofList, here_ofList, loop_ofList puts, puts']
      refine (breaks_ofList (completes _) _ _).trans ?_
      rw [inner_eq]
      rfl
    · rw [inner_eq]
      dsimp only
      rw [(completes' exit).length_eq]
      have length_body (exit : Nat) :
          (code (some ⟨kind, is.length, exit⟩) (is.length + 1)).length = inner.length :=
        (completes exit).length_eq
      have behind : Completes waiting' exit is.length _ _ := (completes' exit).behind
        (guard.retarget (is.length + 2 + inner.length) ::
          code (some ⟨kind, is.length, is.length + 2 + inner.length +
            (code' (frame? loops 0) (is.length + 2 + inner.length)).length⟩) (is.length + 1) ++
          [.jump is.length])
        (by simp [length_body]; omega)
      simpa only [List.append_assoc, List.cons_append, List.nil_append] using behind

/-- A choice completes the jump in front of its first part, and goes on with the second. -/
theorem choice_ofList {guard : Instr} {inner : List Instr} {loops' : List OpenLoop}
    (body : f (ofList (is ++ [guard]) loops) = .ok (ofList (is ++ [guard] ++ inner) loops')) :
    choice guard f g (ofList is loops) =
      (g (ofList (is ++ (guard.retarget (is.length + 2 + inner.length) :: inner ++
        [.jump 0])) loops')).bind fun d => d.patch d.here (is.length + 1 + inner.length) := by
  have skipElse : (ofList (is ++ [guard] ++ inner) loops').here = is.length + 1 + inner.length := by
    rw [here_ofList, List.length_append, List.length_append, List.length_singleton]
  rw [choice, emit_ofList, body]
  change (((ofList (is ++ [guard] ++ inner) loops').emit (.jump 0)).patch
    ((ofList (is ++ [guard] ++ inner) loops').emit (.jump 0)).here is.length).bind _ = _
  rw [patch_emit_ofList, skipElse]
  rfl

/-- Behind its second part, a choice completes the jump over it. -/
theorem skipElse_ofList (is inner tail : List Instr) (guard : Instr) (loops : List OpenLoop) :
    (ofList (is ++ (guard :: inner ++ [.jump 0]) ++ tail) loops).patch
        (is ++ (guard :: inner ++ [Instr.jump 0]) ++ tail).length (is.length + 1 + inner.length) =
      .ok (ofList (is ++ (guard :: inner ++
        .jump (is.length + 2 + inner.length + tail.length) :: tail)) loops) := by
  have patched := patch_ofList (is.length + 2 + inner.length + tail.length) (is ++ [guard] ++ inner)
    tail (.jump 0) loops
  rw [List.length_append, List.length_append, List.length_singleton] at patched
  rw [List.length_append, length_guarded]
  simpa only [List.append_assoc, List.cons_append, List.nil_append, Instr.retarget] using patched

/-- A stage for a choice. -/
theorem Emits.choice (guard : Instr) (body : Emits f stray? code)
    (orelse : Emits g stray?' code') :
    Emits (choice guard f g) (fun inLoop => (stray? inLoop).or (stray?' inLoop))
      (fun loop pc =>
        let otherwise := pc + 2 + (code loop (pc + 1)).length
        guard.retarget otherwise :: code loop (pc + 1) ++
          .jump (otherwise + (code' loop otherwise).length) :: code' loop otherwise) where
  stops := fun is loops fault found => by
    rcases Option.or_eq_some_iff.1 found with found | ⟨clean, found⟩
    · rw [Draft.choice, emit_ofList, body.stops _ _ fault found]
      rfl
    · obtain ⟨waiting, puts, -⟩ := body.goesOn (is ++ [guard]) loops clean
      rw [choice_ofList puts, orelse.stops _ _ fault (by rwa [isEmpty_awaitAll])]
      rfl
  goesOn := fun is loops clean => by
    obtain ⟨clean, clean'⟩ := Option.or_eq_none_iff.1 clean
    obtain ⟨waiting, puts, completes⟩ := body.goesOn (is ++ [guard]) loops clean
    rw [List.length_append, List.length_singleton] at puts completes
    generalize inner_eq : code (frame? loops 0) (is.length + 1) = inner at puts completes
    obtain ⟨waiting', puts', completes'⟩ := orelse.goesOn
      (is ++ (guard.retarget (is.length + 2 + inner.length) :: inner ++ [.jump 0]))
      (awaitAll waiting loops) (by rwa [isEmpty_awaitAll])
    rw [length_guarded] at puts' completes'
    simp only [frame?_awaitAll, awaitAll_awaitAll] at puts' completes'
    refine ⟨waiting ++ waiting', ?_, fun exit => ?_⟩
    · rw [choice_ofList puts, puts']
      exact skipElse_ofList is inner _ _ _
    · dsimp only
      rw [(completes exit).length_eq, (completes' exit).length_eq]
      have behind : Completes waiting' exit (is.length + 1 + inner.length) _ _ :=
        (completes' exit).behind [.jump (is.length + 2 + inner.length +
          (code' (frame? loops 0) (is.length + 2 + inner.length)).length)]
          (by simp; omega)
      exact ((completes exit).append behind).behind [_] rfl

/-- `break` waits for the end of the loop around it. -/
theorem Emits.breakLoop (span : Span) :
    Emits (statement (.breakLoop span)) (Stmt.stray? · (.breakLoop span))
      (fun loop _ => Stmt.breakCode loop) where
  stops := fun is loops fault found => by
    cases loops with
    | nil => exact congrArg Except.error (Option.some.inj found)
    | cons inner outer => cases found
  goesOn := fun is loops clean => by
    rcases loops with - | ⟨⟨kind, head, breaks⟩, outer⟩
    · cases clean
    · cases kind with
      | condition =>
        exact ⟨[is.length],
          by simp [statement, await, awaitAll, frame?, Stmt.breakCode, ofList, emit, here],
          fun exit => .jump exit is.length⟩
      | items =>
        exact ⟨[is.length + 1],
          by simp [statement, await, awaitAll, frame?, Stmt.breakCode, ofList, emit, here],
          fun exit => (Completes.jump exit (is.length + 1)).behind [.iterPop] rfl⟩

/-- `continue` goes to the head of the loop around it. -/
theorem Emits.continueLoop (span : Span) :
    Emits (statement (.continueLoop span)) (Stmt.stray? · (.continueLoop span))
      (fun loop _ => Stmt.continueCode loop) where
  stops := fun is loops fault found => by
    cases loops with
    | nil => exact congrArg Except.error (Option.some.inj found)
    | cons inner outer => cases found
  goesOn := fun is loops clean => by
    cases loops with
    | nil => cases clean
    | cons inner outer =>
      exact ⟨[], by rw [awaitAll_nil]; exact congrArg Except.ok (emit_ofList ..),
        fun exit => .refl exit is.length _⟩

/-! ## The pass -/

mutual

/-- The pass over a statement. -/
theorem emits_statement (s : Stmt) :
    Emits (statement s) (Stmt.stray? · s) (fun loop pc => Stmt.code loop pc s) := by
  cases s with
  | breakLoop span =>
    exact (Emits.breakLoop span).of_eq rfl (fun _ => rfl) fun _ _ => by rw [Stmt.code]
  | continueLoop span =>
    exact (Emits.continueLoop span).of_eq rfl (fun _ => rfl) fun _ _ => by rw [Stmt.code]
  | branch span test body orelse =>
    have hbody := emits_statements body
    cases orelse with
    | nil =>
      refine (hbody.skippable (.jumpIfFalse test 0)).of_eq rfl (fun inLoop => ?_) fun loop pc => ?_
      · simp [Stmt.stray?, Stmt.strayIn?]
      · simp [Stmt.code, Stmt.length_codes, Instr.retarget]
    | cons s rest =>
      have horelse := emits_statements (s :: rest)
      refine (hbody.choice (.jumpIfFalse test 0) horelse).of_eq rfl (fun inLoop => ?_)
        fun loop pc => ?_
      · rw [Stmt.stray?]
      · simp [Stmt.code, Stmt.length_codes, Instr.retarget]
  -- Both loops are one draft: a guard, a body that jumps back to it, and the `else` part.
  | whileLoop span test body orelse =>
    refine ((emits_statements body).loop .condition (.jumpIfFalse test 0)
      (emits_statements orelse)).of_eq rfl (fun inLoop => ?_) fun loop pc => ?_
    · rw [Stmt.stray?]
    · simp [Stmt.code, Stmt.length_codes, Instr.retarget]
  | forLoop span isAsync target iter body orelse =>
    cases isAsync with
    | true => exact .single _
    | false =>
      refine ((Emits.single (.iterInit iter)).andThen ((emits_statements body).loop .items
        (.iterNext target 0) (emits_statements orelse))).of_eq rfl (fun inLoop => ?_)
        fun loop pc => ?_
      · rw [Stmt.stray?]
        rfl
      · simp [Stmt.code, Stmt.length_codes, Instr.retarget]
  | annAssign span target typeHint value =>
    cases value with
    | none => exact .nothing
    | some value => exact .single _
  | pass span => exact .nothing
  | _ => exact .single _

/-- The pass over neighbouring statements. -/
theorem emits_statements (ss : List Stmt) :
    Emits (statements ss) (Stmt.strayIn? · ss) (fun loop pc => Stmt.codes loop pc ss) := by
  cases ss with
  | nil => exact .nothing
  | cons s rest =>
    refine ((emits_statement s).andThen (emits_statements rest)).of_eq rfl (fun inLoop => ?_)
      fun loop pc => ?_
    · rw [Stmt.strayIn?]
    · rw [Stmt.codes, Stmt.length_code]

end

end Draft

/-- The program of a module is laid out from the lengths of its parts, unless something in it is
stray. -/
theorem Module.compile_eq_layout (m : Module) :
    m.compile = match Stmt.strayIn? false m.body with
      | some fault => .error fault
      | none => .ok ⟨(Stmt.codes none 0 m.body).toArray⟩ := by
  have pass := Draft.emits_statements m.body
  rw [compile, show Draft.empty = .ofList [] [] from rfl]
  split
  next fault found => rw [pass.stops [] [] fault found]; rfl
  next clean =>
    obtain ⟨waiting, puts, -⟩ := pass.goesOn [] [] clean
    rw [puts]
    rfl

end BlockEditor
