import BlockEditor.Machine.Program

/-!
# The layout of code

The code of a statement is laid out from the lengths of its parts, so that every jump target is known
beforehand.
-/

namespace BlockEditor

/-! ## Loops -/

/-- The innermost loop around a statement: where `continue` and `break` go. -/
structure LoopFrame where
  kind : LoopKind
  head : Nat
  exit : Nat

/-! ## Stray statements -/

namespace Stmt

mutual

/-- The first `break` or `continue` of a statement, in the order of the text, that stands in no
loop, given whether the statement itself stands in one.  The `else` part of a loop is outside it. -/
def stray? (inLoop : Bool) : Stmt → Option Fault
  | .breakLoop span => if inLoop then none else some ⟨.outsideLoop "break", span⟩
  | .continueLoop span => if inLoop then none else some ⟨.outsideLoop "continue", span⟩
  | .branch _ _ body orelse => (strayIn? inLoop body).or (strayIn? inLoop orelse)
  | .whileLoop _ _ body orelse => (strayIn? true body).or (strayIn? inLoop orelse)
  | .forLoop _ false _ _ body orelse => (strayIn? true body).or (strayIn? inLoop orelse)
  | _ => none

/-- The first stray `break` or `continue` of neighbouring statements. -/
def strayIn? (inLoop : Bool) : List Stmt → Option Fault
  | [] => none
  | s :: rest => (stray? inLoop s).or (strayIn? inLoop rest)

end

/-! ## Layout -/

mutual

/-- Number of instructions in the code of a statement, given the kind of the loop around it. -/
def codeSize (loop : Option LoopKind) : Stmt → Nat
  | .pass _ => 0
  | .annAssign _ _ _ none => 0
  | .breakLoop _ => if loop = some .items then 2 else 1
  | .branch _ _ body [] => 1 + codeSizes loop body
  | .branch _ _ body orelse => 2 + codeSizes loop body + codeSizes loop orelse
  | .whileLoop _ _ body orelse => 2 + codeSizes (some .condition) body + codeSizes loop orelse
  | .forLoop _ false _ _ body orelse => 3 + codeSizes (some .items) body + codeSizes loop orelse
  | _ => 1

/-- Number of instructions in the code of neighbouring statements. -/
def codeSizes (loop : Option LoopKind) : List Stmt → Nat
  | [] => 0
  | s :: rest => codeSize loop s + codeSizes loop rest

end

/-! ## Code -/

/-- The code of `break` in a loop; one over items drops its cursor first. -/
def breakCode : Option LoopFrame → List Instr
  | some ⟨.items, _, exit⟩ => [.iterPop, .jump exit]
  | some ⟨.condition, _, exit⟩ => [.jump exit]
  | none => [.jump 0]

/-- The code of `continue` in a loop. -/
def continueCode : Option LoopFrame → List Instr
  | some frame => [.jump frame.head]
  | none => [.jump 0]

mutual

/-- The code of a statement that starts at the position `pc`. -/
def code (loop : Option LoopFrame) (pc : Nat) : Stmt → List Instr
  | .expr _ value => [.exec value]
  | .assign _ targets value => [.assign targets value]
  | .annAssign _ target _ (some value) => [.assign [target] value]
  | .annAssign _ _ _ none => []
  | .pass _ => []
  | .augAssign span target op value => [.augAssign span target op value]
  | .delete _ targets => [.delete targets]
  | .assert span test message => [.assert span test message]
  | .breakLoop _ => breakCode loop
  | .continueLoop _ => continueCode loop
  | .branch _ test body [] =>
    let stop := pc + 1 + codeSizes (loop.map LoopFrame.kind) body
    .jumpIfFalse test stop :: codes loop (pc + 1) body
  | .branch _ test body orelse =>
    let kind := loop.map LoopFrame.kind
    let otherwise := pc + 2 + codeSizes kind body
    .jumpIfFalse test otherwise :: codes loop (pc + 1) body ++
      .jump (otherwise + codeSizes kind orelse) :: codes loop otherwise orelse
  | .whileLoop _ test body orelse =>
    let otherwise := pc + 2 + codeSizes (some .condition) body
    let exit := otherwise + codeSizes (loop.map LoopFrame.kind) orelse
    .jumpIfFalse test otherwise :: codes (some ⟨.condition, pc, exit⟩) (pc + 1) body ++
      .jump pc :: codes loop otherwise orelse
  | .forLoop _ false target iter body orelse =>
    let otherwise := pc + 3 + codeSizes (some .items) body
    let exit := otherwise + codeSizes (loop.map LoopFrame.kind) orelse
    .iterInit iter :: .iterNext target otherwise ::
      codes (some ⟨.items, pc + 1, exit⟩) (pc + 2) body ++
      .jump (pc + 1) :: codes loop otherwise orelse
  | s => [.unsupported s.span s.form]

/-- The code of neighbouring statements, the first of which starts at the position `pc`. -/
def codes (loop : Option LoopFrame) (pc : Nat) : List Stmt → List Instr
  | [] => []
  | s :: rest =>
    code loop pc s ++ codes loop (pc + codeSize (loop.map LoopFrame.kind) s) rest

end

mutual

/-- The code of a statement has the length that its layout plans. -/
theorem length_code (loop : Option LoopFrame) (pc : Nat) (s : Stmt) :
    (code loop pc s).length = codeSize (loop.map LoopFrame.kind) s := by
  cases s with
  | branch span test body orelse =>
    have hbody := length_codes loop (pc + 1) body
    cases orelse with
    | nil =>
      simp only [code, codeSize, List.length_cons, hbody]
      omega
    | cons s rest =>
      have horelse := length_codes loop
        (pc + 2 + codeSizes (loop.map LoopFrame.kind) body) (s :: rest)
      simp only [code, codeSize, List.length_cons, List.length_append, hbody, horelse]
      omega
  | whileLoop span test body orelse =>
    simp only [code, codeSize, List.length_cons, List.length_append, length_codes]
    simp
    omega
  | forLoop span isAsync target iter body orelse =>
    cases isAsync with
    | true => simp [code, codeSize]
    | false =>
      simp only [code, codeSize, List.length_cons, List.length_append, length_codes]
      simp
      omega
  | annAssign span target typeHint value => cases value <;> simp [code, codeSize]
  | breakLoop span =>
    rcases loop with - | ⟨⟨-⟩ | ⟨-⟩, head, exit⟩ <;> simp [code, codeSize, breakCode]
  | continueLoop span => cases loop <;> simp [code, codeSize, continueCode]
  | _ => simp [code, codeSize]

/-- The code of neighbouring statements has the length that its layout plans. -/
theorem length_codes (loop : Option LoopFrame) (pc : Nat) (ss : List Stmt) :
    (codes loop pc ss).length = codeSizes (loop.map LoopFrame.kind) ss := by
  cases ss with
  | nil => simp [codes, codeSizes]
  | cons s rest =>
    simp only [codes, codeSizes, List.length_append, length_code, length_codes]

end

end Stmt

end BlockEditor
