import BlockEditor.Proofs.KeptLiterals

/-!
# Regenerated programs

A program that is translated without omissions, and works on literals only, does the same as the code
of its document, as long as the numbers that it prints and counts to are kept, and the numbers that
it tests are finite.  A number is not kept if it comes back as another number, or as one of another
type: whole floats below the limit of words are written as integers.
-/

namespace BlockEditor

/-! ## Programs that work on literals -/

/-- Whether the arguments of an expression that calls something are literals whose numbers pass a
test. -/
def Expr.literalArguments (test : Constant → Bool) : Expr → Bool
  | .call _ _ args _ => args.all (isLiteral test)
  | _ => true

namespace Stmt

mutual

/-- Whether a statement prints, counts to, tests and assigns literals only.  The numbers that it prints
or counts to pass a test, and the numbers that it tests pass another one. -/
def hasLiterals (shown tested : Constant → Bool) : Stmt → Bool
  | .expr _ value => value.literalArguments shown
  | .assign _ _ value => value.isLiteral Constant.isNumber
  | .branch _ test body orelse => test.isLiteral tested && hasLiteralsIn shown tested body &&
    hasLiteralsIn shown tested orelse
  | .forLoop _ _ _ iter body orelse => iter.literalArguments shown &&
    hasLiteralsIn shown tested body && hasLiteralsIn shown tested orelse
  | _ => true

/-- Whether neighbouring statements print, count to, test and assign literals only. -/
def hasLiteralsIn (shown tested : Constant → Bool) : List Stmt → Bool
  | [] => true
  | s :: rest => hasLiterals shown tested s && hasLiteralsIn shown tested rest

end

end Stmt

/-! ## Translation without omissions -/

/-- An expression with a name is that name. -/
theorem Expr.exists_of_name? {e : Expr} {id : String} (h : e.name? = some id) :
    ∃ span, e = .name span id := by
  cases e with
  | name span other =>
    cases h
    exact ⟨span, rfl⟩
  | _ => cases h

/-- What is accepted as the items of a loop is a call of `range` with a literal. -/
theorem Expr.exists_of_rangeBound {e : Expr} {n : Int64} (h : e.rangeBound = .ok n) :
    ∃ call func span, e = .call call (.name func "range") [.constant span (.int n)] [] ∧ 0 ≤ n := by
  unfold rangeBound at h
  split at h
  · rename_i call callee args keywords
    split at h
    · rename_i called
      rw [Bool.and_eq_true, decide_eq_true_eq, List.isEmpty_iff] at called
      obtain ⟨func, rfl⟩ := exists_of_name? called.1
      rw [called.2]
      split at h
      · rename_i span n
        split at h
        · rename_i nonneg
          cases h
          exact ⟨call, func, span, rfl, nonneg⟩
        · cases h
      · cases h
      · cases h
    · cases h
  · cases h

namespace Stmt

/-- A statement is translated into a block, and nothing in it is left out. -/
inductive Complete : Stmt → Block → Prop
  | print {span call func : Span} {arg : Expr} :
    Complete (.expr span (.call call (.name func "print") [arg] [])) (Block.ofPrint arg.block?)
  | assign {span target : Span} {id : String} {value : Expr} :
    Complete (.assign span [.name target id] value) (Block.ofAssign id value.block?)
  | branch {span : Span} {test : Expr} {body : List Stmt} : (translateAll body).2 = [] →
    Complete (.branch span test body []) (Block.ofBranch test.block? (translateAll body).1)
  | loop {span target call func bound : Span} {id : String} {n : Int64} {body : List Stmt} :
    0 ≤ n → (translateAll body).2 = [] →
      Complete (.forLoop span false (.name target id)
          (.call call (.name func "range") [.constant bound (.int n)] []) body [])
        (Block.ofLoop id (Float.ofInt n.toInt) (translateAll body).1)

/-- If no `else` part is left out, there is none. -/
theorem orelse_eq_nil {s : Stmt} {orelse : List Stmt} (h : s.droppedElse orelse = []) :
    orelse = [] := by
  cases orelse with
  | nil => rfl
  | cons first rest =>
    unfold droppedElse at h
    rw [List.head?_cons, List.getLast?_cons] at h
    cases h

/-- What becomes a block for a call is a call of `print` with a single argument. -/
theorem exists_of_callBlock {e : Expr} {b : Block} (h : callBlock e = .ok b) :
    ∃ call func arg, e = .call call (.name func "print") [arg] [] ∧ b = Block.ofPrint arg.block? := by
  unfold callBlock at h
  split at h
  · rename_i call callee args keywords
    split at h
    · rename_i called
      obtain ⟨func, rfl⟩ := Expr.exists_of_name? called
      unfold printBlock at h
      split at h
      · cases h
      · rename_i none
        obtain rfl : keywords = [] := by simpa using none
        split at h
        · cases h
          exact ⟨_, _, _, rfl, rfl⟩
        · cases h
    · cases h
  · cases h

/-- What becomes a block for an assignment assigns to a single name. -/
theorem exists_of_assignBlock {targets : List Expr} {value : Expr} {b : Block}
    (h : assignBlock targets value = .ok b) :
    ∃ target id, targets = [.name target id] ∧ b = Block.ofAssign id value.block? := by
  unfold assignBlock at h
  split at h
  · split at h
    · rename_i named
      obtain ⟨target, rfl⟩ := Expr.exists_of_name? named
      cases h
      exact ⟨_, _, rfl, rfl⟩
    · cases h
  · cases h

/-- If no statement is left out, its block was made. -/
theorem exists_of_keep {s : Stmt} {r : Except DropReason Block} (h : (s.keep r).2 = []) :
    ∃ b, r = .ok b ∧ (s.keep r).1 = some b := by
  cases r with
  | ok b => exact ⟨b, rfl, rfl⟩
  | error reason => cases h

/-- A statement without omissions is translated into a block as a whole. -/
theorem exists_complete (s : Stmt) (h : (translate s).2 = []) :
    ∃ b, (translate s).1 = some b ∧ Complete s b := by
  cases s with
  | expr span e =>
    obtain ⟨b, called, kept⟩ := exists_of_keep h
    obtain ⟨call, func, arg, rfl, rfl⟩ := exists_of_callBlock called
    exact ⟨_, kept, .print⟩
  | assign span targets value =>
    obtain ⟨b, assigned, kept⟩ := exists_of_keep h
    obtain ⟨target, id, rfl, rfl⟩ := exists_of_assignBlock assigned
    exact ⟨_, kept, .assign⟩
  | branch span test body orelse =>
    obtain ⟨inside, behind⟩ := List.append_eq_nil_iff.1 h
    obtain rfl := orelse_eq_nil behind
    exact ⟨_, rfl, .branch inside⟩
  | forLoop span isAsync target iter body orelse =>
    cases isAsync with
    | true => cases h
    | false =>
      rw [translate] at h ⊢
      cases e : loopBlock target iter with
      | error reason =>
        rw [e] at h
        cases h
      | ok b =>
        rw [e] at h
        obtain ⟨inside, behind⟩ := List.append_eq_nil_iff.1 h
        obtain rfl := orelse_eq_nil behind
        obtain ⟨id, n, named, bound, block⟩ := exists_of_loopBlock e
        obtain ⟨span, rfl⟩ := Expr.exists_of_name? named
        obtain ⟨call, func, at', rfl, nonneg⟩ := Expr.exists_of_rangeBound bound
        exact ⟨_, congrArg some (block _), .loop nonneg inside⟩
  | _ => cases h

/-! ## Twins -/

open Block (Mirrors AllMirror BodyMirrors)

/-- What is written back for a bound that is kept is the bound itself. -/
theorem hasValue_of_isNatural {n : Int64} {e : Expr} (kept : (Constant.int n).isKept = true)
    (natural : e.IsNatural (Number.fieldLayout.text (Float.ofInt n.toInt))) :
    e.HasValue (.int n) := by
  obtain ⟨nonneg, reads⟩ := Constant.isKept_int.1 kept
  obtain ⟨span, k, reads', rfl⟩ := natural
  obtain rfl : n.toInt.toNat = k := Option.some.inj (reads.symm.trans reads')
  have whole : n.toInt = (n.toInt.toNat : Int) := (Int.toNat_of_nonneg (Int64.le_iff_toInt_le.1 nonneg)).symm
  rw [naturalConstant, (Number.toInt64?_eq_some_iff _ n).2 whole]
  exact fun g => rfl

mutual

/-- A statement without omissions is a twin of the one in the code of its block. -/
theorem Complete.twin (s : Stmt) {b : Block} {s' : Stmt} (complete : Complete s b)
    (identified : s.Identified) (literals : s.hasLiterals Constant.isKept Constant.isFinite = true)
    (mirrors : Mirrors b s') (kept : s'.NumbersKept) : Twin s s' := by
  cases complete with
  | print =>
    obtain ⟨span, call, func, arg', rfl, slot⟩ := mirrors.of_print (Block.kind_withValue ..)
    rw [hasLiterals, Expr.literalArguments, List.all_cons, List.all_nil, Bool.and_true] at literals
    obtain ⟨v, has, has'⟩ :=
      Block.hasValue_of_isKept (Block.value?_withValue _ _ _ rfl) slot kept literals
    exact .print has has'
  | @assign _ target id value =>
    -- The block keeps the name as a text, and an empty one would stand for a default.
    have nonempty := Block.ne_empty_of_isIdentifier (identified (.name target id) (by simp) id rfl)
    obtain ⟨span, target', value', rfl, slot⟩ := mirrors.of_assign (Block.kind_withValue ..)
    rw [Block.variableOf_ofAssign nonempty]
    obtain ⟨v, has, data⟩ := Expr.exists_hasValue literals
    obtain ⟨v', has', data'⟩ := Block.exists_hasValue slot kept rfl
    exact .assign has data has' data'
  | @branch _ test body inside =>
    obtain ⟨span, test', body', rfl, slot, mirrored⟩ := mirrors.of_branch (Block.kind_withValue ..)
    rw [hasLiterals, Bool.and_eq_true, Bool.and_eq_true] at literals
    rw [Block.ofBranch, Block.bodyOf_withStatements] at mirrored
    obtain ⟨v, v', has, has', same⟩ :=
      Block.truthy_of_isFinite (Block.value?_withValue _ _ _ rfl) slot kept.1 literals.1.1
    exact .branch has has' same
      (twins_of_bodyMirrors body inside identified literals.1.2 mirrored kept.2)
  | @loop _ target call func bound id n body nonneg inside =>
    have nonempty := Block.ne_empty_of_isIdentifier (identified.1 id rfl)
    obtain ⟨span, target', call', func', bound', body', rfl, -, natural, mirrored⟩ :=
      mirrors.of_loop rfl
    rw [hasLiterals, Bool.and_eq_true, Bool.and_eq_true, Expr.literalArguments, List.all_cons,
      List.all_nil, Bool.and_true] at literals
    rw [Block.ofLoop, Block.bodyOf_withStatements] at mirrored
    rw [Block.variableOf_ofLoop nonempty]
    exact .loop (fun g => rfl) (hasValue_of_isNatural literals.1.1 natural)
      (twins_of_bodyMirrors body inside identified.2 literals.1.2 mirrored kept)

/-- Neighbouring statements without omissions are twins of those in the code of their blocks. -/
theorem twins_of_allMirror (ss : List Stmt) {ss' : List Stmt} (complete : (translateAll ss).2 = [])
    (identified : AllIdentified ss)
    (literals : hasLiteralsIn Constant.isKept Constant.isFinite ss = true)
    (mirrors : AllMirror (translateAll ss).1 ss') (kept : AllNumbersKept ss') : AllTwins ss ss' := by
  cases ss with
  | nil =>
    cases mirrors
    exact .nil
  | cons s ss =>
    obtain ⟨here, there⟩ := List.append_eq_nil_iff.1 complete
    obtain ⟨b, block, whole⟩ := exists_complete s here
    rw [hasLiteralsIn, Bool.and_eq_true] at literals
    have mirrors : AllMirror ((translate s).1.toList ++ (translateAll ss).1) ss' := mirrors
    rw [block] at mirrors
    cases mirrors with
    | cons first others =>
      exact .cons (Complete.twin s whole identified.1 literals.1 first kept.1)
        (twins_of_allMirror ss there identified.2 literals.2 others kept.2)

/-- A body without omissions is a twin of the body in the code of its blocks. -/
theorem twins_of_bodyMirrors (ss : List Stmt) {ss' : List Stmt} (complete : (translateAll ss).2 = [])
    (identified : AllIdentified ss)
    (literals : hasLiteralsIn Constant.isKept Constant.isFinite ss = true)
    (mirrors : BodyMirrors (translateAll ss).1 ss') (kept : AllNumbersKept ss') : AllTwins ss ss' := by
  generalize blocks : (translateAll ss).1 = bs at mirrors
  cases mirrors with
  | empty =>
    cases ss with
    | nil => exact .pass
    | cons s ss =>
      obtain ⟨b, block, -⟩ := exists_complete s (List.append_eq_nil_iff.1 complete).1
      have blocks : (translate s).1.toList ++ (translateAll ss).1 = [] := blocks
      rw [block] at blocks
      cases blocks
  | blocks all => exact twins_of_allMirror ss complete identified literals (blocks ▸ all) kept

end

end Stmt

/-! ## Sources -/

namespace Source

/-- A program that is translated without omissions and works on literals does the same as the code
of its document, as long as the numbers that it prints and counts to are kept and the numbers that it
tests are finite: both print the same, and both are complete or fail in the same way. -/
theorem runs_code_alike {s : Source} {t : Translation} {mod : Module} (translated : s.translate = .ok t)
    (complete : t.dropped = []) (parsed : s.parse = .ok mod)
    (literals : Stmt.hasLiteralsIn Constant.isKept Constant.isFinite mod.body = true)
    (name : String) : ∃ p p' r r' m m', s.compile = .ok p ∧
      (Source.mk name t.document.code).compile = .ok p' ∧ p.Ends .fresh r m ∧ p'.Ends .fresh r' m' ∧
        m.output = m'.output ∧
        r.mapError (fun fault => fault.cause.kind) = r'.mapError fun fault => fault.cause.kind := by
  obtain ⟨t', again, blocks, dropped⟩ := exists_translate_of_parse parsed
  obtain rfl : t = t' := Except.ok.inj (translated.symm.trans again)
  obtain ⟨mod', parsed', mirrors, kept⟩ := t.document.parse_code_keeps
    (fun b member => (isTranslated_translate translated b member).sound) name
  rw [blocks] at mirrors
  rw [dropped] at complete
  have twins := Stmt.twins_of_allMirror mod.body complete (identified_parse parsed) literals mirrors kept
  obtain ⟨p, p', r, r', m, m', compiled, compiled', ends⟩ := Module.end_alike twins
  exact ⟨p, p', r, r', m, m', compile_of_parse parsed compiled, compile_of_parse parsed' compiled', ends⟩

/-- A branch in a loop, and a variable that takes the name of a function. -/
def takesName : Source :=
  ⟨standardInput,
    "for i in range(20):\n  if -1:\n    print(-2.5)\n  print(7)\nprint = 1e999\nprint('never')\n"⟩

/-- The sample does the same after it was regenerated. -/
theorem runs_code_alike_takesName : ∃ t mod, takesName.translate = .ok t ∧ t.dropped = [] ∧
    takesName.parse = .ok mod ∧
    Stmt.hasLiteralsIn Constant.isKept Constant.isFinite mod.body = true ∧
    ∃ p p' r r' m m', takesName.compile = .ok p ∧
      (mk standardInput t.document.code).compile = .ok p' ∧ p.Ends .fresh r m ∧ p'.Ends .fresh r' m' ∧
        m.output = m'.output ∧
        r.mapError (fun fault => fault.cause.kind) = r'.mapError fun fault => fault.cause.kind := by
  have computed : (match takesName.translate, takesName.parse with
      | .ok t, .ok mod => decide (t.dropped = []) &&
        Stmt.hasLiteralsIn Constant.isKept Constant.isFinite mod.body
      | _, _ => false) = true := by
    decide +kernel
  cases translated : takesName.translate with
  | error d =>
    rw [translated] at computed
    cases computed
  | ok t =>
    cases parsed : takesName.parse with
    | error d =>
      rw [translated, parsed] at computed
      cases computed
    | ok mod =>
      rw [translated, parsed] at computed
      obtain ⟨complete, literals⟩ := Bool.and_eq_true_iff.1 computed
      have complete := of_decide_eq_true complete
      exact ⟨t, mod, rfl, complete, rfl, literals,
        runs_code_alike translated complete parsed literals standardInput⟩

/-- A whole float, which is written back as an integer. -/
def printsOne : Source := ⟨standardInput, "print(1.0)\n"⟩

/-- The sample prints an integer after it was regenerated. -/
theorem not_runs_code_alike_printsOne : ∃ t mod p p' m m', printsOne.translate = .ok t ∧
    t.dropped = [] ∧ printsOne.parse = .ok mod ∧
    Stmt.hasLiteralsIn Constant.isNumber Constant.isNumber mod.body = true ∧
    printsOne.compile = .ok p ∧ (mk standardInput t.document.code).compile = .ok p' ∧
    p.Ends .fresh (.ok ()) m ∧ p'.Ends .fresh (.ok ()) m' ∧ m.output = "1.0\n" ∧
      m'.output = "1\n" := by
  have computed : (match printsOne.translate, printsOne.parse, printsOne.compile with
      | .ok t, .ok mod, .ok p =>
        decide (t.dropped = []) && Stmt.hasLiteralsIn Constant.isNumber Constant.isNumber mod.body &&
          match (mk standardInput t.document.code).compile with
          | .ok p' =>
            match p.advance 2 Machine.fresh.begin, p'.advance 2 Machine.fresh.begin with
            | .inr ⟨.ok (), _, m⟩, .inr ⟨.ok (), _, m'⟩ =>
              decide (m.output = "1.0\n" ∧ m'.output = "1\n")
            | _, _ => false
          | .error _ => false
      | _, _, _ => false) = true := by
    decide +kernel
  split at computed
  · rename_i t mod p translated parsed compiled
    obtain ⟨premises, runs⟩ := Bool.and_eq_true_iff.1 computed
    obtain ⟨complete, literals⟩ := Bool.and_eq_true_iff.1 premises
    split at runs
    · rename_i p' compiled'
      split at runs
      · rename_i m _ m' ran ran'
        obtain ⟨output, output'⟩ := of_decide_eq_true runs
        exact ⟨t, mod, p, p', m, m', translated, of_decide_eq_true complete, parsed, literals, compiled,
          compiled', ⟨2, _, ran⟩, ⟨2, _, ran'⟩, output, output'⟩
      · cases runs
    · cases runs
  · cases computed

end Source

end BlockEditor
