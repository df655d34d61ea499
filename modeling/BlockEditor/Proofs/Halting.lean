import BlockEditor.Proofs.CursorDepth

/-!
# Programs that halt

Without a `while`, every program comes to an end.  A loop over items visits what its cursor held
when it began, and nothing that its body does adds to that: a body works on the variables, leaves
the cursors around it as they are, and drops those of the loops in it.  The measure of a loop is
therefore the number of items that its cursor has left, below those of the loops around it.
-/

namespace BlockEditor

/-! ## Statements without `while` -/

namespace Stmt

mutual

/-- Whether a statement has a `while` that control can come to.  The body of a function, a class or
another form that has no code is never entered, and what stands in it does not count. -/
def hasWhile : Stmt → Bool
  | .whileLoop .. => true
  | .branch _ _ body orelse => hasWhileIn body || hasWhileIn orelse
  | .forLoop _ false _ _ body orelse => hasWhileIn body || hasWhileIn orelse
  | _ => false

/-- Whether one of neighbouring statements has a `while` that control can come to. -/
def hasWhileIn : List Stmt → Bool
  | [] => false
  | s :: rest => hasWhile s || hasWhileIn rest

end

end Stmt

/-! ## Cursors of statements -/

namespace Action

/-- A statement without parts leaves the loops over items alone. -/
theorem keepsCursors_effect {s : Stmt} (plain : s.isControl = false) : KeepsCursors s.effect := by
  cases s with
  | branch | whileLoop | breakLoop | continueLoop => cases plain
  | expr span value => exact (keepsCursors_evaluate value).bind fun _ => keepsCursors_pure ()
  | assign span targets value =>
    exact (keepsCursors_evaluate value).bind fun v =>
      keepsCursors_forM (fun target => keepsCursors_assign target v) targets
  | augAssign span target op value =>
    exact (keepsCursors_evaluate target).bind fun current =>
      (keepsCursors_evaluate value).bind fun operand =>
        (keepsCursors_ofResult span _).bind fun v => keepsCursors_assign target v
  | annAssign span target typeHint value =>
    cases value with
    | none => exact keepsCursors_pure ()
    | some value =>
      exact (keepsCursors_evaluate value).bind fun v => keepsCursors_assign target v
  | forLoop span isAsync =>
    cases isAsync with
    | false => cases plain
    | true => exact keepsCursors_fail _ _
  | assert span test message =>
    cases message with
    | none =>
      refine (keepsCursors_evaluate test).bind fun condition => ?_
      split
      · exact keepsCursors_pure ()
      · exact keepsCursors_fail _ _
    | some message =>
      refine (keepsCursors_evaluate test).bind fun condition => ?_
      split
      · exact keepsCursors_pure ()
      · exact (keepsCursors_evaluate message).bind fun v => keepsCursors_fail _ _
  | delete span targets => exact keepsCursors_deleteAll targets
  | pass => exact keepsCursors_pure ()
  | _ => exact keepsCursors_fail _ _

/-- A condition leaves the loops over items alone. -/
theorem keepsCursors_holds (test : Expr) : KeepsCursors (Guard.holds test).check :=
  (keepsCursors_evaluate test).bind fun _ => keepsCursors_pure _

/-- A loop over items begins with a cursor of its own. -/
theorem cursors_of_beginItems {e : Expr} {m m' : Machine}
    (begun : (beginItems e).runOn m = (.ok (), m')) :
    ∃ cursor, m'.cursors = cursor :: m.cursors := by
  have kept := keepsCursors_evaluate e m
  rw [beginItems, runOn_bind] at begun
  rcases ran : (evaluate e).runOn m with ⟨fault | v, m₁⟩
  · rw [ran] at begun
    cases begun
  · rw [ran] at begun kept
    cases start : ItemCursor.start v with
    | error cause =>
      simp only [start] at begun
      cases begun
    | ok cursor =>
      simp only [start] at begun
      cases begun
      exact ⟨cursor, congrArg (cursor :: ·) kept⟩

/-- Asking for the next item drops the cursor of the loop if none is left, and else leaves fewer
items behind it, whatever the item is assigned to. -/
theorem check_visit {target : Expr} {m m' : Machine} {cursor : ItemCursor}
    {rest : List ItemCursor} {b : Bool} (under : m.cursors = cursor :: rest)
    (asked : (Guard.visit target).check.runOn m = (.ok b, m')) :
    if b then ∃ cursor', m'.cursors = cursor' :: rest ∧ cursor.remaining = cursor'.remaining + 1
    else m'.cursors = rest := by
  have moved := runOn_nextItem under
  unfold Guard.check at asked
  cases next : cursor.next? with
  | none =>
    rw [next] at moved
    rw [runOn_bind_ok moved] at asked
    cases asked
    rfl
  | some visited =>
    obtain ⟨item, cursor'⟩ := visited
    rw [next] at moved
    rw [runOn_bind_ok moved] at asked
    obtain ⟨kept, rfl⟩ := (keepsCursors_assign target item).returns
      (Q := fun b => b = true) (fun _ => returns_pure rfl) _ m' b asked
    exact ⟨cursor', kept, ItemCursor.remaining_of_next? next⟩

end Action

/-! ## Pieces that come to an end -/

namespace Activity

/-- On the machine `m`, the piece `a` comes to an end, and leaves the cursors `cursors` unless it
fails. -/
def HaltsOn (a : Activity) (m : Machine) (cursors : List ItemCursor) : Prop :=
  ∃ q m', Runs a m q m' ∧ (m'.cursors = cursors ∨ ∃ fault, q = .failed fault)

/-- The piece `a` comes to an end on every machine, and leaves its cursors unless it fails. -/
def Halts (a : Activity) : Prop := ∀ m, HaltsOn a m m.cursors

variable {body orelse : List Stmt}

section Ends

variable {a b : Activity} {m n m' : Machine} {cursors : List ItemCursor} {fault : Fault}

/-- A piece that fails has come to an end. -/
theorem HaltsOn.fails (run : Runs a m (.failed fault) m') : HaltsOn a m cursors :=
  ⟨_, m', run, .inr ⟨fault, rfl⟩⟩

/-- A piece that ends as another one does comes to an end if that does. -/
theorem HaltsOn.extend (h : HaltsOn a m cursors)
    (around : ∀ {q m'}, Runs a m q m' → Runs b n q m') : HaltsOn b n cursors := by
  obtain ⟨q, m', run, kept⟩ := h
  exact ⟨q, m', around run, kept⟩

end Ends

/-- A statement without parts comes to an end. -/
theorem halts_effect {s : Stmt} (plain : s.isControl = false) : Halts (.one s) := by
  intro m
  have kept := Action.keepsCursors_effect plain m
  rcases ran : s.effect.runOn m with ⟨fault | ⟨⟩, m'⟩
  · exact .fails (.effectFails plain ran)
  · rw [ran] at kept
    exact ⟨_, m', .effect plain ran, .inl kept⟩

/-- Neighbouring statements come to an end if each of them does. -/
theorem Halts.cons {s : Stmt} {rest : List Stmt} (first : Halts (.one s))
    (others : Halts (.all rest)) : Halts (.all (s :: rest)) := by
  intro m
  obtain ⟨q, m₁, run, kept⟩ := first m
  by_cases next : q = .next
  · subst next
    rcases kept with kept | ⟨fault, failed⟩
    · rw [← kept]
      exact (others m₁).extend (.cons run)
    · cases failed
  · exact ⟨q, m₁, .stop next run, kept⟩

/-- A branch comes to an end if both of its parts do. -/
theorem Halts.branch {span : Span} {test : Expr} (inner : Halts (.all body))
    (outer : Halts (.all orelse)) : Halts (.one (.branch span test body orelse)) := by
  intro m
  have kept := Action.keepsCursors_holds test m
  rcases tested : (Guard.holds test).check.runOn m with ⟨fault | b, m₁⟩
  · exact .fails (.branchFails tested)
  · rw [tested] at kept
    have part : Halts (.all (if b then body else orelse)) := by
      cases b
      · exact outer
      · exact inner
    have kept : m₁.cursors = m.cursors := kept
    rw [← kept]
    exact (part m₁).extend (.branch tested)

/-- The passes of a loop over items come to an end if its parts do, and drop its cursor.  The
induction is on the number of items that the cursor has left. -/
theorem Halts.visit {target : Expr} (inner : Halts (.all body)) (outer : Halts (.all orelse))
    {rest : List ItemCursor} (left : Nat) {m : Machine} {cursor : ItemCursor}
    (under : m.cursors = cursor :: rest) (e : cursor.remaining = left) :
    HaltsOn (.loop (.visit target) body orelse) m rest := by
  induction left using Nat.strongRecOn generalizing m cursor with
  | ind left ih =>
    rcases asked : (Guard.visit target).check.runOn m with ⟨fault | b, m₁⟩
    · exact .fails (.guardFails asked)
    have moved := Action.check_visit under asked
    cases b with
    | false =>
      have dropped : m₁.cursors = rest := moved
      rw [← dropped]
      exact (outer m₁).extend (.orelse asked)
    | true =>
      obtain ⟨cursor', under', fewer⟩ := moved
      obtain ⟨q, m₂, run, kept⟩ := inner m₁
      rw [under'] at kept
      -- the body has left the cursor as it was, so the passes to come visit one item less
      have another (ended : q = .next ∨ q = .again) (under'' : m₂.cursors = cursor' :: rest) :
          HaltsOn (.loop (.visit target) body orelse) m rest :=
        (ih cursor'.remaining (by omega) under'' rfl).extend (.pass asked ended run)
      rcases kept with kept | ⟨fault, rfl⟩
      · cases q with
        | next => exact another (.inl rfl) kept
        | again => exact another (.inr rfl) kept
        | leave => exact ⟨.next, _, .left asked run, .inl (congrArg List.tail kept)⟩
        | failed fault => exact .fails (.passFails asked run)
      · exact .fails (.passFails asked run)

/-- A loop over items comes to an end if its parts do. -/
theorem Halts.forLoop {span : Span} {target iter : Expr} (inner : Halts (.all body))
    (outer : Halts (.all orelse)) :
    Halts (.one (.forLoop span false target iter body orelse)) := by
  intro m
  rcases begun : (Action.beginItems iter).runOn m with ⟨fault | ⟨⟩, m₁⟩
  · exact .fails (.forFails begun)
  · obtain ⟨cursor, under⟩ := Action.cursors_of_beginItems begun
    exact (inner.visit outer _ under rfl).extend (.forLoop begun)

mutual

/-- A statement without `while` comes to an end. -/
theorem halts_one (s : Stmt) (free : s.hasWhile = false) : Halts (.one s) := by
  cases s with
  | branch span test body orelse =>
    rw [Stmt.hasWhile, Bool.or_eq_false_iff] at free
    exact (halts_all body free.1).branch (halts_all orelse free.2)
  | whileLoop => cases free
  | forLoop span isAsync target iter body orelse =>
    cases isAsync with
    | true => exact halts_effect rfl
    | false =>
      rw [Stmt.hasWhile, Bool.or_eq_false_iff] at free
      exact (halts_all body free.1).forLoop (halts_all orelse free.2)
  | breakLoop => exact fun m => ⟨.leave, m, .breakLoop, .inl rfl⟩
  | continueLoop => exact fun m => ⟨.again, m, .continueLoop, .inl rfl⟩
  | _ => exact halts_effect rfl

/-- Neighbouring statements without `while` come to an end. -/
theorem halts_all (ss : List Stmt) (free : Stmt.hasWhileIn ss = false) : Halts (.all ss) := by
  cases ss with
  | nil => exact fun m => ⟨.next, m, .nil, .inl rfl⟩
  | cons s rest =>
    rw [Stmt.hasWhileIn, Bool.or_eq_false_iff] at free
    exact (halts_one s free.1).cons (halts_all rest free.2)

end

end Activity

/-! ## Programs -/

/-- How a program ends whose statements pass control on by `q`. -/
def Passage.result : Passage → Except Fault Unit
  | failed fault => .error fault
  | _ => .ok ()

namespace Module

variable {mod : Module} {p : Program}

/-- Where the statements of a module come to an end, its program does. -/
theorem ends_of_runs (h : mod.compile = .ok p) {m m' : Machine} {q : Passage}
    (run : Activity.Runs (.all mod.body) m q m') : p.Ends m q.result m' := by
  have arrives := run.arrives (placed_compile h)
  cases q with
  | next => exact ends_of_leads arrives
  | leave | again =>
    obtain ⟨frame, e, -⟩ := arrives
    cases e
  | failed fault => exact arrives 0

/-- A program without `while` halts: on every machine it ends after finitely many instructions,
either complete or with a failure. -/
theorem ends_of_hasWhileIn_eq_false (h : mod.compile = .ok p) (free : Stmt.hasWhileIn mod.body = false)
    (m : Machine) : ∃ r m', p.Ends m r m' := by
  obtain ⟨q, m', run, -⟩ := Activity.halts_all mod.body free m
  exact ⟨q.result, m', ends_of_runs h run⟩

/-- A loop that gives new values to its variable and to the variable with its items. -/
def growsItsItems : Module :=
  ⟨[.assign .none [.name .none "xs"] (.list .none [.constant .none (.int 1)]),
    .forLoop .none false (.name .none "x") (.name .none "xs")
      [.augAssign .none (.name .none "xs") .add (.name .none "xs"),
        .assign .none [.name .none "x"] (.constant .none (.int 0)), .continueLoop .none]
      [.pass .none]]⟩

/-- The loop ends, although its body gives new items to the variable that it goes over. -/
theorem ends_of_hasWhileIn_eq_false_growsItsItems :
    ∃ p, growsItsItems.compile = .ok p ∧ Stmt.hasWhileIn growsItsItems.body = false ∧
      ∃ r m', p.Ends .fresh r m' := by
  have compiled : growsItsItems.compile = .ok _ := rfl
  have free : Stmt.hasWhileIn growsItsItems.body = false := rfl
  exact ⟨_, compiled, free, ends_of_hasWhileIn_eq_false compiled free .fresh⟩

end Module

end BlockEditor
