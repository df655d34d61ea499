import BlockEditor.Proofs.Assignments
import BlockEditor.Proofs.Cancellation
import BlockEditor.Proofs.ReadValues

/-!
# Values read back

A program that assigns the text of a plain value to a name is parsed, runs to its end, and leaves in
the name a value that is equal to the one that was written.
-/

namespace BlockEditor

open LineGrammar

/-! ## Values in the layout -/

/-- The layout pass takes a text in front of a mark as it is, behind brackets that leave room for
the nesting of it. -/
def TakenAt (depth : Nat) (text : List Char) : Prop :=
  ∀ s before opened rest, InBrackets s 0 before opened [] → opened.length + depth ≤ maxNesting →
    AtMark rest → ∃ s', Takes s text rest s' ∧ InBrackets s' 0 (before ++ text) opened []

/-- A text without marks of the layout is taken at any depth. -/
theorem takenAt_plain {text : List Char} (plain : ∀ c ∈ text, c ∉ layoutMarks) (depth : Nat) :
    TakenAt depth text :=
  fun _ _ _ _ line _ _ => line.keepAll text plain

theorem takenAt_int (n : Int64) (depth : Nat) : TakenAt depth (Value.repr (.int n)) := by
  rcases Int.lt_or_le n.toInt 0 with negative | nonneg
  · rw [Value.repr_int_of_neg negative]
    refine takenAt_plain (List.forall_mem_cons.2 ⟨by decide, ?_⟩) depth
    exact (isDigits_digitsText n.toInt.natAbs).plain
  · rw [Value.repr_int_of_nonneg nonneg]
    exact takenAt_plain (isDigits_digitsText n.toInt.toNat).plain depth

/-- Further items are taken with the commas in front of them if each of them is. -/
theorem takenAt_moreItems {depth : Nat} {items : List Value}
    (each : ∀ v ∈ items, TakenAt depth v.repr) : TakenAt depth (moreItems items) := by
  induction items with
  | nil => exact takenAt_plain (List.forall_mem_nil _) depth
  | cons v items ih =>
    obtain ⟨first, others⟩ := List.forall_mem_cons.1 each
    intro s before opened rest line room mark
    have behind := atMark_moreItems items mark
    -- the comma and the blank, the item, and the items behind it
    obtain ⟨s₁, take₁, line₁⟩ :
        ∃ s', Takes s [','] (' ' :: (v.repr ++ moreItems items) ++ rest) s' ∧ _ :=
      line.keep (.inl rfl) rfl
    obtain ⟨s₂, take₂, line₂⟩ : ∃ s', Takes s₁ [' '] (v.repr ++ moreItems items ++ rest) s' ∧ _ :=
      line₁.keep (.inr (.inl rfl)) rfl
    obtain ⟨s₃, take₃, line₃⟩ := first s₂ _ opened (moreItems items ++ rest) line₂ room behind
    obtain ⟨s₄, take₄, line₄⟩ := ih others s₃ _ opened rest line₃ room mark
    refine ⟨s₄, take₁.append (take₂.append (take₃.append take₄)), ?_⟩
    simpa [moreItems_cons] using line₄

theorem takenAt_reprItems {depth : Nat} {items : List Value}
    (each : ∀ v ∈ items, TakenAt depth v.repr) : TakenAt depth (Value.reprItems items) := by
  cases items with
  | nil => exact takenAt_plain (List.forall_mem_nil _) depth
  | cons v items =>
    obtain ⟨first, others⟩ := List.forall_mem_cons.1 each
    intro s before opened rest line room mark
    obtain ⟨s₁, take₁, line₁⟩ := first s before opened (moreItems items ++ rest) line room
      (atMark_moreItems items mark)
    obtain ⟨s₂, take₂, line₂⟩ := takenAt_moreItems others s₁ _ opened rest line₁ room mark
    rw [Value.reprItems_cons]
    exact ⟨s₂, take₁.append take₂, by rwa [List.append_assoc] at line₂⟩

/-- Brackets around a text nest it one level deeper. -/
theorem TakenAt.bracketed {depth : Nat} {text : List Char} (h : TakenAt depth text)
    {opener closer : Char} (opens : ∀ cs, Lexeme.next opener cs = (⟨.openBracket, [opener]⟩, cs))
    (closes : ∀ cs, Lexeme.next closer cs = (⟨.closeBracket, [closer]⟩, cs))
    (pair : closerOf opener = closer) (mark : closer ∈ itemMarks) :
    TakenAt (depth + 1) (opener :: text ++ [closer]) := by
  intro s before opened rest line room _
  obtain ⟨s₁, take₁, line₁⟩ : ∃ s', Takes s [opener] (text ++ [closer] ++ rest) s' ∧ _ :=
    line.openBracket opens (by omega)
  rw [List.append_assoc] at take₁
  obtain ⟨s₂, take₂, line₂⟩ := h s₁ _ (opener :: opened) (closer :: rest) line₁
    (by rw [List.length_cons]; omega) (atMark_cons mark rest)
  obtain ⟨s₃, take₃, line₃⟩ : ∃ s', Takes s₂ [closer] rest s' ∧ _ := line₂.closeBracket closes pair
  have inner : Takes s₁ (text ++ [closer]) rest s₃ := take₂.append take₃
  rw [← List.append_assoc] at take₁
  exact ⟨s₃, take₁.append inner, by simpa using line₃⟩

/-- The layout pass takes a plain value. -/
theorem Value.Plain.takenAt {depth : Nat} {v : Value} (plain : v.Plain depth) :
    TakenAt depth v.repr := by
  have plainWords : ∀ word ∈ ["None", "True", "False"], ∀ depth, TakenAt depth word.toList := by
    have marks : (["None", "True", "False"].all fun word => word.toList.all fun c =>
      !layoutMarks.contains c) = true := by decide
    intro word among depth
    refine takenAt_plain (fun c member => ?_) depth
    simpa using List.all_eq_true.1 (List.all_eq_true.1 marks word among) c member
  induction plain with
  | none => exact plainWords "None" (by decide) _
  | bool b =>
    cases b with
    | false => exact plainWords "False" (by decide) _
    | true => exact plainWords "True" (by decide) _
  | int n => exact takenAt_int n _
  | str text =>
    intro s before opened rest line _ mark
    have isQuote := isQuote_preferredQuote text.toList
    exact line.keepQuoted isQuote text.toList (mark.head?_ne isQuote)
  | list _ ih =>
    rw [repr]
    exact (takenAt_reprItems ih).bracketed (fun _ => rfl) (fun _ => rfl) rfl (by decide)
  | @tuple depth items _ ih =>
    have around : ∀ {text : List Char}, TakenAt depth text →
        TakenAt (depth + 1) ('(' :: text ++ [')']) := fun taken =>
      taken.bracketed (fun _ => rfl) (fun _ => rfl) rfl (by decide)
    -- A tuple of one item is written with a comma behind it, so there are three cases.
    rcases items with _ | ⟨v, _ | ⟨w, items⟩⟩
    case nil => exact around (takenAt_reprItems ih)
    case cons.nil =>
      have single : TakenAt depth (v.repr ++ [',']) := by
        intro s before opened rest line room mark
        obtain ⟨s₁, take₁, line₁⟩ := ih v List.mem_cons_self s before opened (',' :: rest) line room
          (atMark_cons (by decide) rest)
        obtain ⟨s₂, take₂, line₂⟩ : ∃ s', Takes s₁ [','] rest s' ∧ _ := line₁.keep (.inl rfl) rfl
        exact ⟨s₂, take₁.append take₂, by rwa [List.append_assoc] at line₂⟩
      exact repr_tuple_single v ▸ around single
    case cons.cons => exact repr_tuple_several v w items ▸ around (takenAt_reprItems ih)

/-! ## Ends of values -/

/-- A plain value does not end with a blank. -/
theorem Value.Plain.endsVisibly {depth : Nat} {v : Value} (plain : v.Plain depth) :
    EndsVisibly v.repr := by
  have digits : ∀ {ds : List Char}, IsDigits ds → EndsVisibly ds := by
    intro ds h
    refine ⟨ds.getLast h.nonempty, List.getLast?_eq_some_getLast h.nonempty, ?_⟩
    intro blank
    have digit := h.digits _ (List.getLast_mem h.nonempty)
    rw [blank] at digit
    revert digit
    decide
  have closed : ∀ (text : List Char) {c : Char}, c ≠ ' ' → EndsVisibly (text ++ [c]) :=
    fun text c visible => ⟨c, List.getLast?_concat, visible⟩
  cases plain with
  | none => exact ⟨'e', rfl, by decide⟩
  | bool b => cases b <;> exact ⟨'e', rfl, by decide⟩
  | int n =>
    rcases Int.lt_or_le n.toInt 0 with negative | nonneg
    · rw [repr_int_of_neg negative]
      exact (digits (isDigits_digitsText _)).append ['-']
    · rw [repr_int_of_nonneg nonneg]
      exact digits (isDigits_digitsText _)
  | str text =>
    have isQuote := isQuote_preferredQuote text.toList
    exact closed _ (by rcases isQuote with e | e <;> (rw [e]; decide))
  | list => exact closed _ (by decide)
  | @tuple _ items =>
    rcases items with _ | ⟨v, _ | ⟨w, items⟩⟩
    · exact closed ['('] (by decide)
    · exact repr_tuple_single v ▸ closed _ (by decide)
    · exact repr_tuple_several v w items ▸ closed _ (by decide)

/-! ## Assignments of values -/

/-- A plain value is read as a literal of what is read back where a value is assigned. -/
theorem Value.Plain.isAssigned {depth : Nat} {v : Value} (plain : v.Plain depth) :
    IsAssigned v.repr (·.Denotes v.readBack) := by
  obtain ⟨begins, reads⟩ := plain.reads
  refine ⟨begins.skipBlanks_eq, ?_, begins.outcome_ref_eq_none (by decide), ?_⟩
  · obtain ⟨c, tail, e, start⟩ := begins
    rw [e]
    rintro d head rfl
    obtain rfl : c = '=' := Option.some.inj head
    exact absurd start (by decide)
  · intro limit fuel few enough
    obtain ⟨children, e, taken, value, denotes⟩ := reads limit fuel [] few enough nofun
    rw [List.append_nil] at taken
    refine ⟨[.phrase .expression .none children], e, ?_, by rw [Sketch.exprOf_single, value],
      denotes⟩
    have item : starItem.outcome limit fuel v.repr =
        some ([], [.phrase .expression .none children]) := by
      rw [begins.outcome_starItem, taken]
    have noMore : LineExpr.outcome limit fuel (Peg.lit "," ++ starItem) [] = .none :=
      outcome_seq_none rfl
    have items : (commaSeparated starItem).outcome limit fuel v.repr =
        some ([], [.phrase .expression .none children]) := by
      rw [commaSeparated, outcome_seq item, show skipBlanks [] = [] from rfl,
        outcome_many_none noMore]
      rfl
    rw [outcome_ref, show body .starExpressions = commaSeparated starItem ++
      Peg.opt (.token .trailingComma) from rfl, outcome_seq items]
    rfl

/-! ## Runs -/

/-- What an assignment to a name at no place is moved from. -/
theorem exists_of_move_assign {m : Module} {f : Nat → Nat} {s t : Span} {id : String} {e : Expr}
    (same : m.move f = ⟨[.assign s [.name t id] e]⟩) :
    ∃ s' t' e', m = ⟨[.assign s' [.name t' id] e']⟩ ∧ e'.move f = e := by
  obtain ⟨body⟩ := m
  obtain ⟨stmt, rfl, moved⟩ := List.map_eq_singleton_iff.1 (Module.mk.inj same)
  cases stmt <;> simp only [Stmt.move, Stmt.assign.injEq, reduceCtorEq] at moved
  case assign s' targets e' =>
    obtain ⟨-, targets, value⟩ := moved
    obtain ⟨target, rfl, moved⟩ := List.map_eq_singleton_iff.1 targets
    cases target <;> simp only [Expr.move, Expr.name.injEq, reduceCtorEq] at moved
    case name t' id' =>
      obtain ⟨-, rfl⟩ := moved
      exact ⟨s', t', e', rfl, value⟩

/-- A module that assigns a literal to a name leaves the value in it. -/
theorem finishes_assign {id : String} {e : Expr} {w : Value} (denotes : e.Denotes w)
    (s t : Span) (interval : Nat) (machine : Machine) :
    ∃ p, (Module.mk [.assign s [.name t id] e]).compile = .ok p ∧
      p.Finishes interval .never machine
        ⟨.ok (), 1, { machine with globals := machine.globals.set id w }⟩ := by
  refine ⟨⟨#[.assign [.name t id] e]⟩, rfl, Program.finishes_never_iff.2 ⟨2, ?_⟩⟩
  have ran : (Action.step 0 (.assign [.name t id] e)).runOn machine =
      (.ok 1, { machine with globals := machine.globals.set id w }) := by
    rw [Action.step, Action.runOn_bind_ok (Action.runOn_evaluate_pure (denotes.hasValue _))]
    show ((Action.assign (.name t id) w >>= fun _ => pure ()) >>= fun _ => pure 1).runOn machine = _
    rw [Action.assign]
    rfl
  have first : Program.step ⟨#[.assign [.name t id] e]⟩ machine.begin =
      .inl ⟨1, 1, { machine with globals := machine.globals.set id w }⟩ := by
    have next : Program.get? ⟨#[.assign [.name t id] e]⟩ machine.begin.pc =
        some (.assign [.name t id] e) := rfl
    rw [Program.step, next]
    dsimp only [Machine.begin]
    rw [ran]
  rw [Program.advance, first]
  rfl

/-- The text of a plain value, assigned to a name, is a program that runs without error and leaves
in the name a value that is equal to it, which is the value itself unless the smallest integer
occurs in it. -/
theorem Value.repr_reads_back {v : Value} (plain : v.Plain 200) (name : String) (interval : Nat)
    (machine : Machine) :
    ∃ m p o w, (Source.mk name ("x = " ++ String.ofList v.repr)).parse = .ok m ∧
      (Source.mk name ("x = " ++ String.ofList v.repr)).compile = .ok p ∧
      p.Finishes interval .never machine o ∧ o.result = .ok () ∧
      o.machine.globals.get? "x" = some w ∧ w.same v = true ∧
      (¬ OccursIn (.int Int64.minValue) v → w = v) := by
  let target : Identifier := ⟨['x'], rfl⟩
  have text : "x = " ++ String.ofList v.repr = String.ofList (target.assign v.repr) := by
    rw [← String.toList_inj]
    simp only [String.toList_append, String.toList_ofList]
    rfl
  have stays : StaysInLine v.repr := by
    intro s before line
    exact plain.takenAt s before [] [] line (Nat.le_refl _) nofun
  obtain ⟨m, e, parsed, moved, denotes⟩ :=
    plain.isAssigned.parse stays plain.endsVisibly target name
  obtain ⟨s, t, e, rfl, rfl⟩ := exists_of_move_assign moved
  obtain ⟨p, compiled, finishes⟩ := finishes_assign denotes.of_move s t interval machine
  refine ⟨_, p, _, v.readBack, text ▸ parsed, text ▸ Source.compile_of_parse parsed compiled,
    finishes, rfl, ?_, same_readBack plain, readBack_eq_self plain⟩
  show (machine.globals.set "x" v.readBack).get? "x" = _
  rw [Globals.get?_set, if_pos rfl]

/-- A list with a tuple of one item, two kinds of quotes, a tuple and an empty list in it is read
back. -/
theorem Value.repr_reads_back_nested :
    (list [tuple [int (-5)], str "it's", tuple [none, bool true], list []]).Plain 200 ∧
      ∃ m p o, (Source.mk "<stdin>" "x = [(-5,), \"it's\", (None, True), []]").parse = .ok m ∧
        (Source.mk "<stdin>" "x = [(-5,), \"it's\", (None, True), []]").compile = .ok p ∧
        p.Finishes 256 .never .fresh o ∧ o.result = .ok () ∧ o.machine.globals.get? "x" =
          some (list [tuple [int (-5)], str "it's", tuple [none, bool true], list []]) := by
  have single : (tuple [int (-5)]).Plain 199 := .tuple (List.forall_mem_cons.2 ⟨.int _, nofun⟩)
  have pair : (tuple [none, bool true]).Plain 199 :=
    .tuple (List.forall_mem_cons.2 ⟨.none, List.forall_mem_cons.2 ⟨.bool _, nofun⟩⟩)
  have plain :
      Plain 200 (list [tuple [int (-5)], str "it's", tuple [none, bool true], list []]) := by
    refine .list ?_
    simp only [List.forall_mem_cons]
    exact ⟨single, .str _, pair, .list nofun, nofun⟩
  have written : "x = " ++ String.ofList (repr (list [tuple [int (-5)], str "it's",
      tuple [none, bool true], list []])) = "x = [(-5,), \"it's\", (None, True), []]" := by
    decide +kernel
  have free : ¬ OccursIn (int Int64.minValue) (list [tuple [int (-5)], str "it's",
      tuple [none, bool true], list []]) := by
    have scalar : ∀ v ∈ [int (-5), str "it's", none, bool true],
        ¬ OccursIn (int Int64.minValue) v := by
      have other : Int64.minValue ≠ -5 := by decide
      simp only [List.forall_mem_cons]
      refine ⟨?_, ?_, ?_, ?_, nofun⟩ <;> intro inside <;>
        simpa [other] using inside.eq_of_scalar nofun nofun
    simp only [List.forall_mem_cons] at scalar
    simp [occursIn_list_iff, occursIn_tuple_iff, scalar]
  obtain ⟨m, p, o, w, parsed, compiled, finishes, ended, held, -, same⟩ :=
    repr_reads_back plain "<stdin>" 256 .fresh
  rw [written] at parsed compiled
  exact ⟨plain, m, p, o, parsed, compiled, finishes, ended, same free ▸ held⟩

end BlockEditor
