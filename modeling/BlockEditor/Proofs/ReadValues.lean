import BlockEditor.Proofs.ReadOperands

/-!
# Reading values

The grammar reads the text of a plain value as an expression, whatever mark stands behind it, and
the expression is a literal of what is read back.  A list or tuple is read item by item, so the
induction is on the value.
-/

namespace BlockEditor

open LineGrammar

/-! ## Items -/

/-- Trees are expressions that are literals of values. -/
inductive ItemTrees : List LineTree → List Value → Prop
  | nil : ItemTrees [] []
  | cons {children trees : List LineTree} {e : Expr} {v : Value} {vs : List Value} :
      exprOf (.phrase .expression .none children) = .ok e → e.Denotes v → ItemTrees trees vs →
        ItemTrees (.phrase .expression .none children :: trees) (v :: vs)

namespace ItemTrees

variable {trees more : List LineTree} {vs : List Value}

/-- Items do not begin a comprehension if what follows them does not. -/
theorem startsComprehension_append (h : ItemTrees trees vs)
    (none : startsComprehension more = false) : startsComprehension (trees ++ more) = false := by
  cases h with
  | nil => exact none
  | cons => rfl

/-- The expressions of items are literals of their values, in front of those that follow. -/
theorem itemsOf_append (h : ItemTrees trees vs) {others : List Expr} {comma : Bool}
    (behind : itemsOf more = .ok (others, comma)) :
    ∃ es, itemsOf (trees ++ more) = .ok (es ++ others, comma) ∧ Expr.AllDenote es vs := by
  induction h with
  | nil => exact ⟨[], behind, .nil⟩
  | @cons children trees e v vs value denotes _ ih =>
    obtain ⟨es, items, all⟩ := ih
    refine ⟨e :: es, ?_, .cons denotes all⟩
    rw [List.cons_append, itemsOf, value, items]
    · rfl
    · simp

/-- Items between square brackets are a list. -/
theorem exprOf_listDisplay (h : ItemTrees trees vs) :
    ∃ e, exprOf (.phrase .listDisplay .none trees) = .ok e ∧ e.Denotes (.list vs) := by
  cases h with
  | nil => exact ⟨.list .none [], rfl, .list .nil⟩
  | @cons children trees e v vs value denotes others =>
    obtain ⟨es, items, all⟩ := others.itemsOf_append (show itemsOf [] = .ok ([], false) from rfl)
    have noClauses :=
      others.startsComprehension_append (show startsComprehension [] = false from rfl)
    rw [List.append_nil] at items noClauses
    refine ⟨.list .none (e :: es), ?_, .list (.cons denotes all)⟩
    rw [exprOf, value]
    show (if startsComprehension trees then _ else (itemsOf trees).map _) = _
    rw [noClauses, items, List.append_nil]
    rfl

/-- Items between parentheses are a tuple, if there is none, a comma behind them or another item
behind the first one. -/
theorem exprOf_parenExpr (h : ItemTrees trees vs) {comma : Bool}
    (end' : itemsOf more = .ok ([], comma)) (noClauses : startsComprehension more = false)
    (several : vs.length = 1 → comma = true) (empty : vs = [] → more = []) :
    ∃ e, exprOf (.phrase .parenExpr .none (trees ++ more)) = .ok e ∧ e.Denotes (.tuple vs) := by
  cases h with
  | nil =>
    rw [empty rfl]
    exact ⟨.tuple .none [], rfl, .tuple .nil⟩
  | @cons children trees e v vs value denotes others =>
    obtain ⟨es, items, all⟩ := others.itemsOf_append end'
    have noClauses := others.startsComprehension_append noClauses
    rw [List.append_nil] at items
    refine ⟨.tuple .none (e :: es), ?_, .tuple (.cons denotes all)⟩
    have tuple : itemOrTuple .none (e :: es, comma) = .tuple .none (e :: es) := by
      cases all with
      | nil =>
        rw [several rfl]
        rfl
      | cons => rfl
    rw [List.cons_append, exprOf, value]
    show (if startsComprehension (trees ++ more) then _ else itemsOf (trees ++ more) >>= _) = _
    rw [noClauses, items]
    exact congrArg Except.ok tuple

end ItemTrees

/-- The text of items behind a first one. -/
def moreItems (items : List Value) : List Char := items.flatMap fun v => ',' :: ' ' :: v.repr

/-- The text of items is that of the first one and of further ones. -/
theorem Value.reprItems_cons (v : Value) (items : List Value) :
    reprItems (v :: items) = v.repr ++ moreItems items := by
  induction items generalizing v with
  | nil => rw [reprItems, moreItems, List.flatMap_nil, List.append_nil]
  | cons w items ih =>
    rw [reprItems, ih, moreItems, moreItems, List.flatMap_cons]
    · rfl
    · simp

theorem moreItems_cons (v : Value) (items : List Value) :
    moreItems (v :: items) = ',' :: ' ' :: (v.repr ++ moreItems items) := rfl

/-- The text of further items has at least a character for each. -/
theorem length_le_moreItems (items : List Value) : items.length ≤ (moreItems items).length := by
  induction items with
  | nil => exact Nat.le_refl 0
  | cons v items ih =>
    simp only [moreItems_cons, List.length_cons, List.length_append]
    omega

/-- Further items begin with a mark, or what closes them stands there. -/
theorem atMark_moreItems (items : List Value) {close : List Char} (mark : AtMark close) :
    AtMark (moreItems items ++ close) := by
  cases items with
  | nil => exact mark
  | cons v items => exact atMark_cons (show ',' ∈ itemMarks by decide) _

/-- An item behind a comma. -/
def nextItem : LineExpr := Peg.lit "," ++ starItem

/-- A value is read from its text. -/
structure Value.Reads (v : Value) : Prop where
  begins : BeginsValue v.repr
  reads : ReadsAs v.repr v.readBack

section Items

variable {limit fuel : Nat} {items : List Value} {close : List Char}

/-- Items are read one by one up to what closes them. -/
theorem repeats_items (each : ∀ v ∈ items, v.Reads) (few : (moreItems items).length ≤ limit)
    (enough : 4 * (moreItems items).length ≤ fuel) (mark : AtMark close)
    (last : nextItem.outcome limit fuel close = none) :
    ∃ trees, Repeats (nextItem.outcome limit fuel) items.length (moreItems items ++ close) trees
      close ∧ ItemTrees trees (items.map Value.readBack) := by
  induction items with
  | nil => exact ⟨[], .stop last, .nil⟩
  | cons v items ih =>
    obtain ⟨first, others⟩ := List.forall_mem_cons.1 each
    rw [moreItems_cons] at few enough ⊢
    simp only [List.length_cons, List.length_append] at few enough
    obtain ⟨trees, repeats, all⟩ := ih others (by omega) (by omega)
    have behind := atMark_moreItems items mark
    obtain ⟨children, e, taken, value, denotes⟩ :=
      first.reads limit fuel (moreItems items ++ close) (by omega) (by omega) behind
    have begins := first.begins.append (moreItems items ++ close)
    have comma : LineExpr.outcome limit fuel (Peg.lit ",")
        (',' :: ' ' :: (v.repr ++ moreItems items) ++ close) =
          some (' ' :: (v.repr ++ (moreItems items ++ close)), []) := by
      rw [List.cons_append, List.cons_append, List.append_assoc]
      rfl
    have next : nextItem.outcome limit fuel (',' :: ' ' :: (v.repr ++ moreItems items) ++ close) =
        some (moreItems items ++ close, [.phrase .expression .none children]) := by
      rw [nextItem, outcome_seq comma, show skipBlanks (' ' :: _) = _ from begins.skipBlanks_eq,
        begins.outcome_starItem, taken]
      rfl
    refine ⟨[.phrase .expression .none children] ++ trees,
      .item next (behind.skipBlanks_eq.symm ▸ repeats), ?_⟩
    exact .cons value denotes all

/-- The items of a display are read, with what may stand behind them. -/
theorem outcome_items {v : Value} (first : v.Reads) (each : ∀ v ∈ items, v.Reads)
    (few : (Value.reprItems (v :: items)).length ≤ limit)
    (enough : 4 * ((Value.reprItems (v :: items)).length + 1) ≤ fuel) (mark : AtMark close)
    (last : nextItem.outcome limit fuel close = none) {tail : LineExpr} {left : List Char}
    {more : List LineTree} (ended : tail.outcome limit fuel close = some (left, more)) :
    ∃ trees, LineExpr.outcome limit fuel (starItem ++ comprehensionOr (Peg.many nextItem ++ tail))
        (Value.reprItems (v :: items) ++ close) = some (left, trees ++ more) ∧
      ItemTrees trees ((v :: items).map Value.readBack) := by
  rw [Value.reprItems_cons] at few enough ⊢
  rw [List.length_append] at few enough
  have behind := atMark_moreItems items mark
  have count := length_le_moreItems items
  obtain ⟨children, e, taken, value, denotes⟩ :=
    first.reads limit fuel (moreItems items ++ close) (by omega) (by omega) behind
  obtain ⟨trees, repeats, all⟩ := repeats_items each (by omega) (by omega) mark last
  obtain ⟨mid, others, start⟩ := repeats.many (by omega) behind.skipBlanks_eq
  have begins := first.begins.append (moreItems items ++ close)
  refine ⟨.phrase .expression .none children :: trees, ?_, .cons value denotes all⟩
  have noClauses : LineExpr.outcome limit fuel (Peg.many1 (ref .compFor))
      (moreItems items ++ close) = none :=
    outcome_seq_none (behind.outcome_none (by simp [continuations]) limit fuel)
  rw [List.append_assoc, outcome_seq (begins.outcome_starItem limit fuel ▸ taken),
    behind.skipBlanks_eq, comprehensionOr, outcome_alt, noClauses, Option.none_or,
    outcome_seq others, start, ended]
  rfl

end Items

/-! ## Displays -/

/-- What may stand between the brackets of a list. -/
def listItems : LineExpr := starItem ++ comprehensionOr (Peg.many nextItem ++ maybeComma)

/-- What may stand between the parentheses of a tuple. -/
def tupleItems : LineExpr :=
  ref .yieldExpr <|> starItem ++
    comprehensionOr (Peg.many nextItem ++ Peg.opt (.token .trailingComma))

/-- Nothing is read in front of a closing bracket. -/
theorem outcome_closer_none {c : Char} (closer : c ∈ [']', ')']) {x : LineExpr}
    (among : x ∈ [starItem, nextItem, listItems, tupleItems, Peg.lit ",", .token .trailingComma])
    (limit fuel : Nat) (cs : List Char) : x.outcome limit fuel (c :: cs) = none := by
  have all : ([']', ')'].all fun c => [starItem, nextItem, listItems, tupleItems, Peg.lit ",",
      .token .trailingComma].all fun x => x.Refuses c) = true := by decide +kernel
  have refuses := List.all_eq_true.1 (List.all_eq_true.1 all c closer) x among
  have visible : lineGrammar.isSpace c = false := by
    simp only [List.mem_cons, List.not_mem_nil, or_false] at closer
    rcases closer with rfl | rfl <;> rfl
  exact (of_decide_eq_true refuses).outcome visible cs

/-- Brackets are read with what they hold, if that is read up to the closing one. -/
theorem outcome_bracketed {p : PhraseName} {opener closer : Char} {inside : LineExpr}
    (shape : body p = .text [opener] ++ Peg.opt inside ++ .text [closer]) {limit fuel : Nat}
    {cs rest : List Char} {trees : List LineTree} (start : skipBlanks cs = cs)
    (stop : lineGrammar.isSpace closer = false)
    (content : LineExpr.outcome limit fuel (.opt inside) cs = some (closer :: rest, trees)) :
    LineExpr.outcome limit (fuel + 1) (ref p) (opener :: cs) =
      some (rest, [.phrase p .none trees]) := by
  have mark : ∀ (c : Char) (cs : List Char),
      LineExpr.outcome limit fuel (.text [c]) (c :: cs) = some (cs, []) := by
    intro c cs
    have taken : Text.dropLead [c] (c :: cs) = some cs := (Text.dropLead_eq_some_iff _ _ _).2 rfl
    show (Text.dropLead [c] (c :: cs)).map _ = _
    rw [taken]
    rfl
  have opened : LineExpr.outcome limit fuel (.text [opener] ++ Peg.opt inside) (opener :: cs) =
      some (closer :: rest, trees) := by
    rw [outcome_seq (mark opener cs), start, content]
    rfl
  have stays : skipBlanks (closer :: rest) = closer :: rest := by
    rw [skipBlanks, List.dropWhile_cons, stop]
    rfl
  rw [outcome_ref, shape, outcome_seq opened, stays, mark]
  simp

/-- No blank stands in front of items that are closed. -/
theorem skipBlanks_reprItems {items : List Value} (each : ∀ v ∈ items, v.Reads) {c : Char}
    (stop : lineGrammar.isSpace c = false) (rest : List Char) :
    skipBlanks (Value.reprItems items ++ c :: rest) = Value.reprItems items ++ c :: rest := by
  cases items with
  | nil =>
    rw [Value.reprItems, List.nil_append, skipBlanks, List.dropWhile_cons, stop]
    rfl
  | cons v items =>
    rw [Value.reprItems_cons, List.append_assoc]
    exact ((each v List.mem_cons_self).begins.append _).skipBlanks_eq

/-- A list is read if its items are. -/
theorem operandReadsAs_list {items : List Value} (each : ∀ v ∈ items, v.Reads) :
    OperandReadsAs (Value.repr (.list items)) (Value.list items).readBack := by
  intro limit fuel rest few enough _
  have text : Value.repr (.list items) ++ rest = '[' :: (Value.reprItems items ++ ']' :: rest) := by
    rw [Value.repr]
    simp
  rw [Value.repr] at few enough
  simp only [List.length_cons, List.length_append, List.length_nil] at few enough
  -- What stands between the brackets is read first; the brackets are the same for every list.
  have content : ∃ trees, LineExpr.outcome limit fuel (.opt listItems)
      (Value.reprItems items ++ ']' :: rest) = some (']' :: rest, trees) ∧
        ItemTrees trees (items.map Value.readBack) := by
    cases items with
    | nil =>
      refine ⟨[], ?_, .nil⟩
      rw [outcome_opt, Value.reprItems, List.nil_append,
        outcome_closer_none (by decide) (by simp)]
      rfl
    | cons v items =>
      obtain ⟨first, others⟩ := List.forall_mem_cons.1 each
      have ended : maybeComma.outcome limit fuel (']' :: rest) = some (']' :: rest, []) := by
        rw [maybeComma, outcome_opt, outcome_closer_none (by decide) (by simp)]
        rfl
      obtain ⟨trees, taken, all⟩ := outcome_items first others (by omega) (by omega)
        (atMark_cons (by decide) rest) (outcome_closer_none (by decide) (by simp) limit fuel rest)
        ended
      rw [List.append_nil] at taken
      exact ⟨trees, by rw [outcome_opt, listItems, taken]; rfl, all⟩
  obtain ⟨trees, content, all⟩ := content
  obtain ⟨e, value, denotes⟩ := all.exprOf_listDisplay
  have display : LineExpr.outcome limit (fuel + 1) (ref .listDisplay)
      ('[' :: (Value.reprItems items ++ ']' :: rest)) =
        some (rest, [.phrase .listDisplay .none trees]) :=
    outcome_bracketed (show body .listDisplay = .text ['['] ++ Peg.opt listItems ++ .text [']']
      from rfl) (skipBlanks_reprItems each rfl rest) rfl content
  refine ⟨.phrase .listDisplay .none trees, e, ?_, value, ?_⟩
  · rw [text, atom, outcome_alt_of_refuses (by decide) rfl, outcome_alt, display]
    rfl
  · rw [Value.readBack, Value.readBackAll_eq]
    exact denotes

/-- What stands between the parentheses of a tuple is read: its items, and behind a single one a
comma. -/
structure TupleReads (limit fuel : Nat) (inner rest : List Char) (vs : List Value) : Prop where
  start : skipBlanks inner = inner
  content : ∃ trees more comma, LineExpr.outcome limit fuel (.opt tupleItems) inner =
      some (')' :: rest, trees ++ more) ∧ ItemTrees trees vs ∧ itemsOf more = .ok ([], comma) ∧
    startsComprehension more = false ∧ (vs.length = 1 → comma = true) ∧ (vs = [] → more = [])

/-- An empty tuple is read. -/
theorem tupleReads_nil (limit fuel : Nat) (rest : List Char) :
    TupleReads limit fuel (')' :: rest) rest [] := by
  refine ⟨rfl, [], [], false, ?_, .nil, rfl, rfl, nofun, fun _ => rfl⟩
  rw [outcome_opt, outcome_closer_none (by decide) (by simp)]
  rfl

/-- Items in front of what may close a tuple. -/
theorem tupleReads_items {limit fuel : Nat} {v : Value} {items : List Value} (first : v.Reads)
    (each : ∀ v ∈ items, v.Reads) (few : (Value.reprItems (v :: items)).length ≤ limit)
    (enough : 4 * ((Value.reprItems (v :: items)).length + 1) ≤ fuel) {close rest : List Char}
    (mark : AtMark close) (last : nextItem.outcome limit fuel close = none) {more : List LineTree}
    (ended : LineExpr.outcome limit fuel (.opt (.token .trailingComma)) close =
      some (')' :: rest, more))
    {comma : Bool} (end' : itemsOf more = .ok ([], comma))
    (noClauses : startsComprehension more = false) (several : items = [] → comma = true) :
    TupleReads limit fuel (Value.reprItems (v :: items) ++ close) rest
      ((v :: items).map Value.readBack) := by
  have begins : BeginsValue (Value.reprItems (v :: items) ++ close) := by
    rw [Value.reprItems_cons, List.append_assoc]
    exact first.begins.append _
  obtain ⟨trees, taken, all⟩ := outcome_items first each few enough mark last ended
  refine ⟨begins.skipBlanks_eq, trees, more, comma, ?_, all, end', noClauses, ?_, nofun⟩
  · rw [outcome_opt, tupleItems, outcome_alt, begins.outcome_ref_eq_none (by decide), taken]
    rfl
  · intro single
    exact several (by simpa using single)

/-- A tuple is read if its items are. -/
theorem operandReadsAs_tuple {items : List Value} (each : ∀ v ∈ items, v.Reads) :
    OperandReadsAs (Value.repr (.tuple items)) (Value.tuple items).readBack := by
  intro limit fuel rest few enough _
  have inside : ∃ inner, Value.repr (.tuple items) ++ rest = '(' :: inner ∧
      TupleReads limit fuel inner rest (items.map Value.readBack) := by
    rcases items with _ | ⟨v, _ | ⟨w, items⟩⟩
    case nil => exact ⟨_, rfl, tupleReads_nil limit fuel rest⟩
    case cons.nil =>
      rw [Value.repr_tuple_single] at few enough ⊢
      simp only [List.length_cons, List.length_append, List.length_nil] at few enough
      have only : Value.reprItems [v] = v.repr := by rw [Value.reprItems]
      -- the comma is no separator, since no item follows
      have last : nextItem.outcome limit fuel (',' :: ')' :: rest) = none := by
        have comma : LineExpr.outcome limit fuel (Peg.lit ",") (',' :: ')' :: rest) =
          some (')' :: rest, []) := rfl
        rw [nextItem, outcome_seq comma, show skipBlanks (')' :: rest) = ')' :: rest from rfl,
          outcome_closer_none (by decide) (by simp)]
        rfl
      refine ⟨v.repr ++ ',' :: ')' :: rest, by simp, only ▸ ?_⟩
      exact tupleReads_items (each v List.mem_cons_self) (by simp) (by rw [only]; omega)
        (by rw [only]; omega) (atMark_cons (by decide) _) last rfl rfl rfl fun _ => rfl
    case cons.cons =>
      obtain ⟨first, others⟩ := List.forall_mem_cons.1 each
      rw [Value.repr_tuple_several] at few enough ⊢
      simp only [List.length_cons, List.length_append, List.length_nil] at few enough
      have ended : LineExpr.outcome limit fuel (.opt (.token .trailingComma)) (')' :: rest) =
          some (')' :: rest, []) := by
        rw [outcome_opt, outcome_closer_none (by decide) (by simp)]
        rfl
      refine ⟨Value.reprItems (v :: w :: items) ++ ')' :: rest, by simp, ?_⟩
      exact tupleReads_items first others (by omega) (by omega) (atMark_cons (by decide) _)
        (outcome_closer_none (by decide) (by simp) limit fuel rest) ended rfl rfl nofun
  obtain ⟨inner, text, start, trees, more, comma, content, all, end', noClauses, several, empty⟩ :=
    inside
  obtain ⟨e, value, denotes⟩ := all.exprOf_parenExpr end' noClauses several empty
  have display : LineExpr.outcome limit (fuel + 1) (ref .parenExpr) ('(' :: inner) =
      some (rest, [.phrase .parenExpr .none (trees ++ more)]) :=
    outcome_bracketed (show body .parenExpr = .text ['('] ++ Peg.opt tupleItems ++ .text [')']
      from rfl) start rfl content
  refine ⟨.phrase .parenExpr .none (trees ++ more), e, ?_, value, ?_⟩
  · rw [text, atom, outcome_alt, display]
    rfl
  · rw [Value.readBack, Value.readBackAll_eq]
    exact denotes

/-! ## Plain values -/

/-- A display is read as an expression if it is as an operand. -/
theorem OperandReadsAs.reads_display {v : Value} (h : OperandReadsAs v.repr v.readBack) {c : Char}
    {tail : List Char} (first : v.repr = c :: tail) (opens : c = '[' ∨ c = '(') : v.Reads := by
  have start : c ∈ valueStarts := by rcases opens with rfl | rfl <;> decide
  refine ⟨⟨c, tail, first, start⟩, h.readsAs first start ?_ fun limit fuel rest _ => ?_⟩
  · rcases opens with rfl | rfl <;> decide
  · rw [first]
    exact outcome_namedExpr_eq_none start (by rcases opens with rfl | rfl <;> decide) _ _ _

/-- An integer begins as a value does. -/
theorem beginsValue_int (n : Int64) : BeginsValue (Value.repr (.int n)) := by
  rcases Int.lt_or_le n.toInt 0 with negative | nonneg
  · rw [Value.repr_int_of_neg negative]
    exact ⟨'-', _, rfl, by decide⟩
  · rw [Value.repr_int_of_nonneg nonneg]
    obtain ⟨c, tail, e, digit⟩ := (isDigits_digitsText n.toInt.toNat).exists_cons
    exact ⟨c, tail, e, mem_valueStarts_of_mem_digits digit⟩

/-- The quote that is preferred for a text is one of the two quotes. -/
theorem isQuote_preferredQuote (cs : List Char) : Lexeme.IsQuote (Text.preferredQuote cs) := by
  unfold Text.preferredQuote
  split
  · exact .inl rfl
  · exact .inr rfl

/-- A plain value is read from its text. -/
theorem Value.Plain.reads {depth : Nat} {v : Value} (plain : v.Plain depth) : v.Reads := by
  induction plain with
  | none =>
    have among : ("None", Token.noneLit, Constant.none) ∈ constantWords := .head _
    exact ⟨(reads_word among rfl).1, (reads_word among rfl).2⟩
  | bool b =>
    cases b with
    | false =>
      have among : ("False", Token.falseLit, Constant.bool false) ∈ constantWords :=
        .tail _ (.tail _ (.head _))
      exact ⟨(reads_word among rfl).1, (reads_word among rfl).2⟩
    | true =>
      have among : ("True", Token.trueLit, Constant.bool true) ∈ constantWords :=
        .tail _ (.head _)
      exact ⟨(reads_word among rfl).1, (reads_word among rfl).2⟩
  | int n => exact ⟨beginsValue_int n, readsAs_int n⟩
  | str text =>
    have isQuote := isQuote_preferredQuote text.toList
    refine ⟨⟨Text.preferredQuote text.toList, _, rfl, ?_⟩, ?_⟩
    · rcases isQuote with e | e <;> (rw [e]; decide)
    · exact readsAs_encodeQuoted isQuote text
  | list _ ih => exact (operandReadsAs_list ih).reads_display (by rw [repr]; rfl) (.inl rfl)
  | @tuple _ items _ ih =>
    obtain ⟨tail, first⟩ : ∃ tail, repr (.tuple items) = '(' :: tail := by
      rcases items with _ | ⟨v, _ | ⟨w, items⟩⟩
      · exact ⟨_, rfl⟩
      · exact ⟨_, repr_tuple_single v⟩
      · exact ⟨_, repr_tuple_several v w items⟩
    exact (operandReadsAs_tuple ih).reads_display first (.inr rfl)

end BlockEditor
