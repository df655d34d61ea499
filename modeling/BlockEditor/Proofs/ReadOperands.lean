import BlockEditor.Proofs.FirstCharacters
import BlockEditor.Proofs.NumberCode
import BlockEditor.Proofs.PlainValues
import BlockEditor.Proofs.Quotation
import BlockEditor.Proofs.ReadFormulas
import BlockEditor.Proofs.WiderGaps

/-!
# Reading operands

A literal in front of a comma, a closing bracket or the end of the text is an operand on its own:
none of these marks goes on with it.  The grammar so reads the words for constants, the digits of
integers and the literals of strings as expressions.
-/

namespace BlockEditor

open LineGrammar

/-! ## Marks behind a value -/

/-- The characters that stand behind a value. -/
def itemMarks : List Char := [',', ']', ')']

/-- A text ends, or goes on with a mark that stands behind a value. -/
def AtMark (cs : List Char) : Prop := ∀ c ∈ cs.head?, c ∈ itemMarks

theorem atMark_cons {c : Char} (among : c ∈ itemMarks) (cs : List Char) : AtMark (c :: cs) := by
  intro d head
  cases head
  exact among

/-- A mark behind a value is no blank. -/
theorem not_isSpace_of_mem_itemMarks {c : Char} (among : c ∈ itemMarks) :
    lineGrammar.isSpace c = false := by
  have all : (itemMarks.all fun c => !lineGrammar.isSpace c) = true := by decide
  simpa using List.all_eq_true.1 all c among

/-- A text at a mark is empty, or begins with a comma or a closing bracket. -/
theorem AtMark.eq_or {rest : List Char} (mark : AtMark rest) :
    rest = [] ∨ ∃ tail, rest = ',' :: tail ∨ rest = ']' :: tail ∨ rest = ')' :: tail := by
  cases rest with
  | nil => exact .inl rfl
  | cons c tail =>
    have among : c = ',' ∨ c = ']' ∨ c = ')' := by simpa [itemMarks] using mark c rfl
    exact .inr ⟨tail, by rcases among with rfl | rfl | rfl <;> simp⟩

/-- What could go on with a value: further operators, calls, conditions and clauses. -/
def continuations : List LineExpr := [linkingOp, trailer, word .ifWord, ref .compFor]

namespace AtMark

variable {rest : List Char} (mark : AtMark rest)

include mark

/-- No blank stands in front of a mark. -/
theorem skipBlanks_eq : skipBlanks rest = rest := by
  cases rest with
  | nil => rfl
  | cons c rest =>
    rw [skipBlanks, List.dropWhile_cons, not_isSpace_of_mem_itemMarks (mark c rfl)]
    rfl

/-- Nothing goes on with a value in front of a mark. -/
theorem outcome_none {x : LineExpr} (among : x ∈ continuations) (limit fuel : Nat) :
    x.outcome limit fuel rest = none := by
  cases rest with
  | nil =>
    simp only [continuations, List.mem_cons, List.not_mem_nil, or_false] at among
    rcases among with rfl | rfl | rfl | rfl
    · exact ends_nil.unlinked limit fuel
    · exact ends_nil.toApart.outcome_trailer limit fuel
    · exact closes_nil.final limit fuel
    · exact outcome_ref_none fun _ => rfl
  | cons c rest =>
    have all : (itemMarks.all fun c => continuations.all fun x => x.Refuses c) = true := by
      decide +kernel
    have refuses := List.all_eq_true.1 (List.all_eq_true.1 all c (mark c rfl)) x among
    exact (of_decide_eq_true refuses).outcome (not_isSpace_of_mem_itemMarks (mark c rfl)) rest

/-- No quote stands at a mark. -/
theorem head?_ne {quote : Char} (isQuote : Lexeme.IsQuote quote) : ∀ c ∈ rest.head?, c ≠ quote := by
  intro c head
  have among := mark c head
  rintro rfl
  rcases isQuote with rfl | rfl <;> exact absurd among (by decide)

end AtMark

/-! ## What begins a value -/

/-- The characters that a value begins with. -/
def valueStarts : List Char := "[(-\"'NTF0123456789".toList

/-- No value begins with a blank. -/
theorem not_isSpace_of_mem_valueStarts {c : Char} (among : c ∈ valueStarts) :
    lineGrammar.isSpace c = false := by
  have all : (valueStarts.all fun c => !lineGrammar.isSpace c) = true := by decide
  simpa using List.all_eq_true.1 all c among

/-- A text begins as a value does. -/
def BeginsValue (cs : List Char) : Prop := ∃ c tail, cs = c :: tail ∧ c ∈ valueStarts

namespace BeginsValue

variable {cs : List Char} (h : BeginsValue cs)

include h

/-- What begins a value begins one whatever stands behind it. -/
theorem append (rest : List Char) : BeginsValue (cs ++ rest) := by
  obtain ⟨c, tail, rfl, among⟩ := h
  exact ⟨c, tail ++ rest, rfl, among⟩

/-- No blank stands in front of a value. -/
theorem skipBlanks_eq : skipBlanks cs = cs := by
  obtain ⟨c, tail, rfl, among⟩ := h
  rw [skipBlanks, List.dropWhile_cons, not_isSpace_of_mem_valueStarts among]
  rfl

/-- Phrases that begin with a word or a star of their own. -/
theorem outcome_ref_eq_none {p : PhraseName} (among : p ∈ [.lambdaExpr, .yieldExpr, .starred])
    (limit fuel : Nat) : LineExpr.outcome limit fuel (ref p) cs = none := by
  obtain ⟨c, tail, rfl, start⟩ := h
  have all : (valueStarts.all fun c => [PhraseName.lambdaExpr, .yieldExpr, .starred].all fun p =>
      (ref p).Refuses c) = true := by decide +kernel
  have refuses := List.all_eq_true.1 (List.all_eq_true.1 all c start) p among
  exact (of_decide_eq_true refuses).outcome (not_isSpace_of_mem_valueStarts start) tail

/-- A value is no item with a star, so it is read as an expression. -/
theorem outcome_starItem (limit fuel : Nat) :
    starItem.outcome limit fuel cs = LineExpr.outcome limit fuel (ref .expression) cs := by
  rw [starItem, outcome_alt, h.outcome_ref_eq_none (by decide), Option.none_or]

end BeginsValue

/-- The characters of the class of digits are the ten digits. -/
theorem mem_digits {c : Char} (digit : CharClass.digit.holds c = true) :
    c ∈ "0123456789".toList := by
  have all : ∀ n ∈ List.range' 48 10, Char.ofNat n ∈ "0123456789".toList := by decide
  have bounds : '0' ≤ c ∧ c ≤ '9' := by simpa [CharClass.holds] using digit
  have low : 48 ≤ c.toNat := bounds.1
  have high : c.toNat ≤ 57 := bounds.2
  have among := all c.toNat (List.mem_range'_1.2 ⟨low, by omega⟩)
  rwa [Char.ofNat_toNat] at among

/-- Every digit can begin a value. -/
theorem mem_valueStarts_of_mem_digits {c : Char} (digit : c ∈ "0123456789".toList) :
    c ∈ valueStarts :=
  List.mem_append_right "[(-\"'NTF".toList digit

/-! ## Values and operands -/

/-- A text is read as a literal of a value, whatever mark stands behind it. -/
def ReadsAs (text : List Char) (v : Value) : Prop :=
  ∀ limit fuel rest, text.length ≤ limit → 4 * (text.length + 1) ≤ fuel → AtMark rest →
    ∃ children e, LineExpr.outcome limit fuel (ref .expression) (text ++ rest) =
        some (rest, [.phrase .expression .none children]) ∧
      exprOf (.phrase .expression .none children) = .ok e ∧ e.Denotes v

/-- A text is read as an operand that is a literal of a value, whatever mark stands behind it. -/
def OperandReadsAs (text : List Char) (v : Value) : Prop :=
  ∀ limit fuel rest, text.length ≤ limit → 4 * text.length ≤ fuel → AtMark rest →
    ∃ tree e, atom.outcome limit (fuel + 1) (text ++ rest) = some (rest, [tree]) ∧
      exprOf tree = .ok e ∧ e.Denotes v

/-- An operand is an expression, with the operators in front of it. -/
theorem outcome_expression {limit fuel : Nat} {cs mid rest : List Char} {leading : List LineTree}
    {tree : LineTree} (begins : BeginsValue cs)
    (noName : LineExpr.outcome limit (fuel + 2) (ref .namedExpr) cs = none)
    (lead : LineExpr.outcome limit (fuel + 1) (.many leadingOp) cs = some (mid, leading))
    (taken : atom.outcome limit fuel (skipBlanks mid) = some (rest, [tree])) (mark : AtMark rest) :
    LineExpr.outcome limit (fuel + 3) (ref .expression) cs = some (rest,
      [.phrase .expression .none
        [.phrase .operation .none (leading ++ [.phrase .primary .none [tree]])]]) := by
  -- At a mark nothing goes on with the value, at any of the levels between an operand and an
  -- expression.
  have noTrailer : trailer.outcome limit fuel rest = none :=
    mark.outcome_none (by simp [continuations]) limit fuel
  have primary : LineExpr.outcome limit (fuel + 1) (ref .primary) (skipBlanks mid) =
      some (rest, [.phrase .primary .none [tree]]) := by
    rw [outcome_ref, show body .primary = atom ++ Peg.many trailer from rfl, outcome_seq taken,
      mark.skipBlanks_eq, outcome_many_none noTrailer]
    rfl
  have both : LineExpr.outcome limit (fuel + 1) (Peg.many leadingOp ++ ref .primary) cs =
      some (rest, leading ++ [.phrase .primary .none [tree]]) := by
    rw [outcome_seq lead, primary]
    rfl
  have operation : LineExpr.outcome limit (fuel + 2) (ref .operation) cs = some (rest,
      [.phrase .operation .none (leading ++ [.phrase .primary .none [tree]])]) := by
    have noLink : linkExpr.outcome limit (fuel + 1) rest = none :=
      outcome_seq_none (outcome_seq_none (mark.outcome_none (by simp [continuations]) limit _))
    rw [outcome_ref, show body .operation = Peg.many leadingOp ++ ref .primary ++ Peg.many linkExpr
      from rfl, outcome_seq both, mark.skipBlanks_eq, outcome_many_none noLink]
    simp
  have noBranch : branch.outcome limit (fuel + 2) rest = none :=
    outcome_seq_none (outcome_seq_none (outcome_seq_none
      (mark.outcome_none (by simp [continuations]) limit _)))
  rw [outcome_ref, show body .expression = (ref .lambdaExpr <|> ref .namedExpr <|>
    ref .operation ++ Peg.opt branch) from rfl, outcome_alt, outcome_alt,
    begins.outcome_ref_eq_none (by decide), noName, Option.none_or, Option.none_or,
    outcome_seq operation, mark.skipBlanks_eq, outcome_opt, noBranch]
  rfl

/-- A text that is read as an operand and begins with no minus is read as an expression. -/
theorem OperandReadsAs.readsAs {text : List Char} {v : Value} (h : OperandReadsAs text v)
    {c : Char} {tail : List Char} (first : text = c :: tail) (start : c ∈ valueStarts)
    (noMinus : c ≠ '-') (noName : ∀ limit fuel rest, AtMark rest →
      LineExpr.outcome limit fuel (ref .namedExpr) (text ++ rest) = none) : ReadsAs text v := by
  intro limit fuel rest few enough mark
  obtain ⟨fuel, rfl⟩ : ∃ n, fuel = n + 4 := ⟨fuel - 4, by omega⟩
  have begins : BeginsValue (text ++ rest) := BeginsValue.append ⟨c, tail, first, start⟩ rest
  obtain ⟨tree, e, taken, value, denotes⟩ := h limit fuel rest few (by omega) mark
  have all : (valueStarts.all fun c => c = '-' || leadingOp.Refuses c) = true := by decide +kernel
  have refuses : leadingOp.Refuses c := by
    simpa [noMinus] using List.all_eq_true.1 all c start
  have lead : LineExpr.outcome limit (fuel + 2) (.many leadingOp) (text ++ rest) =
      some (text ++ rest, []) := by
    refine outcome_many_none ?_
    rw [first, List.cons_append]
    exact refuses.outcome (not_isSpace_of_mem_valueStarts start) _
  rw [← begins.skipBlanks_eq] at taken
  refine ⟨_, e, outcome_expression begins (noName _ _ _ mark) lead taken mark, ?_, denotes⟩
  rw [List.nil_append, Sketch.exprOf_operand, value]

/-- Words that are operands of their own, with their tokens and constants. -/
def constantWords : List (String × Token × Constant) :=
  [("None", .noneLit, .none), ("True", .trueLit, .bool true), ("False", .falseLit, .bool false)]

/-- A word for a constant in front of a mark is an operand, and no name that is bound. -/
theorem outcome_word {word : String} {t : Token} {c : Constant}
    (among : (word, t, c) ∈ constantWords) {rest : List Char} (mark : AtMark rest)
    (limit fuel : Nat) :
    atom.outcome limit (fuel + 1) (word.toList ++ rest) =
        some (rest, [.token t .none word.toList]) ∧
      LineExpr.outcome limit fuel (ref .namedExpr) (word.toList ++ rest) = none := by
  simp only [constantWords, List.mem_cons, Prod.mk.injEq, List.not_mem_nil, or_false] at among
  refine ⟨?_, outcome_ref_none fun fuel => ?_⟩ <;>
    rcases among with ⟨rfl, rfl, rfl⟩ | ⟨rfl, rfl, rfl⟩ | ⟨rfl, rfl, rfl⟩ <;>
    obtain rfl | ⟨tail, rfl | rfl | rfl⟩ := mark.eq_or <;> rfl

/-- A word for a constant is read as it. -/
theorem reads_word {word : String} {t : Token} {c : Constant} {v : Value}
    (among : (word, t, c) ∈ constantWords) (value : c.value = .ok v) :
    BeginsValue word.toList ∧ ReadsAs word.toList v := by
  obtain ⟨first, tail, text, start, noMinus, read⟩ : ∃ first tail, word.toList = first :: tail ∧
      first ∈ valueStarts ∧ first ≠ '-' ∧
      exprOf (.token t .none word.toList) = .ok (.constant .none c) := by
    simp only [constantWords, List.mem_cons, Prod.mk.injEq, List.not_mem_nil, or_false] at among
    rcases among with ⟨rfl, rfl, rfl⟩ | ⟨rfl, rfl, rfl⟩ | ⟨rfl, rfl, rfl⟩ <;>
      exact ⟨_, _, rfl, by decide, by decide, rfl⟩
  have operand : OperandReadsAs word.toList v := fun limit fuel rest _ _ mark =>
    ⟨_, _, (outcome_word among mark limit fuel).1, read, .constant value⟩
  exact ⟨⟨first, tail, text, start⟩, operand.readsAs text start noMinus
    fun limit fuel rest mark => (outcome_word among mark limit fuel).2⟩

/-! ## Numbers -/

/-- The characters of the displays, texts and digits, with which no name begins. -/
theorem outcome_namedExpr_eq_none {c : Char} (start : c ∈ valueStarts)
    (noWord : c ∉ ['N', 'T', 'F']) (limit fuel : Nat) (cs : List Char) :
    LineExpr.outcome limit fuel (ref .namedExpr) (c :: cs) = none := by
  have all : (valueStarts.all fun c => c ∈ ['N', 'T', 'F'] || (ref .namedExpr).Refuses c) =
      true := by decide +kernel
  have refuses : (ref .namedExpr).Refuses c := by
    simpa [noWord] using List.all_eq_true.1 all c start
  exact refuses.outcome (not_isSpace_of_mem_valueStarts start) cs

namespace IsDigits

variable {ds : List Char} (h : IsDigits ds)

include h

/-- There is a first digit. -/
theorem exists_cons : ∃ c tail, ds = c :: tail ∧ c ∈ "0123456789".toList := by
  obtain ⟨c, tail, rfl⟩ := List.exists_cons_of_ne_nil h.nonempty
  exact ⟨c, tail, rfl, mem_digits (h.digits c List.mem_cons_self)⟩

/-- Digits in front of a mark are an integer. -/
theorem outcome_number {rest : List Char} (mark : AtMark rest) (limit fuel : Nat) :
    number.outcome limit fuel (ds ++ rest) = some (rest, [.token .integer .none ds]) := by
  have up_to_mark : ∀ {p : Pattern}, p.Avoids (· ∈ itemMarks) →
      p.scan (ds ++ rest) = (p.scan ds).map fun x => (x.1, x.2 ++ rest) :=
    fun avoids => Pattern.scan_append_of_avoids avoids mark ds
  have noImaginary : imaginaryPattern.scan (ds ++ rest) = none := by
    rw [up_to_mark (by decide), h.scan_imaginary]
    rfl
  have noFloat : floatPattern.scan (ds ++ rest) = none := by
    rw [up_to_mark (by decide), h.scan_float]
    rfl
  have taken : integerPattern.scan (ds ++ rest) = some (ds, rest) := by
    rw [up_to_mark (by decide), h.scan_integer]
    rfl
  show (Option.map _ (imaginaryPattern.scan (ds ++ rest))).or
    ((Option.map _ (floatPattern.scan (ds ++ rest))).or
      (Option.map _ (integerPattern.scan (ds ++ rest)))) = _
  rw [noImaginary, noFloat, taken]
  rfl

/-- Digits are read as the constant that they denote. -/
theorem operandReadsAs {v : Value} {n : Nat} (reads : Number.readDigits? 10 ds = some n)
    (value : (naturalConstant n).value = .ok v) : OperandReadsAs ds v := by
  intro limit fuel rest _ _ mark
  refine ⟨.token .integer .none ds, .constant .none (naturalConstant n), ?_, ?_, .constant value⟩
  · obtain ⟨c, tail, e, digit⟩ := h.exists_cons
    have visible := not_isSpace_of_mem_valueStarts (mem_valueStarts_of_mem_digits digit)
    have all : ("0123456789".toList.all fun c => [PhraseName.parenExpr, .listDisplay, .braceDisplay,
        .strings].all fun p => (ref p).Refuses c) = true := by decide +kernel
    have refuses : ∀ p ∈ [PhraseName.parenExpr, .listDisplay, .braceDisplay, .strings],
        (ref p).Refuses c := fun p among =>
      of_decide_eq_true (List.all_eq_true.1 (List.all_eq_true.1 all c digit) p among)
    have number := h.outcome_number mark limit (fuel + 1)
    rw [e, List.cons_append] at number ⊢
    rw [atom, outcome_alt_of_refuses (refuses _ (by decide)) visible,
      outcome_alt_of_refuses (refuses _ (by decide)) visible,
      outcome_alt_of_refuses (refuses _ (by decide)) visible,
      outcome_alt_of_refuses (refuses _ (by decide)) visible, outcome_alt, number]
    rfl
  · rw [exprOf, h.integerConstant_eq reads]
    rfl

end IsDigits

/-- An operand behind a minus is read as its negative. -/
theorem IsDigits.readsAs_negative {ds : List Char} (h : IsDigits ds) {v w : Value}
    (operand : OperandReadsAs ds v) (value : v.unaryOperation .neg = .ok w) :
    ReadsAs ('-' :: ds) w := by
  intro limit fuel rest few enough mark
  rw [List.length_cons] at few enough
  obtain ⟨fuel, rfl⟩ : ∃ n, fuel = n + 4 := ⟨fuel - 4, by omega⟩
  obtain ⟨c, tail, e, digit⟩ := h.exists_cons
  have start : c ∈ valueStarts := mem_valueStarts_of_mem_digits digit
  have begins : BeginsValue (ds ++ rest) := BeginsValue.append ⟨c, tail, e, start⟩ rest
  obtain ⟨tree, x, taken, read, denotes⟩ := operand limit fuel rest (by omega) (by omega) mark
  obtain ⟨mid, minus, first, behind, piece⟩ :=
    outcome_leadingOp .neg limit (fuel + 1) begins.skipBlanks_eq
  -- the minus is the only operator in front of the digits
  have last : leadingOp.outcome limit (fuel + 2) (ds ++ rest) = none := by
    have all : ("0123456789".toList.all fun c => leadingOp.Refuses c) = true := by decide +kernel
    rw [e, List.cons_append]
    exact LineExpr.Refuses.outcome (of_decide_eq_true (List.all_eq_true.1 all c digit))
      (not_isSpace_of_mem_valueStarts start) _
  have repeats : Repeats (leadingOp.outcome limit (fuel + 2)) 1 ('-' :: (ds ++ rest))
      ([minus] ++ []) (ds ++ rest) := .item first (behind.symm ▸ .stop last)
  obtain ⟨left, lead, start'⟩ := repeats.many (show 1 ≤ limit + 1 by omega) rfl
  refine ⟨_, .unary (Span.none.join x.span) .neg x,
    outcome_expression ⟨'-', ds ++ rest, rfl, by decide⟩
      (outcome_namedExpr_eq_none (by decide) (by decide) _ _ _) lead (start'.symm ▸ taken) mark,
    ?_, .negated denotes value⟩
  have primary : exprOf (.phrase .primary .none [tree]) = .ok x := by
    rw [Sketch.exprOf_primary, read]
  have pieces := piecesOf_operator piece (piecesOf_primary primary)
  rw [exprOf, exprOf, List.append_nil, List.singleton_append, pieces]
  rfl

/-- The digits of a number are read as the number. -/
theorem readDigits?_digitsText (n : Nat) :
    Number.readDigits? 10 (Number.digitsText n) = some n := by
  rw [(isDigits_digitsText n).readDigits?_eq]
  exact congrArg some Nat.ofDigitChars_ten_toDigits

/-- An integer is read as what is read back of it. -/
theorem readsAs_int (n : Int64) : ReadsAs (Value.repr (.int n)) (Value.int n).readBack := by
  rcases Int.lt_or_le n.toInt 0 with negative | nonneg
  · have digits := isDigits_digitsText n.toInt.natAbs
    have reads := readDigits?_digitsText n.toInt.natAbs
    obtain ⟨v, value, negated⟩ := Value.negated_naturalConstant negative
    rw [Value.repr_int_of_neg negative]
    exact digits.readsAs_negative (digits.operandReadsAs reads value) negated
  · have digits := isDigits_digitsText n.toInt.toNat
    have reads := readDigits?_digitsText n.toInt.toNat
    rw [Value.repr_int_of_nonneg nonneg]
    obtain ⟨c, tail, e, digit⟩ := digits.exists_cons
    have start : c ∈ valueStarts := mem_valueStarts_of_mem_digits digit
    have plain : ("0123456789".toList.all fun c => c ≠ '-' && c ∉ ['N', 'T', 'F']) = true := by
      decide
    obtain ⟨noMinus, noWord⟩ := Bool.and_eq_true_iff.1 (List.all_eq_true.1 plain c digit)
    refine (digits.operandReadsAs reads (Value.value_naturalConstant nonneg)).readsAs e start
      (of_decide_eq_true noMinus) fun limit fuel rest _ => ?_
    rw [e]
    exact outcome_namedExpr_eq_none start (of_decide_eq_true noWord) _ _ _

/-! ## Strings -/

section Strings

variable {quote : Char} (isQuote : Lexeme.IsQuote quote) (text : String)

include isQuote

/-- The literal of a text in front of a mark is the only one there. -/
theorem outcome_strings_encodeQuoted {rest : List Char} (mark : AtMark rest) (limit fuel : Nat) :
    LineExpr.outcome limit (fuel + 1) (ref .strings) (Text.encodeQuoted quote text.toList ++ rest) =
      some (rest, [.phrase .strings .none
        [.token .string .none (Text.encodeQuoted quote text.toList)]]) := by
  have scanned := scan_string_encodeQuoted isQuote text.toList (mark.head?_ne isQuote)
  have first : LineExpr.outcome limit fuel (.token .string)
      (Text.encodeQuoted quote text.toList ++ rest) =
        some (rest, [.token .string .none (Text.encodeQuoted quote text.toList)]) := by
    rw [LineExpr.outcome, Peg.outcome, show (lineGrammar.pattern .string).scan _ = _ from scanned]
    rfl
  have noMore : LineExpr.outcome limit fuel (.token .string) rest = none := by
    obtain rfl | ⟨tail, rfl | rfl | rfl⟩ := mark.eq_or <;> rfl
  rw [outcome_ref, show body .strings = Peg.many1 (.token .string) from rfl, Peg.many1,
    outcome_seq first, mark.skipBlanks_eq, outcome_many_none noMore]
  rfl

/-- The literal of a text is read as the text. -/
theorem operandReadsAs_encodeQuoted :
    OperandReadsAs (Text.encodeQuoted quote text.toList) (.str text) := by
  intro limit fuel rest _ _ mark
  refine ⟨.phrase .strings .none [.token .string .none (Text.encodeQuoted quote text.toList)],
    .constant .none (.str text), ?_, ?_, .constant rfl⟩
  · have noDisplay : ∀ p ∈ [PhraseName.parenExpr, .listDisplay, .braceDisplay],
        LineExpr.outcome limit (fuel + 1) (ref p)
          (Text.encodeQuoted quote text.toList ++ rest) = none := by
      intro p among
      have all : ([PhraseName.parenExpr, .listDisplay, .braceDisplay].all fun p =>
          (ref p).Refuses '"' && (ref p).Refuses '\'') = true := by decide +kernel
      obtain ⟨double, single⟩ := Bool.and_eq_true_iff.1 (List.all_eq_true.1 all p among)
      rcases isQuote with rfl | rfl
      · exact (of_decide_eq_true double).outcome rfl _
      · exact (of_decide_eq_true single).outcome rfl _
    rw [atom, outcome_alt, outcome_alt, outcome_alt, outcome_alt, noDisplay _ (by decide),
      noDisplay _ (by decide), noDisplay _ (by decide),
      outcome_strings_encodeQuoted isQuote text mark]
    rfl
  · rw [exprOf]
    exact congrArg Except.ok (stringExpr_encodeQuoted isQuote .none text)

/-- The literal of a text in either kind of quotes is read as the text. -/
theorem readsAs_encodeQuoted : ReadsAs (Text.encodeQuoted quote text.toList) (.str text) := by
  have start : quote ∈ valueStarts := by rcases isQuote with rfl | rfl <;> decide
  have noMinus : quote ≠ '-' := by rcases isQuote with rfl | rfl <;> decide
  have noWord : quote ∉ ['N', 'T', 'F'] := by rcases isQuote with rfl | rfl <;> decide
  exact (operandReadsAs_encodeQuoted isQuote text).readsAs rfl start noMinus
    fun limit fuel rest _ => outcome_namedExpr_eq_none start noWord limit fuel _

end Strings

end BlockEditor
