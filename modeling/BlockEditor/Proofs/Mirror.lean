import BlockEditor.Block.Code
import BlockEditor.Proofs.CodeTree
import BlockEditor.Proofs.KeptNumbers
import BlockEditor.Proofs.Validation

/-!
# Blocks and the program they denote

The code of a document is read as a program that mirrors the document: one statement for every
block, in the same order and at the same depth, with the literals of the blocks.
-/

namespace BlockEditor

/-! ## Mirrored programs -/

namespace Expr

/-- An expression is the literal of a number, under a sign if the number is negative. -/
def IsNumber (x : Float) (e : Expr) : Prop :=
  ∃ span c, c.double? = some x.abs ∧
    if x < 0.0 then ∃ outer, e = .unary outer .neg (.constant span c) else e = .constant span c

/-- The literal of a number that is not negative is a constant for its magnitude. -/
theorem isNumber_constant {x : Float} {c : Constant} (value : c.double? = some x.abs)
    (positive : ¬ x < 0.0) (span : Span) : (constant span c).IsNumber x :=
  ⟨span, c, value, by rw [if_neg positive]⟩

/-- The literal of a negative number is such a constant behind a sign. -/
theorem isNumber_neg {x : Float} {c : Constant} (value : c.double? = some x.abs)
    (negative : x < 0.0) (outer span : Span) : (unary outer .neg (constant span c)).IsNumber x :=
  ⟨span, c, value, by rw [if_pos negative]; exact ⟨outer, rfl⟩⟩

/-- An expression is the constant that digits denote. -/
def IsNatural (ds : List Char) (e : Expr) : Prop :=
  ∃ span n, Number.readDigits? 10 ds = some n ∧ e = .constant span (naturalConstant n)

/-- An expression is the literal of a text. -/
def IsText (text : String) (e : Expr) : Prop := ∃ span, e = .constant span (.str text)

end Expr

namespace Block

/-- The number of a number block. -/
def numberOf (b : Block) : Float := (b.numberField? Slot.number).getD 0.0

/-- The text of a text block. -/
def textOf (b : Block) : String := (b.textField? Slot.text).getD ""

/-- The variable of a block, or a name for one that has none. -/
def variableOf (b : Block) (absent : String) : String :=
  match b.textField? Slot.variableName with
  | some name => if name = "" then absent else name
  | none => absent

/-- The bound of a loop. -/
def countOf (b : Block) : Float := (b.numberField? Slot.count).getD 0.0

/-- The blocks in the body of a block. -/
def bodyOf (b : Block) : List Block := (slotAt? Slot.body b.statements).getD []

/-- An expression is the literal of a block. -/
inductive LiteralMirrors (b : Block) (e : Expr) : Prop
  | number : b.kind = BlockKind.number → e.IsNumber b.numberOf → LiteralMirrors b e
  | text : b.kind = BlockKind.text → e.IsText b.textOf → LiteralMirrors b e

/-- An expression is that of a value slot: the literal in it, or a constant for an empty slot. -/
def SlotMirrors (b : Block) (slot : String) (absent : Constant) (e : Expr) : Prop :=
  match b.value? slot with
  | some c => c.LiteralMirrors e
  | none => ∃ span, e = .constant span absent

mutual

/-- A statement is that of a block. -/
inductive Mirrors : Block → Stmt → Prop
  | print {b : Block} {span call func : Span} {arg : Expr} :
    b.kind = BlockKind.print → b.SlotMirrors Slot.text .none arg →
      Mirrors b (.expr span (.call call (.name func "print") [arg] []))
  | assign {b : Block} {span target : Span} {value : Expr} :
    b.kind = BlockKind.assign → b.SlotMirrors Slot.value .none value →
      Mirrors b (.assign span [.name target (b.variableOf "x")] value)
  | branch {b : Block} {span : Span} {test : Expr} {body : List Stmt} :
    b.kind = BlockKind.branch → b.SlotMirrors Slot.condition (.bool false) test →
      BodyMirrors b.bodyOf body → Mirrors b (.branch span test body [])
  | loop {b : Block} {span target call func : Span} {bound : Expr} {body : List Stmt} :
    b.kind = BlockKind.loop → bound.IsNumber b.countOf → bound.IsNatural b.countCode →
      BodyMirrors b.bodyOf body → Mirrors b (.forLoop span false (.name target (b.variableOf "i"))
        (.call call (.name func "range") [bound] []) body [])
  | literal {b : Block} {span : Span} {value : Expr} :
    b.LiteralMirrors value → Mirrors b (.expr span value)

/-- Statements are those of blocks, one by one. -/
inductive AllMirror : List Block → List Stmt → Prop
  | nil : AllMirror [] []
  | cons {b : Block} {s : Stmt} {bs : List Block} {ss : List Stmt} :
    Mirrors b s → AllMirror bs ss → AllMirror (b :: bs) (s :: ss)

/-- A body is that of blocks: their statements, or one that does nothing where there is none. -/
inductive BodyMirrors : List Block → List Stmt → Prop
  | empty {span : Span} : BodyMirrors [] [.pass span]
  | blocks {b : Block} {bs : List Block} {body : List Stmt} :
    AllMirror (b :: bs) body → BodyMirrors (b :: bs) body

end

end Block

/-! ## Numbers in mirrored programs -/

/-- The number of a literal is kept. -/
def Expr.NumberKept : Expr → Prop
  | .constant _ c => ∀ x ∈ c.double?, c.isKept = true
  | .unary _ _ operand => NumberKept operand
  | _ => True

namespace Stmt

mutual

/-- The numbers that stand in a statement of generated code are kept. -/
def NumbersKept : Stmt → Prop
  | .expr _ (.call _ _ [arg] _) => arg.NumberKept
  | .assign _ _ value => value.NumberKept
  | .branch _ test body _ => test.NumberKept ∧ AllNumbersKept body
  | .forLoop _ _ _ _ body _ => AllNumbersKept body
  | _ => True

/-- The numbers that stand in neighbouring statements of generated code are kept. -/
def AllNumbersKept : List Stmt → Prop
  | [] => True
  | s :: rest => NumbersKept s ∧ AllNumbersKept rest

end

end Stmt

namespace Block

/-! ## Sound blocks -/

/-- A block is a literal that has code in the grammar. -/
inductive IsLiteral (b : Block) : Prop
  | number : b.kind = BlockKind.number → Number.isFinite b.numberOf = true → IsLiteral b
  | text : b.kind = BlockKind.text → IsLiteral b

/-- The variable of a block is an identifier, unless there is none. -/
def Named (b : Block) : Prop :=
  ∀ name ∈ b.textField? Slot.variableName, name ≠ "" → IsIdentifier name.toList

instance (b : Block) : Decidable b.Named := by
  unfold Named
  infer_instance

/-- A value slot is empty or holds a literal. -/
def SlotSound (b : Block) (slot : String) : Prop := ∀ c ∈ b.value? slot, c.IsLiteral

/-- The bound of a loop is a number that can be counted to. -/
def CountSound (b : Block) : Prop :=
  ∀ v ∈ b.field? Slot.count, ∃ x, v = .number x ∧ Number.isFinite x = true ∧
    Number.isWhole x = true ∧ ¬ x < 0.0

/-- A block has code in the grammar. -/
inductive Sound : Block → Prop
  | literal {b : Block} : b.IsLiteral → Sound b
  | print {b : Block} : b.kind = BlockKind.print → b.SlotSound Slot.text → Sound b
  | assign {b : Block} : b.kind = BlockKind.assign → b.Named → b.SlotSound Slot.value → Sound b
  | branch {b : Block} : b.kind = BlockKind.branch → b.SlotSound Slot.condition →
    (∀ c ∈ b.bodyOf, Sound c) → Sound b
  | loop {b : Block} : b.kind = BlockKind.loop → b.Named → b.CountSound →
    (∀ c ∈ b.bodyOf, Sound c) → Sound b

/-! ## Code of literals -/

/-- The literal of a number is a form of the grammar that denotes the number, and keeps it. -/
theorem exists_form_numberCode {x : Float} (finite : Number.isFinite x = true) (f : Filling) :
    ∃ (l : LiteralForm) (g : Filling), g.name = f.name ∧ fill g.text l.outline = numberCode x ∧
      ∀ e, l.Denotes g e → e.IsNumber x ∧ e.NumberKept := by
  have finite' := Number.isFinite_abs finite
  have nonneg := Number.not_abs_lt_zero finite
  have whole := fieldText_eq finite
  unfold numberCode
  rw [Number.isNaN_of_isFinite finite, Number.isInf_of_isFinite finite]
  simp only [Bool.false_eq_true, if_false]
  -- Four forms of literals: with a sign or without one, and with a point or without one.
  by_cases negative : x < 0.0
  · rw [if_pos negative]
    rw [if_pos negative] at whole
    obtain ⟨cs, text, number⟩ := fieldText_of_neg finite negative
    have same : Number.fieldLayout.text x.abs = cs := List.tail_eq_of_cons_eq (whole.symm.trans text)
    rcases number with digits | decimal
    · refine ⟨.negativeInteger, { f with integer := cs, isInteger := digits.isDigits }, rfl, ?_, ?_⟩
      · rw [text, LiteralForm.outline, fill_append, fill_ofText]
        simp [fill, fill_ofText, Filling.text]
      · rintro e ⟨outer, span, n, reads, rfl⟩
        exact ⟨Expr.isNumber_neg (digits.reads n reads) negative outer span,
          fun _ _ => digits.isKept finite' nonneg same reads⟩
    · refine ⟨.negativeDecimal, { f with decimal := cs, isDecimal := decimal.isDecimal }, rfl, ?_, ?_⟩
      · rw [text, LiteralForm.outline, fill_append, fill_ofText]
        simp [fill, fill_ofText, Filling.text]
      · rintro e ⟨outer, span, d, reads, rfl⟩
        exact ⟨Expr.isNumber_neg (decimal.reads d reads) negative outer span,
          fun _ _ => decimal.isKept finite' nonneg same reads⟩
  · rw [if_neg negative]
    rw [if_neg negative] at whole
    rcases fieldText_of_nonneg finite negative with digits | decimal
    · refine ⟨.integer, { f with integer := _, isInteger := digits.isDigits }, rfl, fill_hole _ _, ?_⟩
      rintro e ⟨span, n, reads, rfl⟩
      exact ⟨Expr.isNumber_constant (digits.reads n reads) negative span,
        fun _ _ => digits.isKept finite' nonneg whole.symm reads⟩
    · refine ⟨.decimal, { f with decimal := _, isDecimal := decimal.isDecimal }, rfl, fill_hole _ _, ?_⟩
      rintro e ⟨span, d, reads, rfl⟩
      exact ⟨Expr.isNumber_constant (decimal.reads d reads) negative span,
        fun _ _ => decimal.isKept finite' nonneg whole.symm reads⟩

/-- The code of a literal is a form of the grammar that denotes the literal. -/
theorem IsLiteral.exists_form {c : Block} (h : c.IsLiteral) (f : Filling) :
    ∃ (l : LiteralForm) (g : Filling), g.name = f.name ∧
      c.expressionCode? = some (fill g.text l.outline) ∧
      ∀ e, l.Denotes g e → c.LiteralMirrors e ∧ e.NumberKept := by
  unfold expressionCode?
  rcases h with ⟨kind, finite⟩ | ⟨kind⟩
  · obtain ⟨l, g, name, code, denotes⟩ := exists_form_numberCode finite f
    refine ⟨l, g, name, ?_, fun e he => ⟨.number kind (denotes e he).1, (denotes e he).2⟩⟩
    rw [if_pos kind, code]
    rfl
  · refine ⟨.quoted, { f with quoted := c.textOf }, rfl, ?_, ?_⟩
    · rw [if_neg (by rw [kind]; decide), if_pos kind, LiteralForm.outline, fill_hole]
      rfl
    · rintro e ⟨span, rfl⟩
      exact ⟨.text kind ⟨span, rfl⟩, nofun⟩

/-- The code in a value slot is a form of the grammar that denotes what is in the slot. -/
theorem exists_form_valueCode {b : Block} {slot absent : String} {constant : Constant}
    {empty : LiteralForm} (sound : b.SlotSound slot) (f : Filling)
    (text : fill f.text empty.outline = absent.toList) (noNumber : constant.double? = none)
    (value : ∀ e, empty.Denotes f e → ∃ span, e = .constant span constant) :
    ∃ (l : LiteralForm) (g : Filling), g.name = f.name ∧
      fill g.text l.outline = b.valueCode slot absent ∧
      ∀ e, l.Denotes g e → b.SlotMirrors slot constant e ∧ e.NumberKept := by
  unfold valueCode SlotMirrors
  cases e : b.value? slot with
  | none =>
    refine ⟨empty, f, rfl, text, fun e denotes => ⟨value e denotes, ?_⟩⟩
    obtain ⟨span, rfl⟩ := value e denotes
    intro x number
    rw [noNumber] at number
    cases number
  | some c =>
    obtain ⟨l, g, name, code, denotes⟩ := (sound c e).exists_form f
    exact ⟨l, g, name, by rw [Option.bind_some, code]; rfl, denotes⟩

/-- The code of a variable is its name, or the one for blocks without a variable. -/
theorem variableCode_eq (b : Block) (absent : String) :
    b.variableCode absent = (b.variableOf absent).toList := by
  unfold variableCode variableOf
  cases b.textField? Slot.variableName with
  | none => rfl
  | some name => exact (apply_ite String.toList (name = "") absent name).symm

/-- The variable of a block is an identifier, given that the default is one. -/
theorem Named.isIdentifier {b : Block} (named : b.Named) {absent : String}
    (default : IsIdentifier absent.toList) : IsIdentifier (b.variableOf absent).toList := by
  unfold variableOf
  split
  · rename_i name e
    split
    · exact default
    · rename_i nonempty
      exact named name e nonempty
  · exact default

/-- The code of a bound is digits that denote the bound. -/
theorem CountSound.digitsOf {b : Block} (sound : b.CountSound) :
    DigitsOf b.countOf.abs b.countCode ∧ ¬ b.countOf < 0.0 := by
  unfold countOf numberField? countCode
  cases e : b.field? Slot.count with
  | none =>
    have zero : (0.0 : Float).abs = 0.0 := Number.abs_of_zero Number.unpack_zero
    refine ⟨?_, Number.not_lt_zero_of_zero Number.unpack_zero⟩
    show DigitsOf (0.0 : Float).abs ['0']
    rw [zero]
    exact digitsOf_zero
  | some v =>
    obtain ⟨x, rfl, finite, whole, least⟩ := sound v e
    exact ⟨fieldText_of_whole finite whole least, least⟩

/-! ## Code of blocks -/

/-- The lines of a body; an empty one holds a statement that does nothing. -/
def bodyLines : List Block → List (List Char)
  | [] => ["pass".toList]
  | b :: bs => linesOfAll (b :: bs)

/-- The lines of a slot are the body lines of its blocks. -/
theorem slotAt?_slotLines (name : String) (slots : List (String × List Block)) :
    slotAt? name (slotLines slots) = (slotAt? name slots).map bodyLines := by
  induction slots with
  | nil => rfl
  | cons slot slots ih =>
    obtain ⟨key, bs⟩ := slot
    cases bs with
    | nil =>
      rw [slotLines, slotAt?, slotAt?, ih]
      split <;> rfl
    | cons b bs =>
      rw [slotLines, slotAt?, slotAt?, ih]
      split <;> rfl

/-- A block writes its own lines around those of its body. -/
theorem lines_eq (b : Block) : b.lines = b.linesWith (bodyLines b.bodyOf) := by
  cases b with
  | mk kind fields values statements =>
    rw [lines, slotAt?_slotLines]
    unfold bodyOf Block.statements
    cases slotAt? Slot.body statements <;> rfl

/-- The line of a literal. -/
theorem IsLiteral.linesWith_eq {b : Block} (h : b.IsLiteral) (body : List (List Char)) :
    b.linesWith body = b.expressionCode?.toList := by
  unfold linesWith
  have other : ∀ kind, kind ≠ BlockKind.number → kind ≠ BlockKind.text → b.kind ≠ kind := by
    rintro kind notNumber notText rfl
    cases h with
    | number same => exact notNumber same
    | text same => exact notText same
  rw [if_neg (other _ (by decide) (by decide)), if_neg (other _ (by decide) (by decide)),
    if_neg (other _ (by decide) (by decide)), if_neg (other _ (by decide) (by decide))]

end Block

/-- Trees of lines have the code that is given by lines, moved to the right as a whole. -/
def CodeTree.Prints (ts : List CodeTree) (lines : List (List Char)) : Prop :=
  ∀ column, (rowsOf column ts).map Row.code = lines.map (List.replicate column ' ' ++ ·)

namespace CodeTree.Prints

theorem nil : Prints [] [] := fun _ => rfl

/-- The lines of further trees stand below. -/
theorem cons {t : CodeTree} {ts : List CodeTree} {here there : List (List Char)}
    (first : Prints [t] here) (others : Prints ts there) : Prints (t :: ts) (here ++ there) := by
  intro column
  have whole := first column
  rw [rowsOf, rowsOf, List.append_nil] at whole
  rw [rowsOf, List.map_append, List.map_append, whole, others]

/-- A simple line is printed by the form that it fills. -/
theorem simple {f : Filling} {form : LineForm} {isSimple : form.isHead = false} {line : List Char}
    (code : fill f.text form.outline = line) : Prints [.simple f form isSimple] [line] := by
  intro column
  rw [rowsOf, rowsOf, rows, ← code]
  rfl

/-- A clause is its head with the body below it, moved one level to the right. -/
theorem clause {f : Filling} {form : LineForm} {isHead : form.isHead = true} {first : CodeTree}
    {others : List CodeTree} {line : List Char} {body : List (List Char)}
    (code : fill f.text form.outline = line) (prints : Prints (first :: others) body) :
    Prints [.clause f form isHead first others] (line :: body.map Block.indented) := by
  intro column
  have deeper : (body.map Block.indented).map (List.replicate column ' ' ++ ·) =
      body.map (List.replicate (column + 2) ' ' ++ ·) := by
    rw [List.map_map]
    apply List.map_congr_left
    intro line _
    show List.replicate column ' ' ++ ' ' :: ' ' :: line = _
    rw [List.replicate_add, List.append_assoc]
    rfl
  have below := prints (column + 2)
  rw [rowsOf] at below
  rw [rowsOf, rowsOf, List.append_nil, rows, List.map_cons, List.map_cons, below, deeper, ← code]
  rfl

end CodeTree.Prints

namespace Block

/-- A tree of lines is the code of a block, and says a statement that mirrors it and keeps its
numbers. -/
structure WrittenAs (b : Block) (t : CodeTree) : Prop where
  prints : CodeTree.Prints [t] b.lines
  mirrors : ∀ s, t.Says s → b.Mirrors s ∧ s.NumbersKept

/-- Blocks one by one. -/
theorem exists_trees {bs : List Block} (h : ∀ b ∈ bs, ∃ t, b.WrittenAs t) :
    ∃ ts, CodeTree.Prints ts (linesOfAll bs) ∧
      ∀ ss, CodeTree.AllSay ts ss → AllMirror bs ss ∧ Stmt.AllNumbersKept ss := by
  induction bs with
  | nil =>
    refine ⟨[], .nil, ?_⟩
    rintro ss ⟨⟩
    exact ⟨.nil, trivial⟩
  | cons b bs ih =>
    obtain ⟨t, prints, mirrors⟩ := h b (by simp)
    obtain ⟨ts, printsAll, mirrorAll⟩ := ih fun c member => h c (by simp [member])
    refine ⟨t :: ts, prints.cons printsAll, ?_⟩
    rintro ss (_ | ⟨first, others⟩)
    obtain ⟨here, kept⟩ := mirrors _ first
    obtain ⟨there, keptAll⟩ := mirrorAll _ others
    exact ⟨.cons here there, kept, keptAll⟩

/-- The body of a clause has at least one line. -/
theorem exists_body {bs : List Block} (h : ∀ b ∈ bs, ∃ t, b.WrittenAs t) :
    ∃ first others, CodeTree.Prints (first :: others) (bodyLines bs) ∧
      ∀ ss, CodeTree.AllSay (first :: others) ss → BodyMirrors bs ss ∧ Stmt.AllNumbersKept ss := by
  cases bs with
  | nil =>
    refine ⟨.simple {} .pass rfl, [], .simple (fill_ofText _ _), ?_⟩
    rintro ss (_ | ⟨first, others⟩)
    cases others
    cases first with
    | simple holds =>
      obtain ⟨span, e⟩ := holds
      cases e
      exact ⟨.empty, trivial, trivial⟩
  | cons b bs =>
    obtain ⟨t, prints, mirrors⟩ := h b (by simp)
    obtain ⟨ts, printsAll, mirrorAll⟩ := exists_trees fun c (member : c ∈ bs) => h c (by simp [member])
    refine ⟨t, ts, prints.cons printsAll, ?_⟩
    rintro ss (_ | ⟨first, others⟩)
    obtain ⟨here, kept⟩ := mirrors _ first
    obtain ⟨there, keptAll⟩ := mirrorAll _ others
    exact ⟨.blocks (.cons here there), kept, keptAll⟩

section Trees

variable {b : Block}

/-- A literal is written as a line with its expression. -/
theorem exists_tree_literal (h : b.IsLiteral) : ∃ t, b.WrittenAs t := by
  obtain ⟨l, g, -, code, denotes⟩ := h.exists_form {}
  refine ⟨.simple g (.value l) rfl, ?_, ?_⟩
  · rw [lines_eq, h.linesWith_eq, code]
    exact .simple rfl
  · rintro s ⟨span, e, same, denoted⟩
    cases same
    have keeps : (Stmt.expr span e).NumbersKept := by
      cases (denotes e denoted).1 with
      | number _ number =>
        obtain ⟨_, _, -, form⟩ := number
        split at form
        · obtain ⟨_, rfl⟩ := form
          trivial
        · subst form
          trivial
      | text _ text =>
        obtain ⟨_, rfl⟩ := text
        trivial
    exact ⟨.literal (denotes e denoted).1, keeps⟩

/-- A block that prints is written as a call. -/
theorem exists_tree_print (kind : b.kind = BlockKind.print) (value : b.SlotSound Slot.text) :
    ∃ t, b.WrittenAs t := by
  obtain ⟨l, g, -, code, denotes⟩ := exists_form_valueCode value {}
    (fill_ofText _ "None") rfl fun e (h : LiteralForm.none.Denotes _ e) => h
  refine ⟨.simple g (.print l) rfl, ?_, ?_⟩
  · rw [lines_eq, linesWith, if_pos kind]
    apply CodeTree.Prints.simple
    rw [LineForm.outline, fill_append, fill_append, fill_ofText, fill_ofText, code]
    rfl
  · rintro s ⟨span, call, func, e, same, denoted⟩
    cases same
    exact ⟨.print kind (denotes e denoted).1, (denotes e denoted).2⟩

/-- A block that assigns is written as an assignment. -/
theorem exists_tree_assign (kind : b.kind = BlockKind.assign) (named : b.Named)
    (value : b.SlotSound Slot.value) : ∃ t, b.WrittenAs t := by
  have isName : IsIdentifier (b.variableOf "x").toList := named.isIdentifier (by decide +kernel)
  obtain ⟨l, g, name, code, denotes⟩ := exists_form_valueCode value { name := _, isName }
    (fill_ofText _ "None") rfl fun e (h : LiteralForm.none.Denotes _ e) => h
  refine ⟨.simple g (.assign l) rfl, ?_, ?_⟩
  · rw [lines_eq, linesWith, if_neg (by rw [kind]; decide), if_pos kind]
    apply CodeTree.Prints.simple
    rw [LineForm.outline, variableCode_eq, ← code]
    simp [fill_append, fill_ofText, fill, Filling.text, name]
  · rintro s ⟨span, target, e, same, denoted⟩
    cases same
    rw [name, String.ofList_toList]
    exact ⟨.assign kind (denotes e denoted).1, (denotes e denoted).2⟩

/-- A condition is written as an `if` with its body below. -/
theorem exists_tree_branch (kind : b.kind = BlockKind.branch) (test : b.SlotSound Slot.condition)
    (body : ∀ c ∈ b.bodyOf, ∃ t, c.WrittenAs t) : ∃ t, b.WrittenAs t := by
  obtain ⟨l, g, -, code, denotes⟩ := exists_form_valueCode test {}
    (fill_ofText _ "False") rfl fun e (h : LiteralForm.false.Denotes _ e) => h
  obtain ⟨first, others, prints, mirrors⟩ := exists_body body
  refine ⟨.clause g (.branch l) rfl first others, ?_, ?_⟩
  · rw [lines_eq, linesWith, if_neg (by rw [kind]; decide), if_neg (by rw [kind]; decide),
      if_pos kind]
    refine .clause ?_ prints
    rw [LineForm.outline, fill_append, fill_append, fill_ofText, fill_ofText, code]
    rfl
  · intro s told
    cases told with
    | branch holds bodies =>
      obtain ⟨e, same, denoted⟩ := holds
      cases same
      obtain ⟨inside, kept⟩ := mirrors _ bodies
      exact ⟨.branch kind (denotes _ denoted).1 inside, (denotes _ denoted).2, kept⟩
    | loop holds bodies =>
      obtain ⟨e, same, -⟩ := holds
      cases same

/-- A loop is written as a `for` with its body below. -/
theorem exists_tree_loop (kind : b.kind = BlockKind.loop) (named : b.Named) (count : b.CountSound)
    (body : ∀ c ∈ b.bodyOf, ∃ t, c.WrittenAs t) : ∃ t, b.WrittenAs t := by
  obtain ⟨digits, least⟩ := count.digitsOf
  have isName : IsIdentifier (b.variableOf "i").toList := named.isIdentifier (by decide +kernel)
  let f : Filling := { name := _, isName, integer := _, isInteger := digits.isDigits }
  obtain ⟨first, others, prints, mirrors⟩ := exists_body body
  refine ⟨.clause f .loop rfl first others, ?_, ?_⟩
  · rw [lines_eq, linesWith, if_neg (by rw [kind]; decide), if_neg (by rw [kind]; decide),
      if_neg (by rw [kind]; decide), if_pos kind]
    refine .clause ?_ prints
    rw [LineForm.outline, variableCode_eq]
    simp [fill_append, fill_ofText, fill, f, Filling.text]
  · intro s told
    cases told with
    | branch holds bodies =>
      obtain ⟨target, call, func, e, same, -⟩ := holds
      cases same
    | loop holds bodies =>
      obtain ⟨target, call, func, e, same, span, n, reads, denoted⟩ := holds
      cases same
      subst denoted
      rw [String.ofList_toList]
      obtain ⟨inside, kept⟩ := mirrors _ bodies
      -- digits carry no sign, so the constant stands for the bound itself
      exact ⟨.loop kind (Expr.isNumber_constant (digits.reads n reads) least span)
        ⟨span, n, reads, rfl⟩ inside, kept⟩

end Trees

/-- A sound block is written as a tree of lines. -/
theorem Sound.exists_tree {b : Block} (h : b.Sound) : ∃ t, b.WrittenAs t := by
  induction h with
  | literal h => exact exists_tree_literal h
  | print kind value => exact exists_tree_print kind value
  | assign kind named value => exact exists_tree_assign kind named value
  | branch kind test _ ih => exact exists_tree_branch kind test ih
  | loop kind named count _ ih => exact exists_tree_loop kind named count ih

end Block

/-! ## Validated documents -/

namespace Block

mutual

/-- All blocks in a block, with itself. -/
def nodes : Block → List Block
  | mk kind fields values statements =>
    mk kind fields values statements :: (valueNodes values ++ slotNodes statements)

/-- All blocks in a sequence. -/
def nodesOf : List Block → List Block
  | [] => []
  | b :: bs => nodes b ++ nodesOf bs

/-- All blocks in value slots. -/
def valueNodes : List (String × Block) → List Block
  | [] => []
  | (_, b) :: slots => nodes b ++ valueNodes slots

/-- All blocks in statement slots. -/
def slotNodes : List (String × List Block) → List Block
  | [] => []
  | (_, bs) :: slots => nodesOf bs ++ slotNodes slots

end

theorem self_mem_nodes (b : Block) : b ∈ b.nodes := by
  cases b with
  | mk => rw [nodes]; exact List.mem_cons_self

/-- The blocks in a sequence are those in its members. -/
theorem mem_nodesOf {c : Block} {bs : List Block} : c ∈ nodesOf bs ↔ ∃ b ∈ bs, c ∈ b.nodes := by
  induction bs with
  | nil => simp [nodesOf]
  | cons b bs ih => simp [nodesOf, ih]

/-- The blocks in value slots are those in what the slots hold. -/
theorem mem_valueNodes {c : Block} {slots : List (String × Block)} :
    c ∈ valueNodes slots ↔ ∃ slot ∈ slots, c ∈ slot.2.nodes := by
  induction slots with
  | nil => simp [valueNodes]
  | cons slot slots ih => rw [valueNodes, List.mem_append, ih, List.exists_mem_cons_iff]

/-- The blocks in statement slots are those in the members of what they hold. -/
theorem mem_slotNodes {c : Block} {slots : List (String × List Block)} :
    c ∈ slotNodes slots ↔ ∃ slot ∈ slots, ∃ b ∈ slot.2, c ∈ b.nodes := by
  induction slots with
  | nil => simp [slotNodes]
  | cons slot slots ih =>
    rw [slotNodes, List.mem_append, mem_nodesOf, ih, List.exists_mem_cons_iff]

/-- The blocks in a block are the block itself and those in what its slots hold. -/
theorem mem_nodes_iff {b c : Block} : c ∈ b.nodes ↔ c = b ∨
    (∃ slot ∈ b.values, c ∈ slot.2.nodes) ∨ ∃ slot ∈ b.statements, ∃ d ∈ slot.2, c ∈ d.nodes := by
  cases b with
  | mk => rw [nodes, List.mem_cons, List.mem_append, mem_valueNodes, mem_slotNodes]; rfl

/-- What a value slot holds is smaller than the block. -/
theorem sizeOf_lt_of_mem_values {b : Block} {slot : String × Block} (member : slot ∈ b.values) :
    sizeOf slot.2 < sizeOf b := by
  obtain ⟨kind, fields, values, statements⟩ := b
  obtain ⟨name, c⟩ := slot
  have smaller := List.sizeOf_lt_of_mem (show (name, c) ∈ values from member)
  rw [Prod.mk.sizeOf_spec] at smaller
  rw [mk.sizeOf_spec]
  show sizeOf c < _
  omega

theorem sizeOf_lt_of_mem_statements {b c : Block} {slot : String × List Block}
    (member : slot ∈ b.statements) (inside : c ∈ slot.2) : sizeOf c < sizeOf b := by
  obtain ⟨kind, fields, values, statements⟩ := b
  obtain ⟨name, bs⟩ := slot
  have smaller := List.sizeOf_lt_of_mem (show (name, bs) ∈ statements from member)
  have inner := List.sizeOf_lt_of_mem (show c ∈ bs from inside)
  rw [Prod.mk.sizeOf_spec] at smaller
  rw [mk.sizeOf_spec]
  omega

/-- A body is held by a statement slot. -/
theorem exists_of_mem_bodyOf {b c : Block} (member : c ∈ b.bodyOf) :
    ∃ slot ∈ b.statements, c ∈ slot.2 := by
  unfold bodyOf at member
  cases found : slotAt? Slot.body b.statements with
  | none => rw [found] at member; cases member
  | some bs =>
    rw [found] at member
    exact ⟨_, mem_of_slotAt? found, member⟩

/-- A checked block is a literal, if blocks of its kind are values. -/
theorem isLiteral_of_output {s : Schema} {b : Block}
    (output : s.shape = .output) (allowed : b.Allowed Registry.standard s) : b.IsLiteral := by
  rcases Registry.standard_get? allowed.known with ⟨statement, -⟩ | ⟨-, ⟨kind, rule⟩ | kind⟩
  · rw [output] at statement
    cases statement
  · refine .number kind ?_
    unfold numberOf numberField? field?
    cases at' : slotAt? Slot.number b.fields with
    | none => decide +kernel
    | some v =>
      have checked := allowed.fields _ (mem_of_slotAt? at')
      obtain ⟨x, rfl, finite, -⟩ := Schema.checkField_number rule checked
      exact finite
  · exact .text kind

/-- A block that was checked for a value is a literal. -/
theorem isLiteral_of_checkBlock {b : Block}
    (h : Registry.standard.checkBlock (some .output) b = .ok ()) : b.IsLiteral := by
  obtain ⟨s, allowed, shape⟩ := Registry.checkBlock_eq_ok_iff.1 h
  exact isLiteral_of_output (shape _ rfl) allowed

/-- A checked block is sound, if its variables are identifiers. -/
theorem sound_of_checkBlock (b : Block) {expected : Option Shape}
    (h : Registry.standard.checkBlock expected b = .ok ()) (named : ∀ c ∈ b.nodes, c.Named) :
    b.Sound := by
  obtain ⟨s, allowed, shape⟩ := Registry.checkBlock_eq_ok_iff.1 h
  have slotSound : ∀ slot, b.SlotSound slot :=
    fun slot c at' => isLiteral_of_checkBlock (allowed.values _ (mem_of_slotAt? at')).2
  have here := named b b.self_mem_nodes
  have body : ∀ c ∈ b.bodyOf, c.Sound := by
    intro c member
    obtain ⟨slot, inStatements, inside⟩ := exists_of_mem_bodyOf member
    have smaller := sizeOf_lt_of_mem_statements inStatements inside
    refine sound_of_checkBlock c ((allowed.statements slot inStatements).2 c inside) ?_
    exact fun d inner => named d (mem_nodes_iff.2 (.inr (.inr ⟨slot, inStatements, c, inside, inner⟩)))
  rcases Registry.standard_get? allowed.known with ⟨-, kind | kind | kind | ⟨kind, rule⟩⟩ | ⟨output, -⟩
  · exact .print kind (slotSound _)
  · exact .assign kind here (slotSound _)
  · exact .branch kind (slotSound _) body
  · refine .loop kind here ?_ body
    intro v at'
    have checked := allowed.fields _ (mem_of_slotAt? at')
    obtain ⟨x, rfl, finite, whole, least⟩ := Schema.checkField_number rule checked
    exact ⟨x, rfl, finite, whole rfl, least 0.0 rfl⟩
  · exact .literal (isLiteral_of_output output allowed)
termination_by sizeOf b

end Block

/-- All blocks in a document. -/
def Document.nodes (d : Document) : List Block := Block.nodesOf d.blocks

/-- Documents of sound blocks have code that is read as a program which mirrors them, and which keeps
its numbers. -/
theorem Document.parse_code_keeps (d : Document) (sound : ∀ b ∈ d.blocks, b.Sound) (name : String) :
    ∃ m, (Source.mk name d.code).parse = .ok m ∧ Block.AllMirror d.blocks m.body ∧
      Stmt.AllNumbersKept m.body := by
  obtain ⟨ts, prints, mirrors⟩ := Block.exists_trees fun b member => (sound b member).exists_tree
  obtain ⟨m, parses, told⟩ := parseText_codeText ts
  refine ⟨m, ?_, mirrors _ told⟩
  have lines : (CodeTree.rowsOf 0 ts).map Row.code = Block.linesOfAll d.blocks := by
    rw [prints 0]
    exact List.map_id _
  have text : d.code.toList = codeText (CodeTree.rowsOf 0 ts) := by
    rw [code, String.toList_ofList, ← lines, List.flatMap_map]
    rfl
  unfold Source.parse
  rw [text, parses]
  rfl

/-- Documents of sound blocks have code that is read as a program which mirrors them. -/
theorem Document.parse_code_of_sound (d : Document) (sound : ∀ b ∈ d.blocks, b.Sound) (name : String) :
    ∃ m, (Source.mk name d.code).parse = .ok m ∧ Block.AllMirror d.blocks m.body := by
  obtain ⟨m, parses, mirrors, -⟩ := d.parse_code_keeps sound name
  exact ⟨m, parses, mirrors⟩

/-- The code of a validated document is read as a program that mirrors the document, if every
variable in it is an identifier. -/
theorem Document.parse_code_mirrors (d : Document) (valid : Registry.standard.validate d = .ok ())
    (named : ∀ b ∈ d.nodes, b.Named) (name : String) :
    ∃ m, (Source.mk name d.code).parse = .ok m ∧ Block.AllMirror d.blocks m.body := by
  apply d.parse_code_of_sound
  intro b member
  have checked := Registry.validate_eq_ok_iff.1 valid b member
  exact b.sound_of_checkBlock checked fun c inner => named c (Block.mem_nodesOf.2 ⟨b, member, inner⟩)

/-- A loop with a quotation mark in its body, a negative number and a branch without blocks. -/
def Document.sample : Document :=
  ⟨[(((Block.ofKind BlockKind.loop).withField Slot.variableName (.text "n")).withField Slot.count
    (.number 3.0)).withStatements Slot.body [
      (Block.ofKind BlockKind.print).withValue Slot.text (some (Block.ofText "it's")),
      (Block.ofKind BlockKind.branch).withValue Slot.condition (some (Block.ofNumber (-2.5)))]]⟩

/-- The sample passes the check of the standard kinds. -/
theorem Document.validate_sample : Registry.standard.validate sample = .ok () := by
  have known : ∀ id, Registry.standard.get? id = _ :=
    fun id => Registry.get?_foldl_register Registry.consistent_empty _ id
  have none : ∀ id, Registry.empty.get? id = none := by
    intro id
    simp [Registry.get?, Registry.empty]
  simp only [none, Option.or_none] at known
  have checked : Registry.standard.checkAll Option.none sample.blocks = .ok () := by
    simp only [sample, Block.ofKind, Block.ofText, Block.ofNumber, Block.withField, Block.withValue,
      Block.withStatements, Block.kind, Block.fields, Block.values, Block.statements, putSlot,
      Registry.checkAll, Registry.checkBlock, Registry.checkValues, Registry.checkSlots, known]
    decide +kernel
  exact Registry.validate_eq_ok_iff.2 (Registry.checkAll_eq_ok_iff.1 checked)

/-- The code of the sample is read as a program that mirrors it. -/
theorem Document.parse_code_mirrors_sample : Registry.standard.validate sample = .ok () ∧
    (∀ b ∈ sample.nodes, b.Named) ∧
    ∃ m, (Source.mk Source.standardInput sample.code).parse = .ok m ∧
      Block.AllMirror sample.blocks m.body := by
  have named : ∀ b ∈ sample.nodes, b.Named := by decide +kernel
  exact ⟨validate_sample, named, parse_code_mirrors sample validate_sample named Source.standardInput⟩

end BlockEditor
