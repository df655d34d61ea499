import BlockEditor.Block.Translation
import BlockEditor.Proofs.Mirror
import BlockEditor.Proofs.Names
import BlockEditor.Proofs.WordDoubles

/-!
# Translated blocks

The blocks that programs are translated into: their literals are finite, their variables are
identifiers, and their loops count to words.  Such blocks have code in the grammar.
-/

namespace BlockEditor

namespace Block

/-! ## Blocks with contents -/

section Contents

variable (b : Block) (name other : String)

@[simp] theorem kind_ofKind (kind : String) : (ofKind kind).kind = kind := rfl

@[simp] theorem kind_withField (v : FieldValue) : (b.withField name v).kind = b.kind := rfl

/-- Filling a value slot keeps the kind of a block. -/
@[simp] theorem kind_withValue (child : Option Block) : (b.withValue name child).kind = b.kind := by
  cases child <;> rfl

@[simp] theorem kind_withStatements (children : List Block) :
    (b.withStatements name children).kind = b.kind := rfl

/-- A field is found once it is set, and the others are as before. -/
@[simp] theorem field?_withField (v : FieldValue) :
    (b.withField name v).field? other = if other = name then some v else b.field? other :=
  slotAt?_putSlot name other v b.fields

/-- Filling a value slot keeps the fields. -/
@[simp] theorem field?_withValue (child : Option Block) :
    (b.withValue name child).field? other = b.field? other := by
  cases child <;> rfl

@[simp] theorem field?_withStatements (children : List Block) :
    (b.withStatements name children).field? other = b.field? other := rfl

@[simp] theorem value?_ofKind (kind : String) : (ofKind kind).value? other = none := rfl

@[simp] theorem value?_withField (v : FieldValue) :
    (b.withField name v).value? other = b.value? other := rfl

@[simp] theorem value?_withStatements (children : List Block) :
    (b.withStatements name children).value? other = b.value? other := rfl

/-- A slot that was empty holds what it was filled with. -/
theorem value?_withValue (child : Option Block) (empty : b.value? name = none) :
    (b.withValue name child).value? name = child := by
  cases child with
  | none => exact empty
  | some c => exact (slotAt?_putSlot name name c b.values).trans (if_pos rfl)

/-- The body of a block is what its slot was filled with. -/
@[simp] theorem bodyOf_withStatements (children : List Block) :
    (b.withStatements Slot.body children).bodyOf = children := by
  show (slotAt? Slot.body (putSlot Slot.body children b.statements)).getD [] = children
  rw [slotAt?_putSlot, if_pos rfl]
  rfl

end Contents

/-! ## Shapes -/

/-- A block is that of a literal or a name. -/
inductive IsPlain : Block → Prop
  | text (text : String) : IsPlain (ofText text)
  | number {x : Float} : Number.isFinite x = true → IsPlain (ofNumber x)

/-- The block of a call of `print`. -/
def ofPrint (arg : Option Block) : Block := (ofKind BlockKind.print).withValue Slot.text arg

/-- The block of an assignment. -/
def ofAssign (name : String) (value : Option Block) : Block :=
  ((ofKind BlockKind.assign).withField Slot.variableName (.text name)).withValue Slot.value value

/-- The block of a branch. -/
def ofBranch (test : Option Block) (body : List Block) : Block :=
  ((ofKind BlockKind.branch).withValue Slot.condition test).withStatements Slot.body body

/-- The block of a loop. -/
def ofLoop (name : String) (count : Float) (body : List Block) : Block :=
  (((ofKind BlockKind.loop).withField Slot.variableName (.text name)).withField Slot.count
    (.number count)).withStatements Slot.body body

/-- A block is one that a statement is translated into. -/
inductive IsTranslated : Block → Prop
  | print {arg : Option Block} : (∀ c ∈ arg, c.IsPlain) → IsTranslated (ofPrint arg)
  | assign {name : String} {value : Option Block} :
    IsIdentifier name.toList → (∀ c ∈ value, c.IsPlain) → IsTranslated (ofAssign name value)
  | branch {test : Option Block} {body : List Block} :
    (∀ c ∈ test, c.IsPlain) → (∀ c ∈ body, IsTranslated c) → IsTranslated (ofBranch test body)
  | loop {name : String} {n : Int64} {body : List Block} :
    IsIdentifier name.toList → 0 ≤ n → (∀ c ∈ body, IsTranslated c) →
      IsTranslated (ofLoop name (Float.ofInt n.toInt) body)

/-! ## Soundness -/

/-- Literals and names have code in the grammar. -/
theorem IsPlain.isLiteral {c : Block} (h : c.IsPlain) : c.IsLiteral := by
  cases h with
  | text text => exact .text rfl
  | number finite => exact .number rfl finite

/-- A block is named if the variable in its field is an identifier. -/
theorem named_of_field {b : Block} {name : String}
    (h : b.field? Slot.variableName = some (.text name)) (isName : IsIdentifier name.toList) :
    b.Named := by
  intro other given _
  rw [textField?, h] at given
  cases given
  exact isName

/-- Translated blocks have code in the grammar. -/
theorem IsTranslated.sound {b : Block} (h : b.IsTranslated) : b.Sound := by
  induction h with
  | @print arg plain =>
    refine .print (by simp [ofPrint]) ?_
    intro c filled
    rw [ofPrint, value?_withValue _ _ _ rfl] at filled
    exact (plain c filled).isLiteral
  | @assign name value isName plain =>
    refine .assign (by simp [ofAssign]) (named_of_field (by simp [ofAssign]) isName) ?_
    intro c filled
    rw [ofAssign, value?_withValue _ _ _ rfl] at filled
    exact (plain c filled).isLiteral
  | @branch test body plain _ ih =>
    refine .branch (by simp [ofBranch]) ?_ ?_
    · intro c filled
      rw [ofBranch, value?_withStatements, value?_withValue _ _ _ rfl] at filled
      exact (plain c filled).isLiteral
    · intro c member
      rw [ofBranch, bodyOf_withStatements] at member
      exact ih c member
  | @loop name n body isName nonneg _ ih =>
    obtain ⟨whole, least⟩ := Number.isWhole_ofInt nonneg
    have other : Slot.variableName ≠ Slot.count := by decide
    refine .loop (by simp [ofLoop]) (named_of_field (by simp [ofLoop, other]) isName) ?_ ?_
    · intro v given
      simp only [ofLoop, field?_withStatements, field?_withField, if_true, Option.mem_some_iff] at given
      exact ⟨_, given.symm, Number.isFinite_ofInt n, whole, least⟩
    · intro c member
      rw [ofLoop, bodyOf_withStatements] at member
      exact ih c member

end Block

/-! ## Translation of programs -/

/-- The numbers of literals are finite. -/
theorem Expr.isFinite_of_number? {e : Expr} {x : Float} (h : e.number? = some x) :
    Number.isFinite x = true := by
  fun_induction Expr.number? e generalizing x with
  | case1 _ n =>
    cases h
    exact Number.isFinite_ofInt n
  | case2 _ y finite =>
    cases h
    exact finite
  | case3 => cases h
  | case4 _ operand ih =>
    obtain ⟨y, value, rfl⟩ := Option.map_eq_some_iff.1 h
    exact Number.isFinite_neg (ih value)
  | case5 _ operand ih => exact ih h
  | case6 => cases h

/-- The block of an expression is that of a literal or a name. -/
theorem Expr.isPlain_of_block? {e : Expr} : ∀ c ∈ e.block?, c.IsPlain := by
  intro c found
  unfold Expr.block? at found
  split at found
  · cases found
    exact .text _
  · cases found
    exact .text _
  · obtain ⟨x, value, rfl⟩ := Option.map_eq_some_iff.1 found
    exact .number (Expr.isFinite_of_number? value)

namespace Stmt

/-- The block of a call is that of a call of `print`. -/
theorem isTranslated_callBlock {e : Expr} {b : Block} (h : callBlock e = .ok b) :
    b.IsTranslated := by
  unfold callBlock at h
  split at h
  · split at h
    · unfold printBlock at h
      split at h
      · cases h
      · split at h
        · cases h
          exact .print Expr.isPlain_of_block?
        · cases h
    · cases h
  · cases h

/-- An assignment to an identifier has a translated block. -/
theorem isTranslated_assignBlock {targets : List Expr} {value : Expr} {b : Block}
    (identified : ∀ e ∈ targets, e.Identified) (h : assignBlock targets value = .ok b) :
    b.IsTranslated := by
  unfold assignBlock at h
  split at h
  · split at h
    · rename_i target _ name named
      cases h
      exact .assign (identified target (by simp) name named) Expr.isPlain_of_block?
    · cases h
  · cases h

/-- The block of a loop counts to a word. -/
theorem exists_of_loopBlock {target iter : Expr} {b : Block} (h : loopBlock target iter = .ok b) :
    ∃ name n, target.name? = some name ∧ iter.rangeBound = .ok n ∧ ∀ body,
      b.withStatements Slot.body body = Block.ofLoop name (Float.ofInt n.toInt) body := by
  unfold loopBlock at h
  split at h
  · cases h
  · rename_i name named
    cases bound : iter.rangeBound with
    | error reason =>
      rw [bound] at h
      cases h
    | ok n =>
      rw [bound] at h
      cases h
      exact ⟨name, n, named, rfl, fun body => rfl⟩

/-- The bound of a loop is not negative. -/
theorem nonneg_of_rangeBound {iter : Expr} {n : Int64} (h : iter.rangeBound = .ok n) : 0 ≤ n := by
  unfold Expr.rangeBound at h
  split at h
  · split at h
    · split at h
      · split at h
        · rename_i nonneg
          cases h
          exact nonneg
        · cases h
      · cases h
      · cases h
    · cases h
  · cases h

/-- The block that is kept of a statement is the one that was made. -/
theorem fst_keep (s : Stmt) (r : Except DropReason Block) : ∀ b ∈ (s.keep r).1, r = .ok b := by
  cases r with
  | ok c =>
    rintro b ⟨⟩
    rfl
  | error reason =>
    rintro b ⟨⟩

mutual

/-- The block of a statement, if its variables are identifiers. -/
theorem isTranslated_translate (s : Stmt) (h : s.Identified) :
    ∀ b ∈ (translate s).1, b.IsTranslated := by
  intro b found
  cases s with
  | expr span e => exact isTranslated_callBlock (fst_keep _ _ b found)
  | assign span targets value => exact isTranslated_assignBlock h (fst_keep _ _ b found)
  | branch span test body orelse =>
    cases found
    exact .branch Expr.isPlain_of_block? (isTranslated_translateAll body h)
  | forLoop span isAsync target iter body orelse =>
    cases isAsync with
    | true => cases found
    | false =>
      rw [translate] at found
      cases e : loopBlock target iter with
      | error reason =>
        rw [e] at found
        cases found
      | ok c =>
        rw [e] at found
        cases found
        obtain ⟨name, n, named, bound, same⟩ := exists_of_loopBlock e
        rw [same]
        exact .loop (h.1 name named) (nonneg_of_rangeBound bound) (isTranslated_translateAll body h.2)
  | _ => cases found

/-- The blocks of neighbouring statements. -/
theorem isTranslated_translateAll (ss : List Stmt) (h : AllIdentified ss) :
    ∀ b ∈ (translateAll ss).1, b.IsTranslated := by
  intro b member
  cases ss with
  | nil => cases member
  | cons s ss =>
    rcases List.mem_append.1 member with member | member
    · exact isTranslated_translate s h.1 b (Option.mem_toList.1 member)
    · exact isTranslated_translateAll ss h.2 b member

end

end Stmt

/-- The variables of a parsed source are identifiers. -/
theorem Source.identified_parse {s : Source} {mod : Module} (h : s.parse = .ok mod) :
    Stmt.AllIdentified mod.body := by
  unfold Source.parse reportAs at h
  cases parsed : parseText s.content.toList with
  | error fault =>
    rw [parsed] at h
    cases h
  | ok m =>
    rw [parsed] at h
    cases h
    exact identified_parseText _ _ parsed

/-- Sources are translated into translated blocks. -/
theorem Source.isTranslated_translate {s : Source} {t : Translation} (h : s.translate = .ok t) :
    ∀ b ∈ t.document.blocks, b.IsTranslated := by
  unfold Source.translate at h
  split at h
  · cases h
    intro b member
    cases member
  · cases parsed : s.parse with
    | error d =>
      rw [parsed] at h
      cases h
    | ok m =>
      rw [parsed] at h
      cases h
      exact Stmt.isTranslated_translateAll m.body (Source.identified_parse parsed)

end BlockEditor
