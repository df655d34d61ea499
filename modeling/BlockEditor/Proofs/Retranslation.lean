import BlockEditor.Proofs.Translated

/-!
# Translation of generated code

The code of a translated document is translated again.  The document that comes back is the one that
was written, as long as every loop counts to less than the limit of words; a loop that counts to the
limit is written as a number beyond it, which has no block.
-/

namespace BlockEditor

/-! ## Equality of blocks -/

/-- Two literals are equal.  Numbers are compared as numbers, so both zeros are equal. -/
def FieldValue.same : FieldValue → FieldValue → Bool
  | number x, number y => x == y
  | text a, text b => a == b
  | _, _ => false

namespace Block

/-- The fields of two blocks are equal, name by name. -/
def sameFields : List (String × FieldValue) → List (String × FieldValue) → Bool
  | [], [] => true
  | (name, v) :: fields, (name', v') :: fields' =>
    name == name' && v.same v' && sameFields fields fields'
  | _, _ => false

mutual

/-- Two blocks are equal with everything in them. -/
def same : Block → Block → Bool
  | mk kind fields values statements, mk kind' fields' values' statements' =>
    kind == kind' && sameFields fields fields' && sameValues values values' &&
      sameSlots statements statements'
termination_by structural b => b

/-- Two sequences of blocks are equal, block by block. -/
def sameAll : List Block → List Block → Bool
  | [], [] => true
  | b :: bs, c :: cs => same b c && sameAll bs cs
  | _, _ => false
termination_by structural bs => bs

/-- The value slots of two blocks are equal, name by name. -/
def sameValues : List (String × Block) → List (String × Block) → Bool
  | [], [] => true
  | (name, b) :: slots, (name', c) :: slots' => name == name' && same b c && sameValues slots slots'
  | _, _ => false
termination_by structural slots => slots

/-- The statement slots of two blocks are equal, name by name. -/
def sameSlots : List (String × List Block) → List (String × List Block) → Bool
  | [], [] => true
  | (name, bs) :: slots, (name', cs) :: slots' =>
    name == name' && sameAll bs cs && sameSlots slots slots'
  | _, _ => false
termination_by structural slots => slots

end

/-- Equal sequences of blocks are equally long. -/
theorem length_eq_of_sameAll {bs cs : List Block} (h : sameAll bs cs = true) :
    bs.length = cs.length := by
  induction bs generalizing cs with
  | nil =>
    cases cs with
    | nil => rfl
    | cons c cs => cases h
  | cons b bs ih =>
    cases cs with
    | nil => cases h
    | cons c cs =>
      rw [sameAll, Bool.and_eq_true] at h
      rw [List.length_cons, List.length_cons, ih h.2]

section Shapes

variable {value value' : Option Block} (filled : Option.Rel (fun b c => b.same c = true) value value')

include filled

/-- Blocks that print equal values are equal. -/
theorem same_ofPrint : (ofPrint value).same (ofPrint value') = true := by
  cases filled with
  | none => rfl
  | some equal =>
    show (true && (true && _ && true) && true) = true
    rw [equal]
    rfl

theorem same_ofAssign (name : String) :
    (ofAssign name value).same (ofAssign name value') = true := by
  have text : (name == name) = true := beq_self_eq_true name
  cases filled with
  | none =>
    show (true && (true && (name == name) && true) && true && true) = true
    rw [text]
    rfl
  | some equal =>
    show (true && (true && (name == name) && true) && (true && _ && true) && true) = true
    rw [text, equal]
    rfl

/-- Conditions with equal tests are equal if their bodies are. -/
theorem same_ofBranch (body body' : List Block) :
    (ofBranch value body).same (ofBranch value' body') = sameAll body body' := by
  cases filled with
  | none =>
    show (true && true && (true && sameAll body body' && true)) = _
    simp
  | some equal =>
    show (true && (true && _ && true) && (true && sameAll body body' && true)) = _
    simp [equal]

end Shapes

/-- Loops to equal bounds are equal if their bodies are. -/
theorem same_ofLoop (name : String) {x y : Float} (equal : (x == y) = true) (body body' : List Block) :
    (ofLoop name x body).same (ofLoop name y body') = sameAll body body' := by
  show (true && (true && (x == y) && (true && (name == name) && true)) && true &&
    (true && sameAll body body' && true)) = _
  simp [equal]

/-! ## Loops that count to words -/

/-- Every loop in a block counts to less than the limit of words. -/
def Counts (b : Block) : Prop :=
  ∀ c ∈ b.nodes, c.kind = BlockKind.loop → c.countOf < Number.wordLimit

/-- A literal or a name has no other block in it. -/
theorem IsPlain.nodes_eq {c : Block} (h : c.IsPlain) : c.nodes = [c] := by
  cases h <;> rfl

theorem IsPlain.not_loop {c : Block} (h : c.IsPlain) : c.kind ≠ BlockKind.loop := by
  cases h with
  | text => show BlockKind.text ≠ BlockKind.loop; decide
  | number => show BlockKind.number ≠ BlockKind.loop; decide

/-! ### Blocks in translated blocks -/

section Nodes

variable {value : Option Block} (slot : String)

/-- A block in a slot with a plain value is plain. -/
theorem isPlain_of_mem_valueNodes (plain : ∀ c ∈ value, c.IsPlain) {d : Block}
    (member : d ∈ valueNodes (value.toList.map fun c => (slot, c))) : d.IsPlain := by
  cases value with
  | none => cases member
  | some c =>
    have alone := (plain c rfl).nodes_eq
    have same : d = c := by simpa [valueNodes, alone] using member
    exact same ▸ plain c rfl

/-- In a block that prints are itself and its argument. -/
theorem nodes_ofPrint : (ofPrint value).nodes = ofPrint value ::
    (valueNodes (value.toList.map fun c => (Slot.text, c)) ++ nodesOf []) := by
  cases value <;> rfl

/-- In an assignment are itself and its value. -/
theorem nodes_ofAssign (name : String) : (ofAssign name value).nodes = ofAssign name value ::
    (valueNodes (value.toList.map fun c => (Slot.value, c)) ++ nodesOf []) := by
  cases value <;> rfl

/-- In a condition are itself, its test and its body. -/
theorem nodes_ofBranch (body : List Block) : (ofBranch value body).nodes = ofBranch value body ::
    (valueNodes (value.toList.map fun c => (Slot.condition, c)) ++ nodesOf body) := by
  cases value with
  | none =>
    show _ :: ([] ++ (nodesOf body ++ [])) = _
    rw [List.append_nil]
    rfl
  | some c =>
    show _ :: ((c.nodes ++ []) ++ (nodesOf body ++ [])) = _
    rw [List.append_nil (nodesOf body)]
    rfl

/-- In a loop are itself and its body. -/
theorem nodes_ofLoop (name : String) (x : Float) (body : List Block) :
    (ofLoop name x body).nodes = ofLoop name x body ::
      (valueNodes ((none : Option Block).toList.map fun c => (Slot.value, c)) ++ nodesOf body) := by
  show _ :: ([] ++ (nodesOf body ++ [])) = _
  rw [List.append_nil]
  rfl

end Nodes

/-- A block with one plain value counts to words if it does so itself and the blocks in its body do. -/
theorem counts_iff {b : Block} {value : Option Block} (plain : ∀ c ∈ value, c.IsPlain)
    (slot : String) (body : List Block)
    (nodes : b.nodes = b :: (valueNodes (value.toList.map fun c => (slot, c)) ++ nodesOf body)) :
    b.Counts ↔ (b.kind = BlockKind.loop → b.countOf < Number.wordLimit) ∧ ∀ c ∈ body, c.Counts := by
  unfold Counts
  rw [nodes]
  constructor
  · intro all
    refine ⟨all b List.mem_cons_self, fun c member d inner => all d ?_⟩
    exact List.mem_cons_of_mem _ (List.mem_append_right _ (mem_nodesOf.2 ⟨c, member, inner⟩))
  · rintro ⟨here, below⟩ d member loop
    rcases List.mem_cons.1 member with rfl | member
    · exact here loop
    · rcases List.mem_append.1 member with member | member
      · exact absurd loop (isPlain_of_mem_valueNodes slot plain member).not_loop
      · obtain ⟨c, inBody, inner⟩ := mem_nodesOf.1 member
        exact below c inBody d inner loop

/-- A block that prints has no loop in it. -/
theorem counts_ofPrint {arg : Option Block} (plain : ∀ c ∈ arg, c.IsPlain) : (ofPrint arg).Counts := by
  refine (counts_iff plain Slot.text [] nodes_ofPrint).2 ⟨?_, by simp⟩
  intro loop
  rw [ofPrint, kind_withValue] at loop
  exact absurd loop (by decide : BlockKind.print ≠ BlockKind.loop)

theorem counts_ofAssign {value : Option Block} (plain : ∀ c ∈ value, c.IsPlain) (name : String) :
    (ofAssign name value).Counts := by
  refine (counts_iff plain Slot.value [] (nodes_ofAssign name)).2 ⟨?_, by simp⟩
  intro loop
  rw [ofAssign, kind_withValue] at loop
  exact absurd loop (by decide : BlockKind.assign ≠ BlockKind.loop)

/-- A condition counts to words if its body does. -/
theorem counts_ofBranch {test : Option Block} (plain : ∀ c ∈ test, c.IsPlain) (body : List Block) :
    (ofBranch test body).Counts ↔ ∀ c ∈ body, c.Counts := by
  rw [counts_iff plain Slot.condition body (nodes_ofBranch body)]
  refine and_iff_right ?_
  intro loop
  rw [ofBranch, kind_withStatements, kind_withValue] at loop
  exact absurd loop (by decide : BlockKind.branch ≠ BlockKind.loop)

/-- A loop counts to words if it does so itself and its body does. -/
theorem counts_ofLoop (name : String) (x : Float) (body : List Block) :
    (ofLoop name x body).Counts ↔ x < Number.wordLimit ∧ ∀ c ∈ body, c.Counts := by
  rw [counts_iff (by simp) Slot.value body (nodes_ofLoop name x body)]
  exact and_congr_left fun _ => ⟨fun h => h rfl, fun h _ => h⟩

/-! ## Translation of mirrored statements -/

/-- A number is translated into its block. -/
theorem block?_of_number? {e : Expr} {x : Float} (h : e.number? = some x) :
    e.block? = some (ofNumber x) := by
  unfold Expr.block?
  split
  · cases h
  · cases h
  · rw [h]
    rfl

/-- The literal of a number is translated into a block of an equal number. -/
theorem exists_block_of_isNumber {e : Expr} {x : Float} (finite : Number.isFinite x = true)
    (h : e.IsNumber x) : ∃ y, e.block? = some (ofNumber y) ∧ (x == y) = true := by
  obtain ⟨span, c, value, form⟩ := h
  have number : (Expr.constant span c).number? = some x.abs := by
    cases c with
    | int n => exact value
    | float y =>
      cases value
      exact if_pos (Number.isFinite_abs finite)
    | _ => cases value
  by_cases negative : x < 0.0
  · rw [if_pos negative] at form
    obtain ⟨outer, rfl⟩ := form
    refine ⟨-x.abs, block?_of_number? ?_, Number.beq_neg_abs finite negative⟩
    rw [Expr.number?, number]
    rfl
  · rw [if_neg negative] at form
    subst form
    exact ⟨x.abs, block?_of_number? number, Number.beq_abs finite negative⟩

/-- What mirrors the block of a text is the literal of the text. -/
theorem LiteralMirrors.isText {text : String} {e : Expr} (h : (ofText text).LiteralMirrors e) :
    e.IsText text := by
  cases h with
  | number kind => exact absurd kind (by decide : BlockKind.text ≠ BlockKind.number)
  | text _ holds => exact holds

/-- What mirrors the block of a number is the literal of the number. -/
theorem LiteralMirrors.isNumber {x : Float} {e : Expr} (h : (ofNumber x).LiteralMirrors e) :
    e.IsNumber x := by
  cases h with
  | number _ holds => exact holds
  | text kind => exact absurd kind (by decide : BlockKind.number ≠ BlockKind.text)

/-- What stands for a value slot is translated into an equal block, or into none. -/
theorem SlotMirrors.block? {b : Block} {slot : String} {absent : Constant} {e : Expr}
    (plain : ∀ c ∈ b.value? slot, c.IsPlain) (h : b.SlotMirrors slot absent e)
    (nothing : ∀ span, (Expr.constant span absent).block? = none) :
    Option.Rel (fun b c => b.same c = true) (b.value? slot) e.block? := by
  unfold SlotMirrors at h
  cases filled : b.value? slot with
  | none =>
    rw [filled] at h
    obtain ⟨span, rfl⟩ := h
    rw [nothing]
    exact .none
  | some c =>
    rw [filled] at h
    cases plain c filled with
    | text text =>
      obtain ⟨span, rfl⟩ := LiteralMirrors.isText h
      refine .some ?_
      show (true && (true && (text == text) && true) && true && true) = true
      simp
    | @number x finite =>
      obtain ⟨y, block, equal⟩ := exists_block_of_isNumber finite (LiteralMirrors.isNumber h)
      rw [block]
      refine .some ?_
      show (true && (true && (x == y) && true) && true && true) = true
      simp [equal]

/-- The bound that digits denote is accepted if it fits into a word. -/
theorem rangeBound_natural (call func span : Span) (n : Nat) :
    (Expr.call call (.name func "range") [.constant span (naturalConstant n)] []).rangeBound =
      match Number.toInt64? n with
      | some w => .ok w
      | none => .error .nonLiteralBound := by
  unfold naturalConstant
  cases fits : Number.toInt64? n with
  | none => rfl
  | some w =>
    have word := (Number.toInt64?_eq_some_iff n w).1 fits
    have nonneg : 0 ≤ w := by
      rw [Int64.le_iff_toInt_le, word]
      exact Int.natCast_nonneg n
    show (if 0 ≤ w then Except.ok w else _) = _
    rw [if_pos nonneg]

/-- The constant of a number that is not negative converts to the number. -/
theorem double?_of_isNumber {span : Span} {c : Constant} {x : Float} (nonneg : ¬ x < 0.0)
    (h : (Expr.constant span c).IsNumber x) : c.double? = some x.abs := by
  obtain ⟨span', c', value, form⟩ := h
  rw [if_neg nonneg] at form
  cases form
  exact value

/-- The bound of a mirrored loop is accepted exactly if it lies below the limit, and then it is
equal to the bound that was written. -/
theorem rangeBound_of_mirrors {x : Float} (finite : Number.isFinite x = true)
    (whole : Number.isWhole x = true) (nonneg : ¬ x < 0.0) {bound : Expr} (number : bound.IsNumber x)
    (natural : bound.IsNatural (Number.fieldLayout.text x)) (call func : Span) :
    match (Expr.call call (.name func "range") [bound] []).rangeBound with
    | .ok w => x < Number.wordLimit ∧ (x == Float.ofInt w.toInt) = true
    | .error _ => ¬ x < Number.wordLimit := by
  obtain ⟨span, k, reads, rfl⟩ := natural
  have limit := Number.readDigits?_lt_iff finite whole nonneg reads
  rw [rangeBound_natural]
  cases fits : Number.toInt64? k with
  | none =>
    rw [← limit, ← Number.isSome_toInt64?, fits]
    nofun
  | some w =>
    refine ⟨limit.1 ((Number.isSome_toInt64? k).1 (by rw [fits]; rfl)), ?_⟩
    have value := double?_of_isNumber nonneg number
    rw [naturalConstant, fits] at value
    rw [Option.some.inj value]
    exact Number.beq_abs finite nonneg

/-! ## Return of translated blocks -/

/-- What a block comes back as: an equal block if its loops count to words.  If it is dropped, it is
a loop that does not. -/
def ReturnsAs (b : Block) : Option Block → Prop
  | some c => b.same c = true ↔ b.Counts
  | none => ¬ b.Counts

/-- There are as many mirrored statements as blocks. -/
theorem length_of_allMirror {bs : List Block} {ss : List Stmt} (h : AllMirror bs ss) :
    ss.length = bs.length := by
  induction bs generalizing ss with
  | nil => cases h; rfl
  | cons b bs ih =>
    cases h with
    | cons _ others => rw [List.length_cons, List.length_cons, ih others]

/-- No statement is translated into more than one block. -/
theorem length_translateAll_le (ss : List Stmt) : (Stmt.translateAll ss).1.length ≤ ss.length := by
  induction ss with
  | nil => exact Nat.le_refl _
  | cons s ss ih =>
    show ((Stmt.translate s).1.toList ++ (Stmt.translateAll ss).1).length ≤ ss.length + 1
    rw [List.length_append]
    have one : (Stmt.translate s).1.toList.length ≤ 1 := by
      cases (Stmt.translate s).1 <;> simp
    omega

/-- Neighbouring blocks come back if each of them does. -/
theorem sameAll_translateAll {bs : List Block} {ss : List Stmt}
    (each : ∀ b ∈ bs, ∀ s, Mirrors b s → b.ReturnsAs (Stmt.translate s).1) (h : AllMirror bs ss) :
    sameAll bs (Stmt.translateAll ss).1 = true ↔ ∀ b ∈ bs, b.Counts := by
  induction bs generalizing ss with
  | nil =>
    cases h
    simp [Stmt.translateAll, sameAll]
  | cons b bs ih =>
    cases h with
    | @cons _ s _ ss first others =>
      have here := each b (by simp) s first
      have there := ih (fun c member => each c (by simp [member])) others
      rw [List.forall_mem_cons]
      show sameAll (b :: bs) ((Stmt.translate s).1.toList ++ (Stmt.translateAll ss).1) = true ↔ _
      cases back : (Stmt.translate s).1 with
      | none =>
        rw [back] at here
        -- one block fewer has come back
        refine iff_of_false ?_ fun all => here all.1
        intro same
        have lengths := length_eq_of_sameAll same
        have fewer := length_translateAll_le ss
        rw [length_of_allMirror others] at fewer
        simp only [Option.toList_none, List.nil_append, List.length_cons] at lengths
        omega
      | some c =>
        rw [back] at here
        show sameAll (b :: bs) (c :: (Stmt.translateAll ss).1) = true ↔ _
        rw [sameAll, Bool.and_eq_true, there, show b.same c = true ↔ b.Counts from here]

/-- A body comes back if each of its blocks does; a statement that does nothing has no block. -/
theorem sameAll_of_bodyMirrors {bs : List Block} {ss : List Stmt}
    (each : ∀ b ∈ bs, ∀ s, Mirrors b s → b.ReturnsAs (Stmt.translate s).1) (h : BodyMirrors bs ss) :
    sameAll bs (Stmt.translateAll ss).1 = true ↔ ∀ b ∈ bs, b.Counts := by
  cases h with
  | empty => exact iff_of_true rfl (by simp)
  | blocks all => exact sameAll_translateAll each all

/-- A block of another kind than those of literals is not mirrored by the expression of a literal. -/
theorem not_literalMirrors {b : Block} {e : Expr} (notNumber : b.kind ≠ BlockKind.number)
    (notText : b.kind ≠ BlockKind.text) : ¬ b.LiteralMirrors e := by
  rintro (⟨kind, -⟩ | ⟨kind, -⟩)
  · exact notNumber kind
  · exact notText kind

section Inversion

variable {b : Block} {s : Stmt}

/-- A block that prints is mirrored by a call of `print`. -/
theorem Mirrors.of_print (h : Mirrors b s) (kind : b.kind = BlockKind.print) :
    ∃ span call func e, s = .expr span (.call call (.name func "print") [e] []) ∧
      b.SlotMirrors Slot.text .none e := by
  cases h with
  | print _ slot => exact ⟨_, _, _, _, rfl, slot⟩
  | literal holds => exact absurd holds (not_literalMirrors (by rw [kind]; decide) (by rw [kind]; decide))
  | assign other | branch other | loop other =>
    rw [kind] at other
    exact absurd other (by decide)

/-- A block that assigns is mirrored by an assignment to its variable. -/
theorem Mirrors.of_assign (h : Mirrors b s) (kind : b.kind = BlockKind.assign) :
    ∃ span target e, s = .assign span [.name target (b.variableOf "x")] e ∧
      b.SlotMirrors Slot.value .none e := by
  cases h with
  | assign _ slot => exact ⟨_, _, _, rfl, slot⟩
  | literal holds => exact absurd holds (not_literalMirrors (by rw [kind]; decide) (by rw [kind]; decide))
  | print other | branch other | loop other =>
    rw [kind] at other
    exact absurd other (by decide)

/-- A condition is mirrored by an `if` without an `else` part. -/
theorem Mirrors.of_branch (h : Mirrors b s) (kind : b.kind = BlockKind.branch) :
    ∃ span e body, s = .branch span e body [] ∧ b.SlotMirrors Slot.condition (.bool false) e ∧
      BodyMirrors b.bodyOf body := by
  cases h with
  | branch _ slot inside => exact ⟨_, _, _, rfl, slot, inside⟩
  | literal holds => exact absurd holds (not_literalMirrors (by rw [kind]; decide) (by rw [kind]; decide))
  | print other | assign other | loop other =>
    rw [kind] at other
    exact absurd other (by decide)

/-- A loop is mirrored by one over the numbers below its bound. -/
theorem Mirrors.of_loop (h : Mirrors b s) (kind : b.kind = BlockKind.loop) :
    ∃ span target call func bound body, s = .forLoop span false (.name target (b.variableOf "i"))
        (.call call (.name func "range") [bound] []) body [] ∧
      bound.IsNumber b.countOf ∧ bound.IsNatural b.countCode ∧ BodyMirrors b.bodyOf body := by
  cases h with
  | loop _ number natural inside => exact ⟨_, _, _, _, _, _, rfl, number, natural, inside⟩
  | literal holds => exact absurd holds (not_literalMirrors (by rw [kind]; decide) (by rw [kind]; decide))
  | print other | assign other | branch other =>
    rw [kind] at other
    exact absurd other (by decide)

end Inversion

/-- No identifier is empty. -/
theorem ne_empty_of_isIdentifier {name : String} (h : IsIdentifier name.toList) : name ≠ "" := by
  rintro rfl
  obtain ⟨-, first, tail, e, -⟩ := (isIdentifier_iff _).1 h
  cases e

/-- The variable of a block is the one in its field, if that is not empty. -/
theorem variableOf_of_field {b : Block} {name : String}
    (h : b.field? Slot.variableName = some (.text name)) (nonempty : name ≠ "") (absent : String) :
    b.variableOf absent = name := by
  rw [variableOf, textField?, h]
  exact if_neg nonempty

theorem variableName_ne_count : Slot.variableName ≠ Slot.count := by decide

/-- The variable of an assignment is the one it was made for. -/
theorem variableOf_ofAssign {name : String} (nonempty : name ≠ "") (value : Option Block) :
    (ofAssign name value).variableOf "x" = name :=
  variableOf_of_field (by simp [ofAssign]) nonempty "x"

theorem variableOf_ofLoop {name : String} (nonempty : name ≠ "") (x : Float) (body : List Block) :
    (ofLoop name x body).variableOf "i" = name :=
  variableOf_of_field (by simp [ofLoop, variableName_ne_count]) nonempty "i"

theorem block?_none (span : Span) : (Expr.constant span .none).block? = none := rfl

theorem block?_false (span : Span) : (Expr.constant span (.bool false)).block? = none := rfl

/-- A block that prints comes back. -/
theorem returns_ofPrint {arg : Option Block} (plain : ∀ c ∈ arg, c.IsPlain) {s : Stmt}
    (h : Mirrors (ofPrint arg) s) : (ofPrint arg).ReturnsAs (Stmt.translate s).1 := by
  have filled : (ofPrint arg).value? Slot.text = arg := value?_withValue _ _ _ rfl
  obtain ⟨span, call, func, e, rfl, slot⟩ := h.of_print (kind_withValue ..)
  have back := slot.block? (by rw [filled]; exact plain) block?_none
  rw [filled] at back
  exact iff_of_true (same_ofPrint back) (counts_ofPrint plain)

theorem returns_ofAssign {name : String} (nonempty : name ≠ "") {value : Option Block}
    (plain : ∀ c ∈ value, c.IsPlain) {s : Stmt} (h : Mirrors (ofAssign name value) s) :
    (ofAssign name value).ReturnsAs (Stmt.translate s).1 := by
  have filled : (ofAssign name value).value? Slot.value = value := value?_withValue _ _ _ rfl
  obtain ⟨span, target, e, rfl, slot⟩ := h.of_assign (kind_withValue ..)
  have back := slot.block? (by rw [filled]; exact plain) block?_none
  rw [filled] at back
  rw [variableOf_ofAssign nonempty]
  exact iff_of_true (same_ofAssign back name) (counts_ofAssign plain name)

/-- A condition comes back if every block in its body does. -/
theorem returns_ofBranch {test : Option Block} {body : List Block} (plain : ∀ c ∈ test, c.IsPlain)
    (each : ∀ b ∈ body, ∀ s, Mirrors b s → b.ReturnsAs (Stmt.translate s).1) {s : Stmt}
    (h : Mirrors (ofBranch test body) s) : (ofBranch test body).ReturnsAs (Stmt.translate s).1 := by
  have filled : (ofBranch test body).value? Slot.condition = test := value?_withValue _ _ _ rfl
  obtain ⟨span, e, stmts, rfl, slot, inside⟩ := h.of_branch (kind_withValue ..)
  have back := slot.block? (by rw [filled]; exact plain) block?_false
  rw [filled] at back
  rw [ofBranch, bodyOf_withStatements] at inside
  show (ofBranch test body).same (ofBranch _ _) = true ↔ _
  rw [same_ofBranch back, counts_ofBranch plain]
  exact sameAll_of_bodyMirrors each inside

/-- A loop below the limit comes back if every block in its body does. -/
theorem returns_ofLoop {name : String} {x : Float} {body : List Block} (nonempty : name ≠ "")
    (finite : Number.isFinite x = true) (whole : Number.isWhole x = true) (nonneg : ¬ x < 0.0)
    (each : ∀ b ∈ body, ∀ s, Mirrors b s → b.ReturnsAs (Stmt.translate s).1) {s : Stmt}
    (h : Mirrors (ofLoop name x body) s) : (ofLoop name x body).ReturnsAs (Stmt.translate s).1 := by
  obtain ⟨span, target, call, func, bound, stmts, rfl, number, natural, inside⟩ := h.of_loop rfl
  have accepted := rangeBound_of_mirrors finite whole nonneg number natural call func
  rw [ofLoop, bodyOf_withStatements] at inside
  rw [variableOf_ofLoop nonempty]
  cases range : (Expr.call call (.name func "range") [bound] []).rangeBound with
  | error reason =>
    rw [range] at accepted
    simp only [Stmt.translate, Stmt.loopBlock, Expr.name?, range, Except.map]
    intro counts
    exact accepted ((counts_ofLoop name x body).1 counts).1
  | ok w =>
    rw [range] at accepted
    simp only [Stmt.translate, Stmt.loopBlock, Expr.name?, range, Except.map]
    show (ofLoop name x body).same (ofLoop name (Float.ofInt w.toInt) _) = true ↔ _
    rw [same_ofLoop name accepted.2, counts_ofLoop, sameAll_of_bodyMirrors each inside]
    exact (and_iff_right accepted.1).symm

/-- Translated blocks come back from the statements that mirror them. -/
theorem IsTranslated.returns {b : Block} (h : b.IsTranslated) :
    ∀ s, Mirrors b s → b.ReturnsAs (Stmt.translate s).1 := by
  -- By induction on the block: what is written for a body comes back if each statement in it
  -- does.
  induction h with
  | print plain => exact fun s => returns_ofPrint plain
  | assign isName plain => exact fun s => returns_ofAssign (ne_empty_of_isIdentifier isName) plain
  | branch plain _ ih => exact fun s => returns_ofBranch plain ih
  | @loop name n body isName nonneg _ ih =>
    obtain ⟨whole, least⟩ := Number.isWhole_ofInt nonneg
    exact fun s => returns_ofLoop (ne_empty_of_isIdentifier isName) (Number.isFinite_ofInt n) whole least ih

end Block

/-! ## Generated code -/

/-- Two documents are equal, block by block. -/
def Document.same (d e : Document) : Bool := Block.sameAll d.blocks e.blocks

/-- All loops in a document count to words if all its blocks do. -/
theorem Document.counts_iff (d : Document) :
    (∀ b ∈ d.nodes, b.kind = BlockKind.loop → b.countOf < Number.wordLimit) ↔
      ∀ b ∈ d.blocks, b.Counts := by
  constructor
  · intro all b member c inner
    exact all c (Block.mem_nodesOf.2 ⟨b, member, inner⟩)
  · intro all c member
    obtain ⟨b, top, inner⟩ := Block.mem_nodesOf.1 member
    exact all b top c inner

/-- A parsed source is translated into the blocks of its program, with the omissions in it. -/
theorem Source.exists_translate_of_parse {s : Source} {m : Module} (h : s.parse = .ok m) :
    ∃ t, s.translate = .ok t ∧ t.document.blocks = (Stmt.translateAll m.body).1 ∧
      t.dropped = (Stmt.translateAll m.body).2 := by
  by_cases blank : Text.isBlankText s.content.toList = true
  · refine ⟨.blank, if_pos blank, ?_⟩
    unfold Source.parse parseText at h
    rw [if_pos blank] at h
    cases h
    exact ⟨rfl, rfl⟩
  · refine ⟨m.translate, ?_, rfl, rfl⟩
    rw [Source.translate, if_neg blank, h]
    rfl

/-- The code of a translated document is translated again, and the same document comes back exactly
if every loop in it counts to less than the limit of words. -/
theorem Source.translate_code_same_iff {s : Source} {t : Translation} (h : s.translate = .ok t)
    (name : String) : ∃ t', (Source.mk name t.document.code).translate = .ok t' ∧
      (t.document.same t'.document = true ↔
        ∀ b ∈ t.document.nodes, b.kind = BlockKind.loop → b.countOf < Number.wordLimit) := by
  have translated := Source.isTranslated_translate h
  obtain ⟨m, parsed, mirrors⟩ := t.document.parse_code_of_sound
    (fun b member => (translated b member).sound) name
  obtain ⟨t', again, blocks, -⟩ := Source.exists_translate_of_parse parsed
  refine ⟨t', again, ?_⟩
  rw [Document.counts_iff, Document.same, blocks]
  exact Block.sameAll_translateAll (fun b member => (translated b member).returns) mirrors

/-- A loop whose variable is printed, and a zero with a sign. -/
def Source.countsToThree : Source :=
  ⟨Source.standardInput, "for n in range(3):\n  print(n)\nx = -0\n"⟩

/-- The loop to three and the assigned zero come back. -/
theorem Source.translate_code_same_countsToThree : ∃ t t', countsToThree.translate = .ok t ∧
    (Source.mk countsToThree.name t.document.code).translate = .ok t' ∧
      t.document.same t'.document = true := by
  have computed : (match countsToThree.translate with
      | .ok t => decide (∀ b ∈ t.document.nodes, b.kind = BlockKind.loop →
          b.countOf < Number.wordLimit)
      | .error _ => false) = true := by
    decide +kernel
  cases e : countsToThree.translate with
  | error d =>
    rw [e] at computed
    cases computed
  | ok t =>
    rw [e] at computed
    obtain ⟨t', again, same⟩ := translate_code_same_iff e countsToThree.name
    exact ⟨t, t', rfl, again, same.2 (of_decide_eq_true computed)⟩

/-- A loop that counts to the greatest word, which is the limit as a double. -/
def Source.countsToGreatest : Source :=
  ⟨Source.standardInput, "for i in range(9223372036854775807):\n  pass\n"⟩

/-- The loop to the greatest word does not. -/
theorem Source.translate_code_not_same_countsToGreatest : ∃ t t',
    countsToGreatest.translate = .ok t ∧
      (Source.mk countsToGreatest.name t.document.code).translate = .ok t' ∧
        t.document.same t'.document = false := by
  have computed : (match countsToGreatest.translate with
      | .ok t =>
        match (Source.mk countsToGreatest.name t.document.code).translate with
        | .ok t' => !t.document.same t'.document
        | .error _ => false
      | .error _ => false) = true := by
    decide +kernel
  cases e : countsToGreatest.translate with
  | error d =>
    rw [e] at computed
    cases computed
  | ok t =>
    rw [e] at computed
    dsimp only at computed
    cases again : (Source.mk countsToGreatest.name t.document.code).translate with
    | error d =>
      rw [again] at computed
      cases computed
    | ok t' =>
      rw [again] at computed
      exact ⟨t, t', rfl, again, by simpa using computed⟩

end BlockEditor
