import BlockEditor.Proofs.DoubleOrder
import BlockEditor.Proofs.Mirror
import BlockEditor.Proofs.RefusedLoads
import BlockEditor.Proofs.Registrations

/-!
# Well-formed documents

What the check of documents decides.  The check goes down a tree of blocks and hands on to each slot
the shape that the slot asks for; a document is well-formed if every block in it, at whatever depth,
carries only what its kind declares.  The two agree for all registries and all documents.
-/

namespace BlockEditor

/-! ## Fields -/

/-- The contents that a rule allows. -/
inductive FieldRule.Allows : FieldRule → FieldValue → Prop where
  | text {start content : String} : Allows (.text start) (.text content)
  /-- The content is a finite number `q`, whole and not below the bound where the rule says so. -/
  | number {start x : Float} {least : Option Float} {whole : Bool} {q : Rat}
      (value : Number.value? x = some q) (integer : whole = true → ∃ n : Int, q = n)
      (bounded : ∀ bound ∈ least, ¬ Number.IsBelow q bound) :
      Allows (.number start least whole) (.number x)

/-- What a rule says of the number that a double stands for can be seen from the double. -/
theorem FieldRule.allows_number_iff {start x : Float} {least : Option Float} {whole : Bool} :
    (number start least whole).Allows (.number x) ↔ Number.isFinite x = true ∧
      (whole = true → Number.isWhole x = true) ∧ ∀ bound ∈ least, ¬ x < bound := by
  constructor
  · rintro (_ | ⟨value, integer, bounded⟩)
    refine ⟨?_, fun asked => (Number.isWhole_iff value).2 (integer asked), ?_⟩
    · rw [← Number.isSome_value?, value, Option.isSome_some]
    · exact fun bound given => mt (Number.lt_iff_isBelow value bound).1 (bounded bound given)
  · rintro ⟨finite, integer, bounded⟩
    rw [← Number.isSome_value?, Option.isSome_iff_exists] at finite
    obtain ⟨q, value⟩ := finite
    refine .number value (fun asked => (Number.isWhole_iff value).1 (integer asked)) ?_
    exact fun bound given => mt (Number.lt_iff_isBelow value bound).2 (bounded bound given)

namespace Schema

/-- The first field of a name has a rule. -/
def Declares (s : Schema) (name : String) (rule : FieldRule) : Prop :=
  ∃ before after, s.fields = before ++ (name, rule) :: after ∧ ∀ entry ∈ before, entry.1 ≠ name

/-- The rule for a field is the one that the kind declares first. -/
theorem rule?_eq_some_iff {s : Schema} {name : String} {rule : FieldRule} :
    s.rule? name = some rule ↔ s.Declares name rule := slotAt?_eq_some_iff

/-- A field passes the check exactly if its first declaration allows the content. -/
theorem checkField_eq_ok_iff {s : Schema} {name : String} {v : FieldValue} :
    s.checkField name v = .ok () ↔ ∃ rule, s.Declares name rule ∧ rule.Allows v := by
  simp only [← rule?_eq_some_iff]
  cases found : s.rule? name with
  | none => simp [checkField, found]
  | some rule =>
    simp only [Option.some.injEq, exists_eq_left']
    cases rule with
    | text start =>
      cases v with
      | text content => exact iff_of_true (by simp [checkField, found]) .text
      | number x => exact iff_of_false (by simp [checkField, found]) (by rintro ⟨⟩)
    | number start least whole =>
      cases v with
      | text content => exact iff_of_false (by simp [checkField, found]) (by rintro ⟨⟩)
      | number x => exact (checkField_number_iff found).trans FieldRule.allows_number_iff.symm

end Schema

/-! ## Well-formed blocks -/

section WellFormed

variable (kinds : List Schema)

/-- The kind of a block: the last one that was registered under its id. -/
def Block.IsOf (b : Block) (s : Schema) : Prop := s.id = b.kind ∧ s.IsCurrent kinds

/-- A block is of a registered kind of a shape. -/
def Block.HasShape (shape : Shape) (b : Block) : Prop := ∃ s, b.IsOf kinds s ∧ s.shape = shape

/-- What a kind allows a block to carry. -/
structure Schema.Admits (s : Schema) (b : Block) : Prop where
  /-- Every field is declared, and the first declaration of its name allows the content. -/
  fields : ∀ field ∈ b.fields, ∃ rule, s.Declares field.1 rule ∧ rule.Allows field.2
  /-- Every value slot is declared and holds a value. -/
  values : ∀ slot ∈ b.values, slot.1 ∈ s.valueSlots ∧ slot.2.HasShape kinds .output
  /-- Every statement slot is declared and holds statements. -/
  statements : ∀ slot ∈ b.statements, slot.1 ∈ s.statementSlots ∧
    ∀ c ∈ slot.2, c.HasShape kinds .statement

/-- A block is of a registered kind, which allows what it carries. -/
def Block.IsAdmitted (b : Block) : Prop := ∃ s, b.IsOf kinds s ∧ s.Admits kinds b

/-- All blocks of a document, at every depth, carry only what their kinds allow. -/
def Document.WellFormed (d : Document) : Prop := ∀ b ∈ d.nodes, b.IsAdmitted kinds

end WellFormed

variable {kinds : List Schema}

/-! ## The check of blocks -/

/-- A block is of one kind. -/
theorem Block.IsOf.unique {b : Block} {s t : Schema} (first : b.IsOf kinds s)
    (second : b.IsOf kinds t) : s = t :=
  Option.some.inj ((Registry.get?_ofKinds.2 first).symm.trans (Registry.get?_ofKinds.2 second))

/-- A block passes the check exactly if it has the shape that is asked for, and it and all blocks in
it carry only what their kinds allow. -/
theorem Registry.checkBlock_ofKinds (b : Block) (expected : Option Shape) :
    (ofKinds kinds).checkBlock expected b = .ok () ↔
      (∀ shape ∈ expected, b.HasShape kinds shape) ∧ ∀ c ∈ b.nodes, c.IsAdmitted kinds := by
  -- what is in a slot is smaller than the block, and has to have the shape that the slot asks for
  have inValue : ∀ slot ∈ b.values, (ofKinds kinds).checkBlock (some .output) slot.2 = .ok () ↔
      slot.2.HasShape kinds .output ∧ ∀ c ∈ slot.2.nodes, c.IsAdmitted kinds := by
    intro slot member
    have smaller := Block.sizeOf_lt_of_mem_values member
    simp [checkBlock_ofKinds slot.2]
  have inStatement : ∀ slot ∈ b.statements, ∀ c ∈ slot.2,
      ((ofKinds kinds).checkBlock (some .statement) c = .ok () ↔
        c.HasShape kinds .statement ∧ ∀ d ∈ c.nodes, d.IsAdmitted kinds) := by
    intro slot member c inside
    have smaller := Block.sizeOf_lt_of_mem_statements member inside
    simp [checkBlock_ofKinds c]
  rw [checkBlock_eq_ok_iff]
  constructor
  · rintro ⟨s, allowed, shape⟩
    have isOf : b.IsOf kinds s := get?_ofKinds.1 allowed.known
    have values (slot) (member : slot ∈ b.values) :=
      (allowed.values slot member).imp List.contains_iff_mem.1 (inValue slot member).1
    have statements (slot) (member : slot ∈ b.statements) :=
      (allowed.statements slot member).imp List.contains_iff_mem.1
        fun each c inside => (inStatement slot member c inside).1 (each c inside)
    have admits : s.Admits kinds b := {
      fields := fun field member => Schema.checkField_eq_ok_iff.1 (allowed.fields field member)
      values := fun slot member => (values slot member).imp id And.left
      statements := fun slot member =>
        (statements slot member).imp id fun each c inside => (each c inside).1 }
    refine ⟨fun e asked => ⟨s, isOf, shape e asked⟩, fun c member => ?_⟩
    rcases Block.mem_nodes_iff.1 member with rfl | ⟨slot, filled, inner⟩ | ⟨slot, filled, d, inside, inner⟩
    · exact ⟨s, isOf, admits⟩
    · exact (values slot filled).2.2 c inner
    · exact ((statements slot filled).2 d inside).2 c inner
  · rintro ⟨shape, all⟩
    obtain ⟨s, isOf, admits⟩ := all b b.self_mem_nodes
    refine ⟨s, ⟨get?_ofKinds.2 isOf, ?_, ?_, ?_⟩, fun e asked => ?_⟩
    · exact fun field member => Schema.checkField_eq_ok_iff.2 (admits.fields field member)
    · intro slot filled
      refine (admits.values slot filled).imp List.contains_iff_mem.2 fun output => ?_
      refine (inValue slot filled).2 ⟨output, fun c inner => all c ?_⟩
      exact Block.mem_nodes_iff.2 (.inr (.inl ⟨slot, filled, inner⟩))
    · intro slot filled
      refine (admits.statements slot filled).imp List.contains_iff_mem.2 fun each d inside => ?_
      refine (inStatement slot filled d inside).2 ⟨each d inside, fun c inner => all c ?_⟩
      exact Block.mem_nodes_iff.2 (.inr (.inr ⟨slot, filled, d, inside, inner⟩))
    · obtain ⟨t, same, rfl⟩ := shape e asked
      rw [isOf.unique same]
termination_by sizeOf b

/-- A document passes the check exactly if it is well-formed. -/
theorem Registry.validate_ofKinds {d : Document} :
    (ofKinds kinds).validate d = .ok () ↔ d.WellFormed kinds := by
  rw [validate_eq_ok_iff]
  constructor
  · intro checked b member
    obtain ⟨top, isTop, inner⟩ := Block.mem_nodesOf.1 member
    exact ((checkBlock_ofKinds top none).1 (checked top isTop)).2 b inner
  · intro wellFormed top isTop
    refine (checkBlock_ofKinds top none).2 ⟨nofun, fun b inner => wellFormed b ?_⟩
    exact Block.mem_nodesOf.2 ⟨top, isTop, inner⟩

/-! ## Loads -/

/-- Loading a document takes it over if it is accepted, and has no effect on the blocks if not. -/
structure Session.TakesOver (s : Session) (d : Document) (accepted : Prop) : Prop where
  /-- The workspace loads exactly an accepted document, and counts that as one change. -/
  load : ∀ w, s.workspace.load d = .ok w ↔ accepted ∧
    w = { s.workspace with document := d, revision := s.workspace.revision + 1 }
  /-- An accepted document takes the place of the blocks. -/
  taken : accepted → (s.loadDocument d).2 = .ok () ∧ (s.loadDocument d).1.workspace =
    { s.workspace with document := d, revision := s.workspace.revision + 1 }
  /-- Any other document is reported, and the workspace keeps its document and revision. -/
  kept : ¬ accepted → (∃ fault, (s.loadDocument d).2 = .error fault) ∧
    (s.loadDocument d).1.workspace = s.workspace

/-- A session takes over what its registry accepts. -/
theorem Session.takesOver_validate (s : Session) (d : Document) :
    s.TakesOver d (s.workspace.registry.validate d = .ok ()) where
  load w := s.workspace.load_eq_ok_iff w d
  taken accepted := by
    have loaded := (s.workspace.load_eq_ok_iff _ d).2 ⟨accepted, rfl⟩
    rw [loadDocument, loaded]
    exact ⟨rfl, workspace_setCode _ _⟩
  kept rejected := by
    cases checked : s.workspace.registry.validate d with
    | ok => exact absurd checked rejected
    | error fault =>
      rw [loadDocument_of_refused checked]
      exact ⟨⟨fault, rfl⟩, workspace_setCode _ _⟩

/-- Whatever kinds were registered, exactly the well-formed documents are accepted, and exactly these
are taken over by the sessions that check against the registry. -/
theorem Registry.accepts_wellFormed (kinds : List Schema) (d : Document) :
    ((ofKinds kinds).validate d = .ok () ↔ d.WellFormed kinds) ∧
      ∀ s : Session, s.workspace.registry = ofKinds kinds → s.TakesOver d (d.WellFormed kinds) := by
  refine ⟨validate_ofKinds, fun s built => ?_⟩
  rw [← validate_ofKinds, ← built]
  exact s.takesOver_validate d

/-- A new session over the standard kinds takes over the sample, and not a block of another kind. -/
theorem Registry.accepts_wellFormed_sample :
    (Session.start .standard .empty .standard).workspace.registry = ofKinds standard.schemas.toList ∧
      Document.sample.WellFormed standard.schemas.toList ∧
      (Session.start .standard .empty .standard).TakesOver .sample
        (Document.sample.WellFormed standard.schemas.toList) ∧
      ¬ (Document.mk [Session.stray]).WellFormed standard.schemas.toList ∧
      (Session.start .standard .empty .standard).TakesOver ⟨[Session.stray]⟩
        ((Document.mk [Session.stray]).WellFormed standard.schemas.toList) := by
  have built : (Session.start .standard .empty .standard).workspace.registry =
      ofKinds standard.schemas.toList :=
    (congrArg Workspace.registry (Session.workspace_start ..)).trans standard_eq
  obtain ⟨sample, takesSample⟩ := accepts_wellFormed standard.schemas.toList .sample
  obtain ⟨stray, takesStray⟩ := accepts_wellFormed standard.schemas.toList ⟨[Session.stray]⟩
  rw [← standard_eq] at sample stray
  refine ⟨built, sample.1 Document.validate_sample, takesSample _ built, ?_, takesStray _ built⟩
  rw [← stray, Session.validate_stray]
  exact nofun

end BlockEditor
