import BlockEditor.Block.Schema

/-!
# Validated documents

What a successful check says about a block: its kind is registered, its fields hold what their rules
allow, and everything in its slots was checked for the position.
-/

namespace BlockEditor

/-! ## Names with contents -/

/-- A content stands under a name exactly if it is the first one there. -/
theorem slotAt?_eq_some_iff {α : Type} {name : String} {a : α} {slots : List (String × α)} :
    slotAt? name slots = some a ↔
      ∃ before after, slots = before ++ (name, a) :: after ∧ ∀ entry ∈ before, entry.1 ≠ name := by
  induction slots with
  | nil => simp [slotAt?]
  | cons slot slots ih =>
    obtain ⟨key, b⟩ := slot
    rw [slotAt?]
    constructor
    · intro found
      split at found
      · rename_i same
        cases found
        exact ⟨[], slots, by rw [same]; rfl, List.forall_mem_nil _⟩
      · rename_i other
        obtain ⟨before, after, rfl, others⟩ := ih.1 found
        exact ⟨(key, b) :: before, after, rfl, List.forall_mem_cons.2 ⟨other, others⟩⟩
    · rintro ⟨_ | ⟨first, before⟩, after, split, others⟩
      · cases split
        exact if_pos rfl
      · cases split
        obtain ⟨other, others⟩ := List.forall_mem_cons.1 others
        rw [if_neg other]
        exact ih.2 ⟨before, after, rfl, others⟩

/-- A content that is found stands among the contents. -/
theorem mem_of_slotAt? {α : Type} {name : String} {a : α} {slots : List (String × α)}
    (found : slotAt? name slots = some a) : (name, a) ∈ slots := by
  obtain ⟨before, after, rfl, -⟩ := slotAt?_eq_some_iff.1 found
  simp

/-! ## Registries -/

namespace Registry

/-- Every position that a registry gives for an id holds a kind with this id. -/
def Consistent (r : Registry) : Prop :=
  ∀ (id : String) (i : Nat), r.index[id]? = some i → ∃ s, r.schemas[i]? = some s ∧ s.id = id

/-- A registry without kinds is consistent. -/
theorem consistent_empty : Consistent empty := by
  intro id i found
  simp [empty] at found

/-- A registry finds what was registered last under an id. -/
theorem get?_register {r : Registry} (consistent : r.Consistent) (s : Schema) (id : String) :
    (r.register s).get? id = if s.id = id then some s else r.get? id := by
  unfold register
  split
  · rename_i j known
    -- A known id keeps its position, where the schema is replaced.
    obtain ⟨other, there, otherId⟩ := consistent s.id j known
    have inside : j < r.schemas.size := (Array.getElem?_eq_some_iff.1 there).1
    show r.index[id]?.bind (fun i => (r.schemas.setIfInBounds j s)[i]?) = _
    by_cases same : s.id = id
    · rw [if_pos same, ← same, known, Option.bind_some,
        Array.getElem?_setIfInBounds_self_of_lt inside]
    · rw [if_neg same, get?]
      cases at' : r.index[id]? with
      | none => rfl
      | some i =>
        obtain ⟨old, here, oldId⟩ := consistent id i at'
        have apart : j ≠ i := by
          rintro rfl
          have agree : other = old := Option.some.inj (there.symm.trans here)
          exact same (by rw [← otherId, agree, oldId])
        rw [Option.bind_some, Option.bind_some, Array.getElem?_setIfInBounds_ne apart]
  -- A new id is given the position behind all others.
  · show (r.index.insert s.id r.schemas.size)[id]?.bind (fun i => (r.schemas.push s)[i]?) = _
    rw [Std.HashMap.getElem?_insert]
    by_cases same : s.id = id
    · rw [if_pos (by simpa using same), if_pos same, Option.bind_some, Array.getElem?_push_size]
    · rw [if_neg (by simpa using same), if_neg same, get?]
      cases at' : r.index[id]? with
      | none => rfl
      | some i =>
        obtain ⟨old, here, -⟩ := consistent id i at'
        have inside : i < r.schemas.size := (Array.getElem?_eq_some_iff.1 here).1
        rw [Option.bind_some, Option.bind_some, Array.getElem?_push, if_neg (Nat.ne_of_lt inside)]

/-- It stays so when a kind is registered. -/
theorem Consistent.register {r : Registry} (consistent : r.Consistent) (s : Schema) :
    (r.register s).Consistent := by
  unfold Registry.register
  intro id i found
  split at found
  · rename_i j known
    obtain ⟨old, here, oldId⟩ := consistent id i found
    by_cases same : j = i
    · subst same
      obtain ⟨other, there, otherId⟩ := consistent s.id j known
      have agree : other = old := Option.some.inj (there.symm.trans here)
      have inside : j < r.schemas.size := (Array.getElem?_eq_some_iff.1 here).1
      exact ⟨s, Array.getElem?_setIfInBounds_self_of_lt inside, by rw [← otherId, agree, oldId]⟩
    · exact ⟨old, by rw [Array.getElem?_setIfInBounds_ne same]; exact here, oldId⟩
  · have found : (r.index.insert s.id r.schemas.size)[id]? = some i := found
    rw [Std.HashMap.getElem?_insert] at found
    split at found
    · rename_i same
      cases found
      exact ⟨s, Array.getElem?_push_size, eq_of_beq same⟩
    · obtain ⟨old, here, oldId⟩ := consistent id i found
      have inside : i < r.schemas.size := (Array.getElem?_eq_some_iff.1 here).1
      refine ⟨old, ?_, oldId⟩
      show (r.schemas.push s)[i]? = some old
      rw [Array.getElem?_push, if_neg (Nat.ne_of_lt inside)]
      exact here

/-- A registry finds the last of the kinds that were registered under an id. -/
theorem get?_foldl_register {r : Registry} (consistent : r.Consistent) (schemas : List Schema)
    (id : String) : (schemas.foldl register r).get? id =
      (schemas.reverse.find? fun s => s.id = id).or (r.get? id) := by
  induction schemas generalizing r with
  | nil => rfl
  | cons s schemas ih =>
    rw [List.foldl_cons, ih (consistent.register s), get?_register consistent, List.reverse_cons,
      List.find?_append, Option.or_assoc]
    congr 1
    by_cases same : s.id = id <;> simp [same]

end Registry

/-! ## Checks -/

/-- Two checks pass one after the other exactly if each of them passes. -/
theorem check_then_iff {first second : Except Cause Unit} :
    (do first; second) = .ok () ↔ first = .ok () ∧ second = .ok () := by
  cases first with
  | error cause => exact iff_of_false nofun fun h => nomatch h.1
  | ok => exact (and_iff_right rfl).symm

namespace Schema

variable {s : Schema}

/-- The shape of a kind is accepted where it is asked for, or where none is. -/
theorem checkShape_eq_ok_iff {expected : Option Shape} :
    s.checkShape expected = .ok () ↔ ∀ shape ∈ expected, s.shape = shape := by
  cases expected with
  | none => exact iff_of_true rfl nofun
  | some shape =>
    rw [checkShape]
    by_cases fits : s.shape = shape <;> simp [fits]

/-- Fields pass the check if each of them does. -/
theorem checkFields_eq_ok_iff {fields : List (String × FieldValue)} :
    s.checkFields fields = .ok () ↔ ∀ field ∈ fields, s.checkField field.1 field.2 = .ok () := by
  induction fields with
  | nil => exact iff_of_true rfl nofun
  | cons field fields ih => rw [checkFields, check_then_iff, ih, List.forall_mem_cons]

/-- A rule for numbers asks of a number to be finite, and whole and not too small where it says so. -/
theorem checkField_number_iff {name : String} {x start : Float} {least : Option Float} {whole : Bool}
    (rule : s.rule? name = some (.number start least whole)) :
    s.checkField name (.number x) = .ok () ↔ Number.isFinite x = true ∧
      (whole = true → Number.isWhole x = true) ∧ ∀ bound ∈ least, ¬ x < bound := by
  have fraction : (whole && !Number.isWhole x) = true ↔
      ¬ (whole = true → Number.isWhole x = true) := by simp
  simp only [checkField, rule, fraction]
  cases finite : Number.isFinite x with
  | false => simp
  | true =>
    rw [Bool.not_true, if_neg Bool.false_ne_true, and_iff_right rfl]
    by_cases integer : whole = true → Number.isWhole x = true
    · rw [if_neg (not_not_intro integer), and_iff_right integer]
      cases least with
      | none => simp
      | some bound => by_cases below : x < bound <;> simp [below]
    · rw [if_pos integer]
      exact iff_of_false (by simp) fun allowed => integer allowed.1

/-- A field with a rule for numbers holds a number that the rule allows. -/
theorem checkField_number {name : String} {v : FieldValue} {start : Float} {least : Option Float}
    {whole : Bool} (rule : s.rule? name = some (.number start least whole))
    (h : s.checkField name v = .ok ()) : ∃ x, v = .number x ∧ Number.isFinite x = true ∧
      (whole = true → Number.isWhole x = true) ∧ ∀ bound ∈ least, ¬ x < bound := by
  cases v with
  | text content => simp [checkField, rule] at h
  | number x => exact ⟨x, rfl, (checkField_number_iff rule).1 h⟩

end Schema

/-- A registry knows the kind of a block and allows everything in it. -/
structure Block.Allowed (r : Registry) (s : Schema) (b : Block) : Prop where
  known : r.get? b.kind = some s
  fields : ∀ field ∈ b.fields, s.checkField field.1 field.2 = .ok ()
  values : ∀ slot ∈ b.values, s.valueSlots.contains slot.1 = true ∧
    r.checkBlock (some .output) slot.2 = .ok ()
  statements : ∀ slot ∈ b.statements, s.statementSlots.contains slot.1 = true ∧
    ∀ c ∈ slot.2, r.checkBlock (some .statement) c = .ok ()

namespace Registry

variable {r : Registry} {s : Schema}

/-- Blocks pass the check if each of them does. -/
theorem checkAll_eq_ok_iff {expected : Option Shape} {bs : List Block} :
    r.checkAll expected bs = .ok () ↔ ∀ b ∈ bs, r.checkBlock expected b = .ok () := by
  induction bs with
  | nil => exact iff_of_true (by rw [checkAll]) nofun
  | cons b bs ih => rw [checkAll, check_then_iff, ih, List.forall_mem_cons]

theorem checkValues_eq_ok_iff {slots : List (String × Block)} :
    r.checkValues s slots = .ok () ↔ ∀ slot ∈ slots, s.valueSlots.contains slot.1 = true ∧
      r.checkBlock (some .output) slot.2 = .ok () := by
  induction slots with
  | nil => exact iff_of_true (by rw [checkValues]) nofun
  | cons slot slots ih =>
    rw [checkValues, List.forall_mem_cons]
    by_cases known : s.valueSlots.contains slot.1 = true
    · rw [if_pos known, check_then_iff, ih, and_iff_right known]
    · rw [if_neg known]
      exact iff_of_false nofun fun h => known h.1.1

theorem checkSlots_eq_ok_iff {slots : List (String × List Block)} :
    r.checkSlots s slots = .ok () ↔ ∀ slot ∈ slots, s.statementSlots.contains slot.1 = true ∧
      ∀ b ∈ slot.2, r.checkBlock (some .statement) b = .ok () := by
  induction slots with
  | nil => exact iff_of_true (by rw [checkSlots]) nofun
  | cons slot slots ih =>
    rw [checkSlots, List.forall_mem_cons]
    by_cases known : s.statementSlots.contains slot.1 = true
    · rw [if_pos known, check_then_iff, checkAll_eq_ok_iff, ih, and_iff_right known]
    · rw [if_neg known]
      exact iff_of_false nofun fun h => known h.1.1

/-- A block passes the check exactly if it is of a kind that allows what it carries, and of the shape
that is asked for. -/
theorem checkBlock_eq_ok_iff {expected : Option Shape} {b : Block} :
    r.checkBlock expected b = .ok () ↔
      ∃ s, b.Allowed r s ∧ ∀ shape ∈ expected, s.shape = shape := by
  cases b with
  | mk kind fields values statements =>
    rw [checkBlock]
    cases found : r.get? kind with
    | none =>
      refine iff_of_false nofun ?_
      rintro ⟨s, allowed, -⟩
      exact absurd (found.symm.trans allowed.known) nofun
    | some s =>
      simp only [check_then_iff, Schema.checkShape_eq_ok_iff, Schema.checkFields_eq_ok_iff,
        checkValues_eq_ok_iff, checkSlots_eq_ok_iff]
      constructor
      · rintro ⟨shape, fields, values, statements⟩
        exact ⟨s, ⟨found, fields, values, statements⟩, shape⟩
      · rintro ⟨t, allowed, shape⟩
        obtain rfl : s = t := Option.some.inj (found.symm.trans allowed.known)
        exact ⟨shape, allowed.fields, allowed.values, allowed.statements⟩

/-- A document passes the check if each of its blocks does. -/
theorem validate_eq_ok_iff {d : Document} :
    r.validate d = .ok () ↔ ∀ b ∈ d.blocks, r.checkBlock none b = .ok () := by
  rw [← checkAll_eq_ok_iff]
  unfold validate reportAs
  cases r.checkAll none d.blocks with
  | error cause => exact iff_of_false nofun nofun
  | ok => exact iff_of_true rfl rfl

/-! ## The standard kinds -/

/-- The kind of a block is one of the standard kinds. -/
theorem standard_get? {id : String} {s : Schema} (h : standard.get? id = some s) :
    s.shape = .statement ∧ (id = BlockKind.print ∨ id = BlockKind.assign ∨ id = BlockKind.branch ∨
        id = BlockKind.loop ∧ s.rule? Slot.count = some (.number 5.0 (some 0.0) true)) ∨
      s.shape = .output ∧ (id = BlockKind.number ∧ s.rule? Slot.number = some (.number 0.0 none false) ∨
        id = BlockKind.text) := by
  have none : empty.get? id = none := by simp [get?, empty]
  rw [standard, get?_foldl_register consistent_empty, none, Option.or_none] at h
  have same := List.find?_some h
  have member := List.mem_reverse.1 (List.mem_of_find?_eq_some h)
  obtain rfl : s.id = id := of_decide_eq_true same
  simp only [List.mem_cons, List.not_mem_nil, or_false] at member
  rcases member with rfl | rfl | rfl | rfl | rfl | rfl
  · exact .inl ⟨rfl, .inl rfl⟩
  · exact .inl ⟨rfl, .inr (.inl rfl)⟩
  · exact .inl ⟨rfl, .inr (.inr (.inl rfl))⟩
  · exact .inl ⟨rfl, .inr (.inr (.inr ⟨rfl, rfl⟩))⟩
  · exact .inr ⟨rfl, .inl ⟨rfl, rfl⟩⟩
  · exact .inr ⟨rfl, .inr rfl⟩

end Registry

end BlockEditor
