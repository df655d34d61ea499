import BlockEditor.Block.Data
import BlockEditor.Proofs.DataNotation
import BlockEditor.Proofs.Mirror

/-!
# Stored documents

A document that is written as data is read back as it was: every block with its kind, its fields,
its value slots and its statement slots, those with an empty sequence among them.  Names have to
stand in order, as they do in every document that is built or read, and a number has to be read
back from the text that is written for it.
-/

namespace BlockEditor

/-! ## Names in order -/

/-- Contents under names that stand in order, each name once. -/
def Ascending {α : Type} (slots : List (String × α)) : Prop := slots.Pairwise fun a b => a.1 < b.1

section Ascending

variable {α : Type}

/-- A content under a name behind all others is put at the end. -/
theorem putSlot_of_last {name : String} (a : α) {slots : List (String × α)}
    (last : ∀ slot ∈ slots, slot.1 < name) : putSlot name a slots = slots ++ [(name, a)] := by
  induction slots with
  | nil => rfl
  | cons slot slots ih =>
    obtain ⟨key, old⟩ := slot
    obtain ⟨before, others⟩ := List.forall_mem_cons.1 last
    have less : key < name := before
    rw [putSlot, if_neg (String.lt_asymm less), if_neg (String.ne_of_lt less), ih others]
    rfl

/-- Contents whose names stand in order are kept as they are. -/
theorem slotsOf_of_ascending {slots : List (String × α)} (h : Ascending slots) :
    slotsOf slots = slots := by
  have run : ∀ behind front : List (String × α), Ascending (front ++ behind) →
      behind.foldl (fun slots entry => putSlot entry.1 entry.2 slots) front = front ++ behind := by
    intro behind
    induction behind with
    | nil => intro front _; rw [List.foldl_nil, List.append_nil]
    | cons slot behind ih =>
      intro front ordered
      have last : ∀ other ∈ front, other.1 < slot.1 := fun other member =>
        (List.pairwise_append.1 ordered).2.2 other member slot List.mem_cons_self
      rw [List.foldl_cons, putSlot_of_last _ last, ih, List.append_assoc, List.singleton_append]
      rw [List.append_assoc, List.singleton_append]
      exact ordered
  exact run slots [] h

end Ascending

/-! ## Depth -/

namespace Json

mutual

/-- How many arrays and objects are nested in a tree at most. -/
def depth : Json → Nat
  | array items => 1 + depthOfItems items
  | object members => 1 + depthOfMembers members
  | _ => 0

/-- How many arrays and objects are nested in one of several trees at most. -/
def depthOfItems : List Json → Nat
  | [] => 0
  | item :: items => max item.depth (depthOfItems items)

/-- How many arrays and objects are nested in one of several members at most. -/
def depthOfMembers : List (String × Json) → Nat
  | [] => 0
  | (_, value) :: members => max value.depth (depthOfMembers members)

end

/-- Members side by side are as deep as the deeper ones. -/
theorem depthOfMembers_append (a b : List (String × Json)) :
    depthOfMembers (a ++ b) = max (depthOfMembers a) (depthOfMembers b) := by
  induction a with
  | nil => rw [List.nil_append, depthOfMembers, Nat.zero_max]
  | cons member a ih =>
    obtain ⟨key, value⟩ := member
    rw [List.cons_append, depthOfMembers, depthOfMembers, ih, Nat.max_assoc]

/-- Members side by side are written side by side. -/
theorem writtenMembers_append (a b : List (String × Json)) :
    writtenMembers (a ++ b) = writtenMembers a ++ writtenMembers b := by
  induction a with
  | nil => rw [List.nil_append, writtenMembers, List.nil_append]
  | cons member a ih =>
    obtain ⟨key, value⟩ := member
    rw [List.cons_append, writtenMembers, writtenMembers, ih, List.cons_append]

/-- The text that is written for a double is read as the same double. -/
def ReadsBack (x : Float) : Prop :=
  ((readNumeral (floatText x)).bind fun (n, _) => n.toFloat?) = some x

instance (x : Float) : Decidable (ReadsBack x) := inferInstanceAs (Decidable (_ = _))

end Json

/-! ## What is stored -/

namespace Block

/-- The numbers in the fields of a block. -/
def fieldNumbers (b : Block) : List Float := b.fields.filterMap fun entry =>
  match entry.2 with
  | .number x => some x
  | .text _ => none

/-- The contents of a block stand in the order of their names. -/
structure Ordered (b : Block) : Prop where
  fields : Ascending b.fields
  values : Ascending b.values
  statements : Ascending b.statements

/-- The numbers in the fields of a block are finite and are read back. -/
def Legible (b : Block) : Prop :=
  ∀ x ∈ b.fieldNumbers, Number.isFinite x = true ∧ Json.ReadsBack x

end Block

namespace Document

/-- The contents of every block of a document stand in the order of their names. -/
def Ordered (d : Document) : Prop := ∀ b ∈ d.nodes, b.Ordered

/-- The numbers in all fields of a document. -/
def numbers (d : Document) : List Float := d.nodes.flatMap Block.fieldNumbers

end Document

/-! ## Reading fields -/

namespace Block

open Json (written writtenItems writtenMembers escaped)

/-- A text is read from its written form. -/
theorem readText?_written (text : String) : readText? (written (.string text)) = some text := by
  rw [written, readText?, Json.decodeBody?_escaped]

/-- A field is read from its written form, if it holds no number but finite ones that are read back.
-/
theorem readField?_written {v : FieldValue}
    (legible : ∀ x, v = .number x → Number.isFinite x = true ∧ Json.ReadsBack x) :
    readField? (written v.toJson) = some v := by
  cases v with
  | number x =>
    obtain ⟨finite, same⟩ := legible x rfl
    obtain ⟨n, proper, text⟩ := Json.exists_floatText finite
    rw [Json.ReadsBack, text, proper.readNumeral_text, Option.bind_some] at same
    rw [FieldValue.toJson, written, if_pos finite, text, Json.numeralOf_text proper, readField?]
    dsimp only at same
    rw [same]
    rfl
  | text content => rw [FieldValue.toJson, written, readField?, Json.decodeBody?_escaped]; rfl

theorem readFields?_written {fields : List (String × FieldValue)}
    (legible : ∀ entry ∈ fields, ∀ x, entry.2 = .number x →
      Number.isFinite x = true ∧ Json.ReadsBack x) :
    readFields? (writtenMembers (fields.map fun entry => (entry.1, entry.2.toJson))) = some fields := by
  induction fields with
  | nil => rfl
  | cons entry fields ih =>
    obtain ⟨name, v⟩ := entry
    obtain ⟨first, others⟩ := List.forall_mem_cons.1 legible
    rw [List.map_cons, writtenMembers, readFields?, Json.decodeBody?_escaped,
      readField?_written first, ih others]
    rfl

/-- The numbers of a legible block are those in its fields. -/
theorem Legible.entries {b : Block} (h : b.Legible) : ∀ entry ∈ b.fields, ∀ x,
    entry.2 = .number x → Number.isFinite x = true ∧ Json.ReadsBack x := by
  intro entry member x number
  refine h x (List.mem_filterMap.2 ⟨entry, member, ?_⟩)
  rw [number]

/-! ## Reading members -/

section Members

variable {depth : Nat} {kind : Option String} {fields : Option (List (String × FieldValue))}
  {values : Option (List (String × Block))} {statements : Option (List (String × List Block))}
  {w : Json.Written} {members : List (List Char × Json.Written)}

/-- A kind is read once. -/
theorem readMembers?_type :
    readMembers? depth ⟨none, fields, values, statements⟩ ((escaped "type", w) :: members) =
      (readText? w).bind fun text =>
        readMembers? depth ⟨some text, fields, values, statements⟩ members := by
  rw [readMembers?, Json.decodeBody?_escaped]
  simp

theorem readMembers?_fields :
    readMembers? depth ⟨kind, none, values, statements⟩ ((escaped "fields", w) :: members) =
      (readFieldsAt? depth w).bind fun slots =>
        readMembers? depth ⟨kind, some slots, values, statements⟩ members := by
  rw [readMembers?, Json.decodeBody?_escaped]
  simp

theorem readMembers?_values :
    readMembers? depth ⟨kind, fields, none, statements⟩ ((escaped "values", w) :: members) =
      (readValues? depth w).bind fun slots =>
        readMembers? depth ⟨kind, fields, some slots, statements⟩ members := by
  rw [readMembers?, Json.decodeBody?_escaped]
  simp

theorem readMembers?_statements :
    readMembers? depth ⟨kind, fields, values, none⟩ ((escaped "statements", w) :: members) =
      (readSlots? depth w).bind fun slots =>
        readMembers? depth ⟨kind, fields, values, some slots⟩ members := by
  rw [readMembers?, Json.decodeBody?_escaped]
  simp

end Members

/-! ## Reading blocks -/

/-- What stands in a member that is left out if it is empty. -/
def presence {α : Type} (slots : List (String × α)) : Option (List (String × α)) :=
  if slots.isEmpty then none else some slots

/-- Left out or not, a member gives the same contents. -/
theorem getD_presence {α : Type} (slots : List (String × α)) : (presence slots).getD [] = slots := by
  cases slots <;> rfl

/-- A member that is not empty is there. -/
theorem presence_of_ne_nil {α : Type} {slots : List (String × α)} (some : slots ≠ []) :
    presence slots = .some slots := if_neg (by simpa using some)

/-- A member that is left out if it is empty makes no difference where it is left out. -/
theorem readMembers?_optionalMember {depth : Nat} {start : Draft} (next : Draft) {key : String}
    {entries : List (String × Json)} {members : List (List Char × Json.Written)}
    (absent : entries = [] → next = start)
    (step : entries ≠ [] →
      readMembers? depth start ((escaped key, written (.object entries)) :: members) =
        readMembers? depth next members) :
    readMembers? depth start (writtenMembers (optionalMember key entries) ++ members) =
      readMembers? depth next members := by
  by_cases none : entries = []
  · rw [absent none, none]
    rfl
  · rw [optionalMember, if_neg (by simpa using none), writtenMembers, writtenMembers,
      List.singleton_append, step none]

/-- A member that is left out if it is empty is as deep as its object. -/
theorem depth_le_of_optionalMember (key : String) {entries : List (String × Json)} {depth : Nat}
    (some : entries ≠ []) (h : Json.depthOfMembers (optionalMember key entries) ≤ depth) :
    1 + Json.depthOfMembers entries ≤ depth := by
  rw [optionalMember, if_neg (by simpa using some), Json.depthOfMembers, Json.depth,
    Json.depthOfMembers, Nat.max_zero] at h
  exact h

/-- The data of value slots is empty only if there are none. -/
theorem valuesJson_eq_nil_iff (slots : List (String × Block)) :
    valuesJson slots = [] ↔ slots = [] := by
  cases slots with
  | nil => simp [valuesJson]
  | cons slot slots => simp [valuesJson]

theorem slotsJson_eq_nil_iff (slots : List (String × List Block)) :
    slotsJson slots = [] ↔ slots = [] := by
  cases slots with
  | nil => simp [slotsJson]
  | cons slot slots => simp [slotsJson]

/-- A block is read if its parts are. -/
theorem read?_of_parts {kind : String} {fields : List (String × FieldValue)}
    {values : List (String × Block)} {statements : List (String × List Block)} {depth : Nat}
    (ordered : (mk kind fields values statements).Ordered)
    (readFields : fields ≠ [] → readFieldsAt? depth (written (.object
      (fields.map fun entry => (entry.1, entry.2.toJson)))) = some fields)
    (readValues : values ≠ [] → readValues? depth (written (.object (valuesJson values))) = some values)
    (readSlots : statements ≠ [] →
      readSlots? depth (written (.object (slotsJson statements))) = some statements) :
    read? (depth + 1) (written (mk kind fields values statements).toJson) =
      some (mk kind fields values statements) := by
  obtain ⟨inFields, inValues, inStatements⟩ := ordered
  -- Members are read from left to right, and each of the last three may have been left out.
  have members : readMembers? depth .blank (writtenMembers ([("type", .string kind)] ++
      (optionalMember "fields" (fields.map fun entry => (entry.1, entry.2.toJson)) ++
        (optionalMember "values" (valuesJson values) ++
          optionalMember "statements" (slotsJson statements))))) =
      some ⟨some kind, presence fields, presence values, presence statements⟩ := by
    rw [List.singleton_append, writtenMembers, Draft.blank, readMembers?_type,
      readText?_written kind, Option.bind_some, Json.writtenMembers_append,
      Json.writtenMembers_append]
    rw [readMembers?_optionalMember ⟨some kind, presence fields, none, none⟩]
    rotate_left
    · intro none
      rw [List.map_eq_nil_iff.1 none]
      rfl
    · intro some
      have some : fields ≠ [] := by simpa using some
      rw [readMembers?_fields, readFields some, Option.bind_some, presence_of_ne_nil some]
    rw [readMembers?_optionalMember ⟨some kind, presence fields, presence values, none⟩]
    rotate_left
    · intro none
      rw [(valuesJson_eq_nil_iff _).1 none]
      rfl
    · intro some
      have some : values ≠ [] := fun none => some ((valuesJson_eq_nil_iff _).2 none)
      rw [readMembers?_values, readValues some, Option.bind_some, presence_of_ne_nil some]
    rw [← List.append_nil (writtenMembers _), readMembers?_optionalMember
      ⟨some kind, presence fields, presence values, presence statements⟩, readMembers?]
    · intro none
      rw [(slotsJson_eq_nil_iff _).1 none]
      rfl
    · intro some
      have some : statements ≠ [] := fun none => some ((slotsJson_eq_nil_iff _).2 none)
      rw [readMembers?_statements, readSlots some, Option.bind_some, presence_of_ne_nil some]
  rw [toJson, written, read?, List.append_assoc, List.append_assoc, members]
  have sameFields : slotsOf fields = fields := slotsOf_of_ascending inFields
  have sameValues : slotsOf values = values := slotsOf_of_ascending inValues
  have sameStatements : slotsOf statements = statements := slotsOf_of_ascending inStatements
  rw [Option.bind_eq_bind, Option.bind_some, Draft.block?, getD_presence, getD_presence,
    getD_presence, sameFields, sameValues, sameStatements]
  rfl

mutual

/-- A block is read from its written form. -/
theorem read?_written : ∀ (b : Block) (depth : Nat), (∀ c ∈ b.nodes, c.Ordered ∧ c.Legible) →
    b.toJson.depth ≤ depth → read? depth (written b.toJson) = some b
  | mk kind fields values statements, depth, each, shallow => by
    obtain ⟨ordered, legible⟩ := each _ (self_mem_nodes _)
    rw [nodes, List.forall_mem_cons, List.forall_mem_append] at each
    obtain ⟨-, inValues, inStatements⟩ := each
    rw [toJson, Json.depth] at shallow
    obtain ⟨depth, rfl⟩ : ∃ k, depth = k + 1 := ⟨depth - 1, by omega⟩
    rw [Json.depthOfMembers_append, Json.depthOfMembers_append, Json.depthOfMembers_append] at shallow
    apply read?_of_parts ordered
    · intro some
      have room : 1 + Json.depthOfMembers (fields.map fun entry => (entry.1, entry.2.toJson)) ≤
          depth := depth_le_of_optionalMember "fields" (by simpa using some) (by omega)
      obtain ⟨depth, rfl⟩ : ∃ k, depth = k + 1 := ⟨depth - 1, by omega⟩
      exact readFields?_written legible.entries
    · intro some
      have nonempty : valuesJson values ≠ [] := mt (valuesJson_eq_nil_iff _).1 some
      have room : 1 + Json.depthOfMembers (valuesJson values) ≤ depth :=
        depth_le_of_optionalMember "values" nonempty (by omega)
      obtain ⟨depth, rfl⟩ : ∃ k, depth = k + 1 := ⟨depth - 1, by omega⟩
      rw [written, readValues?]
      exact readValueMembers?_written values depth inValues (by omega)
    · intro some
      have nonempty : slotsJson statements ≠ [] := mt (slotsJson_eq_nil_iff _).1 some
      have room : 1 + Json.depthOfMembers (slotsJson statements) ≤ depth :=
        depth_le_of_optionalMember "statements" nonempty (by omega)
      obtain ⟨depth, rfl⟩ : ∃ k, depth = k + 1 := ⟨depth - 1, by omega⟩
      rw [written, readSlots?]
      exact readSlotMembers?_written statements depth inStatements (by omega)

/-- The blocks of a sequence are read from their written forms. -/
theorem readItems?_written : ∀ (bs : List Block) (depth : Nat),
    (∀ c ∈ nodesOf bs, c.Ordered ∧ c.Legible) → Json.depthOfItems (sequenceJson bs) ≤ depth →
      readItems? depth (writtenItems (sequenceJson bs)) = some bs
  | [], depth, each, shallow => by rw [sequenceJson, writtenItems, readItems?]
  | b :: bs, depth, each, shallow => by
    rw [sequenceJson, Json.depthOfItems, Nat.max_le] at shallow
    rw [nodesOf, List.forall_mem_append] at each
    rw [sequenceJson, writtenItems, readItems?, read?_written b depth each.1 shallow.1,
      readItems?_written bs depth each.2 shallow.2]
    rfl

/-- Value slots are read from their written forms. -/
theorem readValueMembers?_written : ∀ (slots : List (String × Block)) (depth : Nat),
    (∀ c ∈ valueNodes slots, c.Ordered ∧ c.Legible) → Json.depthOfMembers (valuesJson slots) ≤ depth →
      readValueMembers? depth (writtenMembers (valuesJson slots)) = some slots
  | [], depth, each, shallow => by rw [valuesJson, writtenMembers, readValueMembers?]
  | (name, b) :: slots, depth, each, shallow => by
    rw [valuesJson, Json.depthOfMembers, Nat.max_le] at shallow
    rw [valueNodes, List.forall_mem_append] at each
    rw [valuesJson, writtenMembers, readValueMembers?, Json.decodeBody?_escaped,
      read?_written b depth each.1 shallow.1, readValueMembers?_written slots depth each.2 shallow.2]
    rfl

/-- Statement slots are read from their written forms. -/
theorem readSlotMembers?_written : ∀ (slots : List (String × List Block)) (depth : Nat),
    (∀ c ∈ slotNodes slots, c.Ordered ∧ c.Legible) → Json.depthOfMembers (slotsJson slots) ≤ depth →
      readSlotMembers? depth (writtenMembers (slotsJson slots)) = some slots
  | [], depth, each, shallow => by rw [slotsJson, writtenMembers, readSlotMembers?]
  | (name, bs) :: slots, depth, each, shallow => by
    rw [slotsJson, Json.depthOfMembers, Nat.max_le, Json.depth] at shallow
    rw [slotNodes, List.forall_mem_append] at each
    obtain ⟨depth, rfl⟩ : ∃ k, depth = k + 1 := ⟨depth - 1, by omega⟩
    have first : readSequence? (depth + 1) (written (.array (sequenceJson bs))) = some bs := by
      rw [written, readSequence?]
      exact readItems?_written bs depth each.1 (by omega)
    rw [slotsJson, writtenMembers, readSlotMembers?, Json.decodeBody?_escaped, first,
      readSlotMembers?_written slots (depth + 1) each.2 shallow.2]
    rfl

end

/-! ## Nothing deep is read -/

/-- What follows from reading on behind a member that may be left out: its content was read, and the
rest is read whatever the content was. -/
theorem exists_of_readMembers?_optionalMember {α : Type} {depth : Nat} {key : String}
    {entries : List (String × Json)} {members : List (List Char × Json.Written)} {d : Draft}
    {content : Json.Written → Option α} (next : Option α → Draft)
    (step : ∀ w, readMembers? depth (next none) ((escaped key, w) :: members) =
      (content w).bind fun a => readMembers? depth (next (some a)) members)
    (read : readMembers? depth (next none)
      (writtenMembers (optionalMember key entries) ++ members) = some d) :
    (entries ≠ [] → (content (written (.object entries))).isSome) ∧
      ∃ found, readMembers? depth (next found) members = some d := by
  by_cases none : entries = []
  · rw [none] at read
    exact ⟨fun some => absurd none some, .none, read⟩
  · rw [optionalMember, if_neg (by simpa using none), writtenMembers, writtenMembers,
      List.singleton_append, step] at read
    obtain ⟨a, found, rest⟩ := Option.bind_eq_some_iff.1 read
    exact ⟨fun _ => by rw [found]; rfl, .some a, rest⟩

/-- A member that is left out if it is empty is no deeper than its object. -/
theorem depth_optionalMember_le {key : String} {entries : List (String × Json)} {depth : Nat}
    (shallow : entries ≠ [] → 1 + Json.depthOfMembers entries ≤ depth) :
    Json.depthOfMembers (optionalMember key entries) ≤ depth := by
  by_cases none : entries = []
  · rw [none]
    exact Nat.zero_le _
  · rw [optionalMember, if_neg (by simpa using none), Json.depthOfMembers, Json.depth,
      Json.depthOfMembers, Nat.max_zero]
    exact shallow none

/-- The fields of a block are not nested. -/
theorem depth_fields (fields : List (String × FieldValue)) :
    Json.depthOfMembers (fields.map fun entry => (entry.1, entry.2.toJson)) = 0 := by
  induction fields with
  | nil => rfl
  | cons entry fields ih =>
    obtain ⟨name, v⟩ := entry
    rw [List.map_cons, Json.depthOfMembers, ih]
    cases v <;> rfl

mutual

/-- A block is read to the given depth only. -/
theorem depth_le_of_read? : ∀ (b : Block) (depth : Nat),
    (read? depth (written b.toJson)).isSome → b.toJson.depth ≤ depth
  | mk kind fields values statements, depth, read => by
    rw [toJson, written] at read
    cases depth with
    | zero => rw [read?] at read; cases read
    | succ depth =>
      rw [read?, List.append_assoc, List.append_assoc, List.singleton_append, writtenMembers,
        Draft.blank, readMembers?_type, Json.writtenMembers_append, Json.writtenMembers_append,
        readText?_written, Option.bind_some] at read
      obtain ⟨b, found⟩ := Option.isSome_iff_exists.1 read
      obtain ⟨d, found, -⟩ := Option.bind_eq_some_iff.1 found
      -- That the block was read says of each member that its content was, since reading stops at
      -- the first failure.
      obtain ⟨inFields, x, found⟩ := exists_of_readMembers?_optionalMember
        (fun slots => ⟨some kind, slots, none, none⟩) (fun w => readMembers?_fields) found
      obtain ⟨inValues, y, found⟩ := exists_of_readMembers?_optionalMember
        (fun slots => ⟨some kind, x, slots, none⟩) (fun w => readMembers?_values) found
      rw [← List.append_nil (writtenMembers _)] at found
      obtain ⟨inSlots, -⟩ := exists_of_readMembers?_optionalMember
        (fun slots => ⟨some kind, x, y, slots⟩) (fun w => readMembers?_statements) found
      rw [toJson, Json.depth, Json.depthOfMembers_append, Json.depthOfMembers_append,
        Json.depthOfMembers_append]
      have plain : Json.depthOfMembers [("type", .string kind)] = 0 := rfl
      have shallowFields : Json.depthOfMembers (optionalMember "fields"
          (fields.map fun entry => (entry.1, entry.2.toJson))) ≤ depth :=
        depth_optionalMember_le fun some => by
          rw [depth_fields]
          cases depth with
          | zero => cases inFields some
          | succ depth => omega
      have shallowValues :
          Json.depthOfMembers (optionalMember "values" (valuesJson values)) ≤ depth :=
        depth_optionalMember_le fun some => by
          have read := inValues some
          cases depth with
          | zero => rw [written, readValues?] at read; cases read
          | succ depth =>
            rw [written, readValues?] at read
            have inner := depth_le_of_readValueMembers? values depth read
            omega
      have shallowSlots :
          Json.depthOfMembers (optionalMember "statements" (slotsJson statements)) ≤ depth :=
        depth_optionalMember_le fun some => by
          have read := inSlots some
          cases depth with
          | zero => rw [written, readSlots?] at read; cases read
          | succ depth =>
            rw [written, readSlots?] at read
            have inner := depth_le_of_readSlotMembers? statements depth read
            omega
      omega

/-- The blocks of a sequence are read to the given depth only. -/
theorem depth_le_of_readItems? : ∀ (bs : List Block) (depth : Nat),
    (readItems? depth (writtenItems (sequenceJson bs))).isSome →
      Json.depthOfItems (sequenceJson bs) ≤ depth
  | [], depth, _ => Nat.zero_le _
  | b :: bs, depth, read => by
    rw [sequenceJson, writtenItems, readItems?] at read
    obtain ⟨all, found⟩ := Option.isSome_iff_exists.1 read
    obtain ⟨c, first, found⟩ := Option.bind_eq_some_iff.1 found
    obtain ⟨cs, others, -⟩ := Option.bind_eq_some_iff.1 found
    rw [sequenceJson, Json.depthOfItems]
    exact Nat.max_le.2 ⟨depth_le_of_read? b depth (by rw [first]; rfl),
      depth_le_of_readItems? bs depth (by rw [others]; rfl)⟩

/-- Value slots are read to the given depth only. -/
theorem depth_le_of_readValueMembers? : ∀ (slots : List (String × Block)) (depth : Nat),
    (readValueMembers? depth (writtenMembers (valuesJson slots))).isSome →
      Json.depthOfMembers (valuesJson slots) ≤ depth
  | [], depth, _ => Nat.zero_le _
  | (name, b) :: slots, depth, read => by
    rw [valuesJson, writtenMembers, readValueMembers?, Json.decodeBody?_escaped,
      Option.bind_eq_bind, Option.bind_some] at read
    obtain ⟨all, found⟩ := Option.isSome_iff_exists.1 read
    obtain ⟨c, first, found⟩ := Option.bind_eq_some_iff.1 found
    obtain ⟨cs, others, -⟩ := Option.bind_eq_some_iff.1 found
    rw [valuesJson, Json.depthOfMembers]
    exact Nat.max_le.2 ⟨depth_le_of_read? b depth (by rw [first]; rfl),
      depth_le_of_readValueMembers? slots depth (by rw [others]; rfl)⟩

/-- Statement slots are read to the given depth only. -/
theorem depth_le_of_readSlotMembers? : ∀ (slots : List (String × List Block)) (depth : Nat),
    (readSlotMembers? depth (writtenMembers (slotsJson slots))).isSome →
      Json.depthOfMembers (slotsJson slots) ≤ depth
  | [], depth, _ => Nat.zero_le _
  | (name, bs) :: slots, depth, read => by
    rw [slotsJson, writtenMembers, readSlotMembers?, Json.decodeBody?_escaped,
      Option.bind_eq_bind, Option.bind_some] at read
    obtain ⟨all, found⟩ := Option.isSome_iff_exists.1 read
    obtain ⟨cs, first, found⟩ := Option.bind_eq_some_iff.1 found
    obtain ⟨others, rest, -⟩ := Option.bind_eq_some_iff.1 found
    rw [slotsJson, Json.depthOfMembers, Json.depth]
    refine Nat.max_le.2 ⟨?_, depth_le_of_readSlotMembers? slots depth (by rw [rest]; rfl)⟩
    cases depth with
    | zero => rw [written, readSequence?] at first; cases first
    | succ depth =>
      rw [written, readSequence?] at first
      have inner := depth_le_of_readItems? bs depth (by rw [first]; rfl)
      omega

end

end Block

/-! ## Documents -/

namespace Document

/-- A document is read from its data, laid out at any depth. -/
theorem read?_textAt {d : Document} (ordered : d.Ordered)
    (finite : ∀ x ∈ d.numbers, Number.isFinite x = true)
    (readsBack : ∀ x ∈ d.numbers, Number.isFinite x = true → Json.ReadsBack x)
    (shallow : d.toJson.depth ≤ Block.depthLimit) (depth : Nat) :
    read? (String.ofList (d.toJson.textAt depth)) = some d := by
  have each : ∀ b ∈ d.nodes, b.Ordered ∧ b.Legible := by
    intro b member
    refine ⟨ordered b member, fun x field => ?_⟩
    have number : x ∈ d.numbers := List.mem_flatMap.2 ⟨b, member, field⟩
    exact ⟨finite x number, readsBack x number (finite x number)⟩
  rw [toJson, Json.depth, Json.depthOfMembers, Json.depthOfMembers, Json.depth,
    Block.depthLimit] at shallow
  have blocks : Block.readSequence? (Block.depthLimit - 1)
      (Json.written (.array (Block.sequenceJson d.blocks))) = some d.blocks :=
    Block.readItems?_written d.blocks 125 each (by omega)
  rw [read?, String.toList_ofList, Json.readWritten?_textAt, Option.bind_some, toJson, Json.written,
    Json.writtenMembers, Json.writtenMembers, ofWritten?, readBlocks?, Json.decodeBody?_escaped]
  simp [blocks, readBlocks?]

/-- A document is read to the limit only, in whatever layout it is written. -/
theorem depth_le_of_read?_textAt {d : Document} {depth : Nat}
    (read : (read? (String.ofList (d.toJson.textAt depth))).isSome) :
    d.toJson.depth ≤ Block.depthLimit := by
  obtain ⟨e, found⟩ := Option.isSome_iff_exists.1 read
  rw [read?, String.toList_ofList, Json.readWritten?_textAt, Option.bind_some, toJson, Json.written,
    Json.writtenMembers, Json.writtenMembers, ofWritten?, readBlocks?,
    Json.decodeBody?_escaped] at found
  obtain ⟨blocks, found, -⟩ := Option.bind_eq_some_iff.1 found
  rw [Option.bind_eq_bind, Option.bind_some, if_pos rfl, if_neg (by simp)] at found
  obtain ⟨bs, found, -⟩ := Option.bind_eq_some_iff.1 found
  have inner := Block.depth_le_of_readItems? d.blocks 125 (Option.isSome_iff_exists.2 ⟨bs, found⟩)
  rw [toJson, Json.depth, Json.depthOfMembers, Json.depthOfMembers, Json.depth, Block.depthLimit]
  omega

/-- A document is read back from the text that is written for it. -/
theorem read?_notationText {d : Document} (ordered : d.Ordered)
    (finite : ∀ x ∈ d.numbers, Number.isFinite x = true)
    (readsBack : ∀ x ∈ d.numbers, Number.isFinite x = true → Json.ReadsBack x)
    (shallow : d.toJson.depth ≤ Block.depthLimit) : read? d.notationText = some d :=
  read?_textAt ordered finite readsBack shallow 0

/-- Blocks with marks, controls and letters of four bytes in their names and texts, a slot with an
empty sequence, and a number with a sign. -/
def markedSample : Document :=
  ⟨[((((Block.ofKind "mark\"ed\\").withField "TEXT" (.text "é😀\n\x01")).withField "\t"
    (.number (-2.5))).withValue "" (some (Block.ofText "\x7f"))).withStatements "DO" [],
    Block.ofNumber 3.0]⟩

/-- The sample is read back. -/
theorem read?_notationText_markedSample : markedSample.Ordered ∧
    (∀ x ∈ markedSample.numbers, Number.isFinite x = true ∧ Json.ReadsBack x) ∧
    markedSample.toJson.depth ≤ Block.depthLimit ∧ read? markedSample.notationText = some markedSample := by
  have ordered : markedSample.Ordered := by
    intro b member
    refine ⟨?_, ?_, ?_⟩ <;> unfold Ascending <;> revert member <;> revert b <;> decide +kernel
  have numbers : ∀ x ∈ markedSample.numbers, Number.isFinite x = true ∧ Json.ReadsBack x := by
    unfold Json.ReadsBack
    decide +kernel
  have shallow : markedSample.toJson.depth ≤ Block.depthLimit := by decide +kernel
  exact ⟨ordered, numbers, shallow, read?_notationText ordered (fun x member => (numbers x member).1)
    (fun x member _ => (numbers x member).2) shallow⟩

end Document

end BlockEditor
