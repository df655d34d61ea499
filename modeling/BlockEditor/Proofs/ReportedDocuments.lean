import BlockEditor.CommandLine.Report
import BlockEditor.Proofs.Loadable
import BlockEditor.Proofs.Retranslation
import BlockEditor.Proofs.StoredDocuments

/-!
# Documents in reports

A translation is reported as an object with the document and the omissions, and code is made for a
document that stands alone.  So a report as it was printed is no input for a request for code, but the
document in it is: it is read as the document of the translation, passes the check of the standard
kinds, and gives the code of that document.
-/

namespace BlockEditor

/-! ## Translated blocks as data -/

/-- Slots stay in the order of their names when one is filled. -/
theorem Ascending.putSlot {α : Type} {slots : List (String × α)} (h : Ascending slots)
    (name : String) (a : α) : Ascending (putSlot name a slots) := by
  induction slots with
  | nil => exact List.pairwise_singleton _ _
  | cons slot slots ih =>
    obtain ⟨key, old⟩ := slot
    obtain ⟨first, others⟩ := List.pairwise_cons.1 h
    rw [BlockEditor.putSlot]
    split
    case isTrue less =>
      refine List.pairwise_cons.2 ⟨List.forall_mem_cons.2 ⟨less, ?_⟩, h⟩
      exact fun other member => String.lt_trans less (first other member)
    case isFalse notLess =>
      split
      case isTrue same => exact List.pairwise_cons.2 ⟨same ▸ first, others⟩
      case isFalse differ =>
        refine List.pairwise_cons.2 ⟨fun other member => ?_, ih others⟩
        rcases mem_putSlot member with rfl | member
        · exact lt_of_le_of_ne (String.not_lt.1 notLess) differ
        · exact first other member

namespace Block

theorem ordered_ofKind (kind : String) : (ofKind kind).Ordered :=
  ⟨List.Pairwise.nil, List.Pairwise.nil, List.Pairwise.nil⟩

namespace Ordered

variable {b : Block}

/-- A block stays ordered with a field. -/
theorem withField (h : b.Ordered) (name : String) (v : FieldValue) :
    (b.withField name v).Ordered :=
  ⟨h.fields.putSlot name v, h.values, h.statements⟩

theorem withValue (h : b.Ordered) (name : String) (child : Option Block) :
    (b.withValue name child).Ordered := by
  cases child with
  | none => exact h
  | some c => exact ⟨h.fields, h.values.putSlot name c, h.statements⟩

theorem withStatements (h : b.Ordered) (name : String) (children : List Block) :
    (b.withStatements name children).Ordered :=
  ⟨h.fields, h.values, h.statements.putSlot name children⟩

end Ordered

/-- The contents of a block stand in the order of their names, and its numbers are finite. -/
structure Storable (b : Block) : Prop where
  ordered : b.Ordered
  finite : ∀ x ∈ b.fieldNumbers, Number.isFinite x = true

namespace Storable

variable {b : Block}

theorem ofKind (kind : String) : (ofKind kind).Storable := ⟨ordered_ofKind kind, nofun⟩

/-- A block can be stored with a field that holds no number but finite ones. -/
theorem withField (h : b.Storable) (name : String) {v : FieldValue}
    (finite : ∀ x, v = .number x → Number.isFinite x = true) : (b.withField name v).Storable := by
  refine ⟨h.ordered.withField name v, fun x member => ?_⟩
  obtain ⟨entry, member, number⟩ := List.mem_filterMap.1 member
  rcases mem_putSlot member with rfl | member
  · cases v with
    | number y => cases number; exact finite _ rfl
    | text content => cases number
  · exact h.finite x (List.mem_filterMap.2 ⟨entry, member, number⟩)

theorem withText (h : b.Storable) (name content : String) :
    (b.withField name (.text content)).Storable :=
  h.withField name fun _ same => nomatch same

theorem withNumber (h : b.Storable) (name : String) {x : Float}
    (finite : Number.isFinite x = true) : (b.withField name (.number x)).Storable :=
  h.withField name fun _ same => FieldValue.number.inj same ▸ finite

theorem withValue (h : b.Storable) (name : String) (child : Option Block) :
    (b.withValue name child).Storable := by
  cases child with
  | none => exact h
  | some c => exact ⟨h.ordered.withValue name (some c), h.finite⟩

theorem withStatements (h : b.Storable) (name : String) (children : List Block) :
    (b.withStatements name children).Storable :=
  ⟨h.ordered.withStatements name children, h.finite⟩

end Storable

/-- Literals and names can be stored. -/
theorem IsPlain.storable {b : Block} (h : b.IsPlain) : b.Storable := by
  cases h with
  | text text => exact (Storable.ofKind _).withText _ text
  | number finite => exact (Storable.ofKind _).withNumber _ finite

theorem IsTranslated.storable {b : Block} (h : b.IsTranslated) : b.Storable := by
  cases h with
  | print => exact (Storable.ofKind _).withValue _ _
  | assign => exact ((Storable.ofKind _).withText _ _).withValue _ _
  | branch => exact ((Storable.ofKind _).withValue _ _).withStatements _ _
  | @loop name n body =>
    have named := (Storable.ofKind BlockKind.loop).withText Slot.variableName name
    exact (named.withNumber _ (Number.isFinite_ofInt n)).withStatements _ _

/-- Every block in a translated block can be stored. -/
theorem IsTranslated.storable_nodes {b : Block} (h : b.IsTranslated) : ∀ d ∈ b.nodes, d.Storable := by
  -- each kind has one slot for a plain value and one for a body, and either may be absent
  have within : ∀ {b : Block} {value : Option Block} {slot : String} {body : List Block},
      b.Storable → (∀ c ∈ value, c.IsPlain) → (∀ c ∈ body, ∀ d ∈ c.nodes, d.Storable) →
      b.nodes = b :: (valueNodes (value.toList.map fun c => (slot, c)) ++ nodesOf body) →
      ∀ d ∈ b.nodes, d.Storable := by
    intro b value slot body here plain below nodes d member
    rw [nodes] at member
    rcases List.mem_cons.1 member with rfl | member
    · exact here
    · rcases List.mem_append.1 member with member | member
      · exact (isPlain_of_mem_valueNodes slot plain member).storable
      · obtain ⟨c, inBody, inner⟩ := mem_nodesOf.1 member
        exact below c inBody d inner
  induction h with
  | print plain => exact within (IsTranslated.print plain).storable plain (by simp) nodes_ofPrint
  | @assign name value isName plain =>
    exact within (IsTranslated.assign isName plain).storable plain (by simp) (nodes_ofAssign name)
  | @branch test body plain all ih =>
    exact within (IsTranslated.branch plain all).storable plain ih (nodes_ofBranch body)
  | @loop name n body isName nonneg all ih =>
    have absent : ∀ c ∈ (none : Option Block), c.IsPlain := nofun
    exact within (IsTranslated.loop isName nonneg all).storable absent ih (nodes_ofLoop name _ body)

end Block

/-! ## Documents of translations -/

theorem Source.storable_translate {s : Source} {t : Translation} (h : s.translate = .ok t) :
    ∀ b ∈ t.document.nodes, b.Storable := by
  intro b member
  obtain ⟨c, top, inner⟩ := Block.mem_nodesOf.1 member
  exact (Source.isTranslated_translate h c top).storable_nodes b inner

/-- The document of a translation is read back from its data, laid out at any depth. -/
theorem Source.read?_translate {s : Source} {t : Translation} (h : s.translate = .ok t)
    (readsBack : ∀ x ∈ t.document.numbers, Number.isFinite x = true → Json.ReadsBack x)
    (shallow : t.document.toJson.depth ≤ Block.depthLimit) (depth : Nat) :
    Document.read? (String.ofList (t.document.toJson.textAt depth)) = some t.document := by
  have storable := Source.storable_translate h
  refine Document.read?_textAt (fun b member => (storable b member).ordered) ?_ readsBack shallow depth
  intro x member
  obtain ⟨b, node, field⟩ := List.mem_flatMap.1 member
  exact (storable b node).finite x field

/-! ## Reports -/

/-- The document of a translation as it stands in the report. -/
def Translation.documentText (t : Translation) : String :=
  String.ofList (t.document.toJson.textAt 1)

/-- The omissions of a translation as they stand in the report. -/
def Translation.omissionsText (t : Translation) : String :=
  String.ofList ((Json.array (t.dropped.map Dropped.toJson)).textAt 1)

/-- The report of a translation. -/
theorem reportTranslation_json {s : Source} {t : Translation} (h : s.translate = .ok t) :
    reportTranslation s .json = .ok ⟨"\x7b\n  \"document\": " ++ t.documentText ++
      ",\n  \"dropped\": " ++ t.omissionsText ++ "\n\x7d\n", t.warnings s⟩ := by
  have text : t.toJson.pretty ++ "\n" = "\x7b\n  \"document\": " ++ t.documentText ++
      ",\n  \"dropped\": " ++ t.omissionsText ++ "\n\x7d\n" := by
    have document : Json.lineBreak 1 ++ Json.quote "document".toList = "\n  \"document\"".toList := rfl
    have dropped : Json.lineBreak 1 ++ Json.quote "dropped".toList = "\n  \"dropped\"".toList := rfl
    apply String.toList_injective
    rw [Json.pretty, Translation.toJson, Json.textAt, Json.membersAt, Json.membersAt, document, dropped]
    simp [Translation.documentText, Translation.omissionsText, Json.lineBreak]
    exact List.cons_ne_nil _ _
  rw [reportTranslation, h]
  exact congrArg (fun text => Except.ok (Printed.mk text (t.warnings s))) text

/-- Code is made for a document that is read and passes the check. -/
theorem reportCode_of_read? {name text : String} {d : Document}
    (read : Document.read? text = some d) (valid : Registry.standard.validate d = .ok ()) :
    reportCode ⟨name, text⟩ = .ok (.plain d.code) := by
  have found : Document.ofSource ⟨name, text⟩ = .ok d := by rw [Document.ofSource, read]
  rw [reportCode, Document.load, found]
  show ((Registry.standard.validate d).bind fun _ => Except.ok d).map _ = _
  rw [valid]
  rfl

/-- No code is made for a text that is not read as a document. -/
theorem reportCode_of_read?_eq_none {name text : String} (unread : Document.read? text = none) :
    reportCode ⟨name, text⟩ = .error ⟨⟨.invalidDocument, .none⟩, .session, name⟩ := by
  have missing : Document.ofSource ⟨name, text⟩ =
      .error ⟨⟨.invalidDocument, .none⟩, .session, name⟩ := by rw [Document.ofSource, unread]
  rw [reportCode, Document.load, missing]
  rfl

/-- A translation and the request for code fit together: the report of a translation holds the text of
its document, and for that text, unless it is nested deeper than documents are read, the answer is the
code of the document. -/
theorem Source.reportCode_documentText {s : Source} {t : Translation} (h : s.translate = .ok t)
    (readsBack : ∀ x ∈ t.document.numbers, Number.isFinite x = true → Json.ReadsBack x)
    (name : String) :
    reportTranslation s .json = .ok ⟨"\x7b\n  \"document\": " ++ t.documentText ++
      ",\n  \"dropped\": " ++ t.omissionsText ++ "\n\x7d\n", t.warnings s⟩ ∧
    reportCode ⟨name, t.documentText⟩ = if t.document.toJson.depth ≤ Block.depthLimit
      then .ok (.plain t.document.code)
      else .error ⟨⟨.invalidDocument, .none⟩, .session, name⟩ := by
  refine ⟨reportTranslation_json h, ?_⟩
  split
  case isTrue shallow =>
    exact reportCode_of_read? (Source.read?_translate h readsBack shallow 1)
      (Source.validate_translate h)
  case isFalse deep =>
    apply reportCode_of_read?_eq_none
    rw [← Option.not_isSome_iff_eq_none]
    exact fun read => deep (Document.depth_le_of_read?_textAt read)

/-- A number with a sign, a statement without a block, and a loop with a body. -/
def Source.mixedSample : Source :=
  ⟨"mixed.py", "x = -2.5\nimport os\nfor i in range(3):\n  print('a')\n"⟩

/-- The document of the sample is read back, and its code is made. -/
theorem Source.reportCode_documentText_mixedSample : ∃ t, mixedSample.translate = .ok t ∧
    (∀ x ∈ t.document.numbers, Number.isFinite x = true → Json.ReadsBack x) ∧
    reportCode ⟨"mixed.json", t.documentText⟩ = .ok (.plain t.document.code) := by
  have computed : mixedSample.translate.toOption.map (fun t =>
      (t.document.numbers, t.document.toJson.depth)) = some ([-2.5, 3.0], 9) := by decide +kernel
  have each : ∀ x ∈ [(-2.5 : Float), 3.0], Json.ReadsBack x := by decide +kernel
  cases translated : mixedSample.translate with
  | error d =>
    rw [translated] at computed
    cases computed
  | ok t =>
    rw [translated] at computed
    obtain ⟨numbers, depth⟩ := Prod.mk.inj (Option.some.inj computed)
    have readsBack : ∀ x ∈ t.document.numbers, Number.isFinite x = true → Json.ReadsBack x :=
      fun x member _ => each x (numbers ▸ member)
    have shallow : t.document.toJson.depth ≤ Block.depthLimit := by
      rw [depth]
      decide
    have answered := (reportCode_documentText translated readsBack "mixed.json").2
    rw [if_pos shallow] at answered
    exact ⟨t, rfl, readsBack, answered⟩

/-- No report is read as a document: its blocks stand one level down. -/
theorem Translation.read?_pretty (t : Translation) : Document.read? (t.toJson.pretty ++ "\n") = none := by
  have ends : Json.EndsNumber "\n".toList := Json.endsNumber_cons [] (by decide)
  have written : Json.readWritten? (t.toJson.pretty ++ "\n").toList = some (Json.written t.toJson) := by
    rw [String.toList_append, Json.pretty, String.toList_ofList]
    exact Json.readWritten?_textAt_append t.toJson 0 ends rfl
  rw [Document.read?, written, Option.bind_some, Translation.toJson, Json.written, Json.writtenMembers,
    Json.writtenMembers, Json.writtenMembers, Document.ofWritten?, Document.readBlocks?,
    Json.decodeBody?_escaped]
  simp [Document.readBlocks?, Json.decodeBody?_escaped]

/-- A report as it was printed is no input for a request for code. -/
theorem Source.reportCode_reportTranslation {s : Source} {p : Printed}
    (h : reportTranslation s .json = .ok p) (name : String) :
    reportCode ⟨name, p.output⟩ = .error ⟨⟨.invalidDocument, .none⟩, .session, name⟩ := by
  cases translated : s.translate with
  | error d =>
    rw [reportTranslation, translated] at h
    cases h
  | ok t =>
    rw [reportTranslation, translated] at h
    cases h
    exact reportCode_of_read?_eq_none t.read?_pretty

/-- The report of a translation is refused as a document. -/
theorem Source.reportCode_report_eq_error : ∃ p,
    reportTranslation ⟨"a.py", "print('a')\n"⟩ .json = .ok p ∧
      reportCode ⟨"a.json", p.output⟩ = .error ⟨⟨.invalidDocument, .none⟩, .session, "a.json"⟩ := by
  have translates : (reportTranslation ⟨"a.py", "print('a')\n"⟩ .json).toOption.isSome = true := by
    decide +kernel
  cases reported : reportTranslation ⟨"a.py", "print('a')\n"⟩ .json with
  | error d =>
    rw [reported] at translates
    cases translates
  | ok p => exact ⟨p, rfl, reportCode_reportTranslation reported "a.json"⟩

end BlockEditor
