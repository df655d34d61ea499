import BlockEditor.Editor.Workbench
import BlockEditor.Proofs.RunPlaces
import BlockEditor.Proofs.Translated

/-!
# Loadable translations

Every document that a program is translated into passes the check of the standard kinds.  So a
session over them makes blocks from its code whenever the code parses.
-/

namespace BlockEditor

/-! ## Checks that succeed -/

/-- After a slot was filled, its entry is the new one, and all others were there before. -/
theorem mem_putSlot {α : Type} {name : String} {a : α} {slots : List (String × α)}
    {entry : String × α} (member : entry ∈ putSlot name a slots) :
    entry = (name, a) ∨ entry ∈ slots := by
  induction slots with
  | nil => exact .inl (List.mem_singleton.1 member)
  | cons slot slots ih =>
    rw [putSlot] at member
    split at member
    · exact List.mem_cons.1 member
    · split at member
      · exact (List.mem_cons.1 member).imp_right (List.mem_cons_of_mem _)
      · rcases List.mem_cons.1 member with rfl | member
        · exact .inr List.mem_cons_self
        · exact (ih member).imp_right (List.mem_cons_of_mem _)

namespace Schema

variable {s : Schema} {name : String}

/-- A field with a rule for texts holds any text. -/
theorem checkField_text {start : String} (rule : s.rule? name = some (.text start))
    (content : String) : s.checkField name (.text content) = .ok () := by
  unfold checkField
  rw [rule]

end Schema

namespace Registry

variable {r : Registry} {s : Schema}

/-- What was registered last under an id is found. -/
theorem get?_of_find {schemas : List Schema} {id : String}
    (found : schemas.reverse.find? (fun s => s.id = id) = some s) :
    (schemas.foldl register empty).get? id = some s := by
  rw [get?_foldl_register consistent_empty, found]
  rfl

end Registry

/-! ## Allowed blocks -/

namespace Block

variable {r : Registry} {s : Schema} {b : Block} {name : String}

/-- A block of a known kind with nothing in it is allowed. -/
theorem allowed_ofKind {kind : String} (known : r.get? kind = some s) :
    (ofKind kind).Allowed r s :=
  ⟨known, List.forall_mem_nil _, List.forall_mem_nil _, List.forall_mem_nil _⟩

namespace Allowed

/-- A block stays allowed with a field that its kind has a rule for. -/
theorem withField (h : b.Allowed r s) {v : FieldValue} (allowed : s.checkField name v = .ok ()) :
    (b.withField name v).Allowed r s := by
  refine ⟨h.known, fun field member => ?_, h.values, h.statements⟩
  rcases mem_putSlot member with rfl | member
  · exact allowed
  · exact h.fields field member

/-- A block stays allowed with a checked value in a slot of its kind. -/
theorem withValue (h : b.Allowed r s) (slot : s.valueSlots.contains name = true)
    {child : Option Block} (allowed : ∀ c ∈ child, r.checkBlock (some .output) c = .ok ()) :
    (b.withValue name child).Allowed r s := by
  cases child with
  | none => exact h
  | some c =>
    refine ⟨h.known, h.fields, fun filled member => ?_, h.statements⟩
    rcases mem_putSlot member with rfl | member
    · exact ⟨slot, allowed c rfl⟩
    · exact h.values filled member

/-- A block stays allowed with checked statements in a slot of its kind. -/
theorem withStatements (h : b.Allowed r s) (slot : s.statementSlots.contains name = true)
    {children : List Block} (allowed : ∀ c ∈ children, r.checkBlock (some .statement) c = .ok ()) :
    (b.withStatements name children).Allowed r s := by
  refine ⟨h.known, h.fields, h.values, fun filled member => ?_⟩
  rcases mem_putSlot member with rfl | member
  · exact ⟨slot, allowed⟩
  · exact h.statements filled member

/-- An allowed block passes the check where its shape is asked for, and at the top. -/
theorem check (h : b.Allowed r s) {expected : Option Shape} (shape : ∀ e ∈ expected, s.shape = e) :
    r.checkBlock expected b = .ok () := Registry.checkBlock_eq_ok_iff.2 ⟨s, h, shape⟩

end Allowed

/-! ## Translated blocks -/

/-- Literals and names may stand as values. -/
theorem IsPlain.check (h : b.IsPlain) :
    Registry.standard.checkBlock (some .output) b = .ok () := by
  cases h with
  | text text =>
    obtain ⟨s, known, rule, shape⟩ : ∃ s, Registry.standard.get? BlockKind.text = some s ∧
        s.rule? Slot.text = some (.text "") ∧ s.shape = .output :=
      ⟨_, Registry.get?_of_find rfl, rfl, rfl⟩
    have allowed := (allowed_ofKind known).withField (Schema.checkField_text rule text)
    exact allowed.check (by simpa using shape)
  | @number x finite =>
    obtain ⟨s, known, rule, shape⟩ : ∃ s, Registry.standard.get? BlockKind.number = some s ∧
        s.rule? Slot.number = some (.number 0.0 none false) ∧ s.shape = .output :=
      ⟨_, Registry.get?_of_find rfl, rfl, rfl⟩
    have fits := (Schema.checkField_number_iff rule).2 ⟨finite, nofun, nofun⟩
    exact ((allowed_ofKind known).withField fits).check (by simpa using shape)

/-- Translated blocks may stand as statements and at the top. -/
theorem IsTranslated.check (h : b.IsTranslated) {expected : Option Shape}
    (position : ∀ e ∈ expected, e = .statement) :
    Registry.standard.checkBlock expected b = .ok () := by
  induction h generalizing expected with
  | @print arg plain =>
    obtain ⟨s, known, slot, shape⟩ : ∃ s, Registry.standard.get? BlockKind.print = some s ∧
        s.valueSlots.contains Slot.text = true ∧ s.shape = .statement :=
      ⟨_, Registry.get?_of_find rfl, rfl, rfl⟩
    have allowed := (allowed_ofKind known).withValue slot fun c filled => (plain c filled).check
    exact allowed.check fun e asked => shape.trans (position e asked).symm
  | @assign name value _ plain =>
    obtain ⟨s, known, rule, slot, shape⟩ : ∃ s, Registry.standard.get? BlockKind.assign = some s ∧
        s.rule? Slot.variableName = some (.text "x") ∧ s.valueSlots.contains Slot.value = true ∧
        s.shape = .statement :=
      ⟨_, Registry.get?_of_find rfl, rfl, rfl, rfl⟩
    have named := (allowed_ofKind known).withField (Schema.checkField_text rule name)
    have allowed := named.withValue slot fun c filled => (plain c filled).check
    exact allowed.check fun e asked => shape.trans (position e asked).symm
  | @branch test body plain _ ih =>
    obtain ⟨s, known, slot, inner, shape⟩ : ∃ s, Registry.standard.get? BlockKind.branch = some s ∧
        s.valueSlots.contains Slot.condition = true ∧ s.statementSlots.contains Slot.body = true ∧
        s.shape = .statement :=
      ⟨_, Registry.get?_of_find rfl, rfl, rfl, rfl⟩
    have asks := (allowed_ofKind known).withValue slot fun c filled => (plain c filled).check
    have allowed := asks.withStatements inner fun c member => ih c member (by simp)
    exact allowed.check fun e asked => shape.trans (position e asked).symm
  | @loop name n body _ nonneg _ ih =>
    obtain ⟨s, known, rule, bound, inner, shape⟩ : ∃ s,
        Registry.standard.get? BlockKind.loop = some s ∧
        s.rule? Slot.variableName = some (.text "i") ∧
        s.rule? Slot.count = some (.number 5.0 (some 0.0) true) ∧
        s.statementSlots.contains Slot.body = true ∧ s.shape = .statement :=
      ⟨_, Registry.get?_of_find rfl, rfl, rfl, rfl, rfl⟩
    -- the bound is a word that is not negative, so its double passes every rule for counts
    obtain ⟨whole, least⟩ := Number.isWhole_ofInt nonneg
    have fits : s.checkField Slot.count (.number (Float.ofInt n.toInt)) = .ok () := by
      refine (Schema.checkField_number_iff bound).2 ⟨Number.isFinite_ofInt n, fun _ => whole, ?_⟩
      rintro _ ⟨⟩
      exact least
    have named := (allowed_ofKind known).withField (Schema.checkField_text rule name)
    have allowed := (named.withField fits).withStatements inner fun c member => ih c member (by simp)
    exact allowed.check fun e asked => shape.trans (position e asked).symm

end Block

/-! ## Translations of sources -/

/-- What a source is translated into passes the check of the standard kinds. -/
theorem Source.validate_translate {s : Source} {t : Translation} (h : s.translate = .ok t) :
    Registry.standard.validate t.document = .ok () :=
  Registry.validate_eq_ok_iff.2 fun b member =>
    (Source.isTranslated_translate h b member).check (by simp)

/-- A source that is not translated is not parsed. -/
theorem Source.parse_of_translate_error {s : Source} {d : Diagnostic}
    (h : s.translate = .error d) : s.parse = .error d := by
  unfold translate at h
  split at h
  · cases h
  · cases parsed : s.parse with
    | ok m =>
      rw [parsed] at h
      cases h
    | error fault =>
      rw [parsed] at h
      cases h
      rfl

/-! ## Sessions -/

/-- A session makes blocks from its code: a failure is one of parsing, and then nothing changes;
and whatever the code is translated into is loaded. -/
structure Session.LoadsCode (s : Session) : Prop where
  refused : ∀ d, s.parseToBlocks.2 = .error d →
    d.fault.cause.category = .parse ∧ s.source.parse = .error d ∧ s.parseToBlocks.1 = s
  loaded : ∀ t, s.source.translate = .ok t →
    s.parseToBlocks.2 = .ok t ∧ s.parseToBlocks.1.workspace.document = t.document

namespace Session

variable {s : Session}

/-- What is translated is loaded over the standard kinds. -/
theorem parseToBlocks_of_ok (standard : s.workspace.registry = .standard) {t : Translation}
    (translated : s.source.translate = .ok t) : s.parseToBlocks =
      ({ s with workspace := s.workspace.change fun _ => t.document }, .ok t) := by
  have valid := Source.validate_translate translated
  unfold parseToBlocks
  rw [translated]
  cases t with
  | blank => rfl
  | blocks document dropped =>
    have loaded : s.workspace.load document = .ok (s.workspace.change fun _ => document) :=
      (s.workspace.load_eq_ok_iff _ document).2 ⟨standard ▸ valid, rfl⟩
    dsimp only
    rw [loaded]
    rfl

/-- Code that cannot be translated leaves a session as it was. -/
theorem parseToBlocks_of_error {d : Diagnostic} (failed : s.source.translate = .error d) :
    s.parseToBlocks = (s, .error d) := by
  unfold parseToBlocks
  rw [failed]

/-- Every session over the standard kinds makes blocks from its code. -/
theorem loadsCode_of_standard (standard : s.workspace.registry = .standard) : s.LoadsCode := by
  constructor
  · intro d failed
    cases translated : s.source.translate with
    | ok t =>
      rw [parseToBlocks_of_ok standard translated] at failed
      cases failed
    | error fault =>
      rw [parseToBlocks_of_error translated] at failed ⊢
      cases failed
      have parsed := Source.parse_of_translate_error translated
      exact ⟨(s.source.meets_parse.of_error parsed).1, parsed, rfl⟩
  · intro t translated
    rw [parseToBlocks_of_ok standard translated]
    exact ⟨rfl, rfl⟩

/-! ### Registries of sessions -/

theorem workspace_blocksChanged (s : Session) : s.blocksChanged.workspace = s.workspace :=
  workspace_setCode s s.workspace.code

theorem workspace_textChanged (s : Session) : s.textChanged.workspace = s.workspace :=
  workspace_setCode s (String.ofList s.buffer.text)

/-- Editing the text keeps the registry. -/
theorem registry_editText (edit : TextBuffer → TextBuffer) :
    (s.editText edit).workspace.registry = s.workspace.registry :=
  congrArg Workspace.registry (workspace_textChanged _)

/-- Editing the blocks keeps it, if the edit itself does. -/
theorem registry_editBlocks (edit : Workspace → Workspace)
    (keeps : (edit s.workspace).registry = s.workspace.registry) :
    (s.editBlocks edit).workspace.registry = s.workspace.registry :=
  (congrArg Workspace.registry (workspace_blocksChanged _)).trans keeps

/-- Loading a document keeps it. -/
theorem registry_of_load {w w' : Workspace} {d : Document} (loaded : w.load d = .ok w') :
    w'.registry = w.registry := by
  obtain ⟨-, rfl⟩ := (w.load_eq_ok_iff w' d).1 loaded
  rfl

/-- So does a session that loads one, whether it succeeds or not. -/
theorem registry_loadDocument (d : Document) :
    (s.loadDocument d).1.workspace.registry = s.workspace.registry := by
  unfold loadDocument
  split
  · rename_i w loaded
    exact registry_editBlocks (fun _ => w) (registry_of_load loaded)
  · exact registry_editBlocks id rfl

theorem registry_parseToBlocks :
    s.parseToBlocks.1.workspace.registry = s.workspace.registry := by
  unfold parseToBlocks
  split
  · rfl
  · rfl
  · split
    · rename_i loaded
      exact registry_of_load loaded
    · rfl

/-- Starting a run keeps the workspace. -/
theorem workspace_startRun (s : Session) : s.startRun.1.workspace = s.workspace := by
  unfold startRun
  split <;> rfl

end Session

namespace Workbench

/-- No command changes the registry that documents are checked against. -/
theorem registry_step (w : Workbench) (c : Command) :
    (w.step c).1.session.workspace.registry = w.session.workspace.registry := by
  cases c with
  | insert | backspace | moveCursor | setText => exact Session.registry_editText _
  | load d => exact Session.registry_loadDocument d
  | push b => exact Session.registry_editBlocks (·.change fun d => ⟨d.blocks ++ [b]⟩) rfl
  | remove i => exact Session.registry_editBlocks (·.change fun d => ⟨d.blocks.eraseIdx i⟩) rfl
  | clear => exact Session.registry_editBlocks Workspace.clear rfl
  | blocksChanged =>
    show w.session.blocksChanged.workspace.registry = _
    rw [Session.workspace_blocksChanged]
  | textChanged =>
    show w.session.textChanged.workspace.registry = _
    rw [Session.workspace_textChanged]
  | parse => exact Session.registry_parseToBlocks
  | start =>
    have kept := w.session.workspace_startRun
    rw [step]
    split
    · rename_i started
      rw [started] at kept
      exact congrArg Workspace.registry kept
    · rename_i refused
      rw [refused] at kept
      exact congrArg Workspace.registry kept
  | execute =>
    rw [step]
    split <;> rfl
  | cancel =>
    rw [step]
    split <;> rfl
  | drop =>
    rw [step]
    split <;> rfl

/-- No commands change it. -/
theorem registry_run (w : Workbench) (commands : List Command) :
    (w.run commands).session.workspace.registry = w.session.workspace.registry := by
  induction commands generalizing w with
  | nil => rfl
  | cons c commands ih => exact (ih (w.step c).1).trans (w.registry_step c)

end Workbench

/-- Whatever is translated passes the check of the standard kinds.  So at a workbench over them
blocks are made of any code that parses, after whatever commands. -/
theorem Source.loadable_translations :
    (∀ (s : Source) (t : Translation), s.translate = .ok t →
      Registry.standard.validate t.document = .ok ()) ∧
    ∀ w : Workbench, w.session.workspace.registry = .standard → ∀ commands : List Command,
      (w.run commands).session.LoadsCode := by
  refine ⟨fun s t translated => validate_translate translated, fun w standard commands => ?_⟩
  exact Session.loadsCode_of_standard ((w.registry_run commands).trans standard)

namespace Workbench

/-- A workbench over the standard kinds whose code does not parse, with a run under way. -/
def mistaken : Workbench :=
  (ofSession (Session.start .standard .empty .standard)).run
    [.start, .setText "for i in range(2:\n", .parse]

/-- What follows there up to code that parses. -/
def correction : List Command :=
  [.cancel, .setText "for i in range(2):\n  print(-1.5)\n"]

end Workbench

/-- A workbench whose code did not parse at first makes a block from it once it is corrected. -/
theorem Source.loadable_translations_afterMistake :
    (∃ d, Workbench.mistaken.session.parseToBlocks.2 = .error d ∧
      d.fault.cause.category = .parse) ∧
    ∃ t, (Workbench.mistaken.run Workbench.correction).session.source.translate = .ok t ∧
      t.document.blocks.length = 1 ∧ Registry.standard.validate t.document = .ok () ∧
      (Workbench.mistaken.run Workbench.correction).session.parseToBlocks.2 = .ok t := by
  have standard : Workbench.mistaken.session.workspace.registry = .standard := by
    refine (Workbench.registry_run _ _).trans ?_
    exact congrArg Workspace.registry (Session.workspace_start .standard .empty .standard)
  have fails : (match Workbench.mistaken.session.parseToBlocks.2 with
      | .ok _ => false
      | .error _ => true) = true := by
    decide +kernel
  have gives : (match (Workbench.mistaken.run Workbench.correction).session.source.translate with
      | .ok t => decide (t.document.blocks.length = 1)
      | .error _ => false) = true := by
    decide +kernel
  constructor
  · cases e : Workbench.mistaken.session.parseToBlocks.2 with
    | ok t =>
      rw [e] at fails
      cases fails
    | error d =>
      exact ⟨d, rfl, ((loadable_translations.2 Workbench.mistaken standard []).refused d e).1⟩
  · cases e : (Workbench.mistaken.run Workbench.correction).session.source.translate with
    | error d =>
      rw [e] at gives
      cases gives
    | ok t =>
      rw [e] at gives
      have loads := loadable_translations.2 Workbench.mistaken standard Workbench.correction
      exact ⟨t, rfl, of_decide_eq_true gives, loadable_translations.1 _ t e, (loads.loaded t e).1⟩

end BlockEditor
