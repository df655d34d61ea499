import BlockEditor.Editor.Desk

/-!
# Surfaces of a session

Whatever is done at a desk, the text of the session is its code, and its blocks change only where
they are edited, or where they are made from the code.
-/

namespace BlockEditor

/-! ## Sessions -/

/-- The session shows its code as text. -/
def Session.Synchronised (s : Session) : Prop := s.buffer.text = s.code.toList

namespace Session

variable {s : Session}

/-- A session that shows its code shows it as text. -/
theorem synchronised_showCode (s : Session) : s.showCode.Synchronised := by
  rw [showCode]
  split
  · assumption
  · exact rfl

/-- A new session does. -/
theorem synchronised_start (workspace : Workspace) (buffer : TextBuffer) (config : SessionConfig) :
    (start workspace buffer config).Synchronised := synchronised_showCode _

theorem synchronised_setCode (s : Session) (code : String) : (s.setCode code).Synchronised :=
  synchronised_showCode _

/-- Making blocks from the code fails and leaves everything as it is, or replaces the document by
the translation of the code and leaves everything else as it is. -/
theorem parseToBlocks_cases (s : Session) : (∃ fault, s.parseToBlocks = (s, .error fault)) ∨
    ∃ t, s.source.translate = .ok t ∧ s.parseToBlocks =
      ({ s with workspace := s.workspace.change fun _ => t.document }, .ok t) := by
  rw [parseToBlocks]
  cases s.source.translate with
  | error fault => exact .inl ⟨fault, rfl⟩
  | ok t =>
    cases t with
    | blank => exact .inr ⟨_, rfl, rfl⟩
    | blocks document dropped =>
      dsimp only
      cases load : s.workspace.load document with
      | error fault => exact .inl ⟨fault, rfl⟩
      | ok w =>
        obtain ⟨-, rfl⟩ := (s.workspace.load_eq_ok_iff w document).1 load
        exact .inr ⟨_, rfl, rfl⟩

/-- A run is refused while one is under way and leaves everything as it is, or it gets the code and
only makes the session busy. -/
theorem startRun_cases (s : Session) :
    (s.running = true ∧ ∃ fault, s.startRun = (s, .error fault)) ∨
      s.running = false ∧
        s.startRun = ({ s with running := true }, .ok ⟨s.source, s.interval⟩) := by
  rw [startRun]
  cases s.running with
  | true => exact .inl ⟨rfl, _, rfl⟩
  | false => exact .inr ⟨rfl, rfl⟩

end Session

/-! ## Desks -/

namespace Desk

variable {d : Desk}

/-- A session is changed by a run only in that it is not busy any more. -/
theorem session_changeRun (d : Desk) (n : Nat) (change : StartedRun → StartedRun) :
    (d.changeRun n change).session = d.session ∨
      (d.changeRun n change).session = d.session.endRun := by
  rw [changeRun]
  split
  · exact .inl rfl
  · split
    · exact .inr rfl
    · exact .inl rfl

/-- Each operation leaves the text with the code. -/
theorem synchronised_perform (h : d.session.Synchronised) (op : Operation) :
    (d.perform op).session.Synchronised := by
  have ofChange (n : Nat) (change : StartedRun → StartedRun) :
      (d.changeRun n change).session.Synchronised := by
    rcases d.session_changeRun n change with same | ended
    · rw [same]
      exact h
    · rw [ended]
      exact h
  cases op with
  | editText | editBlocks | textChanged | blocksChanged => exact Session.synchronised_setCode _ _
  | parse =>
    show d.session.parseToBlocks.1.Synchronised
    rcases d.session.parseToBlocks_cases with ⟨fault, failed⟩ | ⟨t, -, made⟩
    · rw [failed]
      exact h
    · rw [made]
      exact h
  | withInterval => exact h
  | start =>
    rw [perform]
    rcases d.session.startRun_cases with ⟨-, fault, refused⟩ | ⟨-, started⟩
    · rw [refused]
      exact h
    · rw [started]
      exact h
  | poll n | cancel n | drop n => exact ofChange n _

/-- The text of a session that shows its code is the code after any operations. -/
theorem synchronised_run (h : d.session.Synchronised) (ops : List Operation) :
    (d.run ops).session.Synchronised := by
  induction ops generalizing d with
  | nil => exact h
  | cons op ops ih => exact ih (synchronised_perform h op)

/-- Operations other than edits of the blocks and successful translations leave the blocks as they
are. -/
theorem workspace_perform (d : Desk) (op : Operation) :
    (d.perform op).session.workspace = d.session.workspace ∨
      (∃ edit, op = .editBlocks edit) ∨ op = .parse ∧ ∃ t, d.session.parseToBlocks.2 = .ok t := by
  have ofChange (n : Nat) (change : StartedRun → StartedRun) :
      (d.changeRun n change).session.workspace = d.session.workspace := by
    rcases d.session_changeRun n change with same | ended
    · rw [same]
    · rw [ended]
      rfl
  cases op with
  | editBlocks edit => exact .inr (.inl ⟨edit, rfl⟩)
  | editText | textChanged | blocksChanged => exact .inl (Session.workspace_setCode _ _)
  | parse =>
    rcases d.session.parseToBlocks_cases with ⟨fault, failed⟩ | ⟨t, -, made⟩
    · left
      show d.session.parseToBlocks.1.workspace = _
      rw [failed]
    · exact .inr (.inr ⟨rfl, t, by rw [made]⟩)
  | withInterval => exact .inl rfl
  | start =>
    left
    rw [perform]
    rcases d.session.startRun_cases with ⟨-, fault, refused⟩ | ⟨-, started⟩
    · rw [refused]
      rfl
    · rw [started]
  | poll n | cancel n | drop n => exact .inl (ofChange n _)

/-- What an operation has to do with the surfaces of a session. -/
structure KeepsSurfaces (d : Desk) (op : Operation) : Prop where
  /-- Before and behind the operation, the text is the code. -/
  shown : d.session.Synchronised ∧ (d.perform op).session.Synchronised
  /-- The document and its revision change only by an edit of the blocks or a successful
  translation. -/
  unedited : (d.perform op).session.workspace.document ≠ d.session.workspace.document ∨
      (d.perform op).session.workspace.revision ≠ d.session.workspace.revision →
    (∃ edit, op = .editBlocks edit) ∨ op = .parse ∧ ∃ t, d.session.parseToBlocks.2 = .ok t
  /-- A successful translation makes its document of the blocks, the empty one if the code is
  blank. -/
  translated : op = .parse → ∀ t, d.session.parseToBlocks.2 = .ok t →
    d.session.source.translate = .ok t ∧
      (d.perform op).session.workspace.document = t.document ∧
      (Text.isBlankText d.session.code.toList →
        (d.perform op).session.workspace.document = .empty)
  /-- A translation changes neither the code nor the text with its cursor and its revision. -/
  untouched : op = .parse → (d.perform op).session.code = d.session.code ∧
    (d.perform op).session.buffer = d.session.buffer
  /-- A failed translation changes nothing. -/
  refused : op = .parse → ∀ fault, d.session.parseToBlocks.2 = .error fault → d.perform op = d

/-- Every operation in the history of a new session keeps its surfaces. -/
theorem keepsSurfaces_run (workspace : Workspace) (buffer : TextBuffer) (config : SessionConfig)
    (history : List Operation) (op : Operation) :
    ((Desk.new workspace buffer config).run history).KeepsSurfaces op := by
  have before : ((Desk.new workspace buffer config).run history).session.Synchronised :=
    synchronised_run (Session.synchronised_start workspace buffer config) history
  -- Of the history only this matters: the session shows its code.
  generalize (Desk.new workspace buffer config).run history = d at before
  refine ⟨⟨before, synchronised_perform before op⟩, fun changed => ?_, ?_, ?_, ?_⟩
  · rcases d.workspace_perform op with same | edited
    · rw [same] at changed
      simp at changed
    · exact edited
  · rintro rfl t ok
    rw [perform, withSession]
    rcases d.session.parseToBlocks_cases with ⟨fault, failed⟩ | ⟨t', translated, made⟩
    · rw [failed] at ok
      cases ok
    · rw [made] at ok ⊢
      cases ok
      refine ⟨translated, rfl, fun blank => ?_⟩
      rw [Source.translate, Session.source, if_pos blank] at translated
      cases translated
      rfl
  · rintro rfl
    rw [perform, withSession]
    rcases d.session.parseToBlocks_cases with ⟨fault, failed⟩ | ⟨t, -, made⟩
    · rw [failed]
      exact ⟨rfl, rfl⟩
    · rw [made]
      exact ⟨rfl, rfl⟩
  · rintro rfl fault error
    rw [perform, withSession]
    rcases d.session.parseToBlocks_cases with ⟨fault, failed⟩ | ⟨t, -, made⟩
    · rw [failed]
    · rw [made] at error
      cases error

end Desk

end BlockEditor
