import BlockEditor.Proofs.Surfaces
import BlockEditor.Proofs.Validation

/-!
# Refused loads

A document that the registry refuses does not replace the blocks.  Loading it is an edit of the
blocks all the same, so that their program becomes the code: what was typed since the blocks were
last made into code is gone, and nothing else is.
-/

namespace BlockEditor

/-- A document is refused for a block of an unknown kind in front. -/
theorem Registry.validate_of_unknown {r : Registry} {b : Block} (unknown : r.get? b.kind = none)
    (bs : List Block) : r.validate ⟨b :: bs⟩ =
      .error ⟨⟨.unknownBlockType b.kind, .none⟩, .session, Source.placeholder⟩ := by
  cases b with
  | mk kind fields values statements =>
    change r.get? kind = none at unknown
    rw [validate, checkAll, checkBlock, unknown]
    rfl

/-- A document that fails the check is refused with the fault of the check. -/
theorem Workspace.load_of_refused {w : Workspace} {d : Document} {fault : Diagnostic}
    (refused : w.registry.validate d = .error fault) : w.load d = .error fault := by
  rw [load, refused]
  rfl

namespace Session

variable {s : Session} {d : Document} {fault : Diagnostic}

/-! ## Changed blocks -/

/-- Blocks that count as edited leave a session as it is if the code is their program. -/
theorem blocksChanged_of_code (shown : s.Synchronised) (current : s.code = s.workspace.code) :
    s.blocksChanged = s := by
  rw [blocksChanged, ← current]
  exact if_pos shown

/-- Otherwise their program takes the place of the code and of the text, with the cursor in front. -/
theorem blocksChanged_of_ne (shown : s.Synchronised) (stale : s.code ≠ s.workspace.code) :
    s.blocksChanged = { s with
      code := s.workspace.code, buffer := s.buffer.setText s.workspace.code.toList } := by
  refine if_neg fun (same : s.buffer.text = s.workspace.code.toList) => stale ?_
  exact String.toList_injective (shown.symm.trans same)

/-! ## Refused loads -/

/-- A refused load is an edit that leaves the blocks as they are. -/
theorem loadDocument_of_refused (refused : s.workspace.registry.validate d = .error fault) :
    s.loadDocument d = (s.blocksChanged, .error fault) := by
  rw [loadDocument, Workspace.load_of_refused refused]
  rfl

/-- A document that is refused leaves everything as it is. -/
def LosesNothing (s : Session) (d : Document) : Prop :=
  ∀ fault, s.workspace.registry.validate d = .error fault → s.loadDocument d = (s, .error fault)

/-- What becomes of a session when a document is refused. -/
structure OnlyRegenerates (s : Session) (d : Document) (fault : Diagnostic) : Prop where
  /-- The fault of the check is reported. -/
  reported : (s.loadDocument d).2 = .error fault
  /-- The blocks and their revision stay. -/
  blocks : (s.loadDocument d).1.workspace = s.workspace
  /-- The code and the text are the program of the blocks. -/
  regenerated : (s.loadDocument d).1.code = s.workspace.code ∧
    (s.loadDocument d).1.buffer.text = s.workspace.code.toList
  /-- The session stays as a whole exactly if that was the code before. -/
  unchanged : (s.loadDocument d).1 = s ↔ s.code = s.workspace.code
  /-- If it was not, the text is overwritten once and the cursor stands in front of it. -/
  overwritten : s.code ≠ s.workspace.code → (s.loadDocument d).1.buffer.cursor = 0 ∧
    (s.loadDocument d).1.buffer.revision = s.buffer.revision + 1

/-- Where code and blocks agree with what is shown, a refused load only makes the code anew. -/
theorem onlyRegenerates_of_synchronised (shown : s.Synchronised)
    (refused : s.workspace.registry.validate d = .error fault) : s.OnlyRegenerates d fault := by
  have load := loadDocument_of_refused refused
  by_cases current : s.code = s.workspace.code
  · rw [blocksChanged_of_code shown current] at load
    refine ⟨by rw [load], by rw [load], ?_, by simp [load, current], absurd current⟩
    rw [load]
    exact ⟨current, shown.trans (congrArg String.toList current)⟩
  · rw [blocksChanged_of_ne shown current] at load
    refine ⟨by rw [load], by rw [load], by simp [load, TextBuffer.setText], ?_, fun _ => ?_⟩
    · rw [load]
      exact ⟨fun same => (congrArg Session.code same).symm, fun same => absurd same current⟩
    · rw [load]
      exact ⟨rfl, rfl⟩

/-- A block of a kind that no standard registry knows. -/
def stray : Block := .ofKind "nope"

/-- The stray block is refused for its kind. -/
theorem validate_stray : Registry.standard.validate ⟨[stray]⟩ =
    .error ⟨⟨.unknownBlockType "nope", .none⟩, .session, Source.placeholder⟩ := by
  refine Registry.validate_of_unknown ?_ []
  cases found : Registry.standard.get? stray.kind with
  | none => rfl
  | some schema =>
    have known := Registry.standard_get? found
    revert known
    simp [stray, Block.ofKind, Block.kind, BlockKind.print, BlockKind.assign, BlockKind.branch,
      BlockKind.loop, BlockKind.number, BlockKind.text]

/-- A new session shows its first program next to no blocks, and loses it. -/
theorem not_losesNothing_start :
    ¬ (start .standard .empty .standard).LosesNothing ⟨[stray]⟩ := by
  intro keeps
  have load := keeps _ validate_stray
  rw [loadDocument_of_refused validate_stray] at load
  have code : Workspace.standard.code = SessionConfig.standard.initialCode :=
    congrArg (fun x => Session.code x.1) load
  revert code
  decide +kernel

end Session

/-- In every state of a session, a document that its registry refuses is reported and leaves the
blocks alone, and the code is then their program. -/
theorem Desk.onlyRegenerates_run (workspace : Workspace) (buffer : TextBuffer)
    (config : SessionConfig) (history : List Operation) (d : Document) (fault : Diagnostic)
    (refused : ((Desk.new workspace buffer config).run history).session.workspace.registry.validate d
      = .error fault) :
    ((Desk.new workspace buffer config).run history).session.OnlyRegenerates d fault := by
  refine Session.onlyRegenerates_of_synchronised ?_ refused
  exact synchronised_run (Session.synchronised_start workspace buffer config) history

namespace Desk

/-- A block, and a note that was typed above its program. -/
def noted : List Operation :=
  [.editBlocks (·.change fun _ => ⟨[.ofKind BlockKind.print]⟩),
    .editText (·.insert "# note\n".toList)]

/-- A stray block in front of a noted program: the note goes, and the block stays. -/
theorem onlyRegenerates_run_noted :
    ((Desk.new .standard .empty .standard).run noted).session.code = "# note\nprint(None)\n" ∧
    ((Desk.new .standard .empty .standard).run noted).session.OnlyRegenerates ⟨[Session.stray]⟩
      ⟨⟨.unknownBlockType "nope", .none⟩, .session, Source.placeholder⟩ :=
  ⟨by decide +kernel, onlyRegenerates_run .standard .empty .standard noted _ _ Session.validate_stray⟩

end Desk

end BlockEditor
