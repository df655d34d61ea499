import BlockEditor.Block.Code
import BlockEditor.Block.Schema

/-!
# Workspaces

A document under edit, with the registry that documents are checked against when they are loaded.
-/

namespace BlockEditor

/-- A document under edit.  The revision counts the changes of the document. -/
structure Workspace where
  registry : Registry
  document : Document
  revision : Nat

namespace Workspace

/-- An empty workspace over a registry. -/
def new (registry : Registry) : Workspace := ⟨registry, .empty, 0⟩

/-- An empty workspace over the standard kinds. -/
def standard : Workspace := new .standard

/-- Replaces the document by one that passes the check. -/
def load (w : Workspace) (d : Document) : Except Diagnostic Workspace :=
  (w.registry.validate d).map fun _ => { w with document := d, revision := w.revision + 1 }

/-- Removes all blocks. -/
def clear (w : Workspace) : Workspace := { w with document := .empty, revision := w.revision + 1 }

/-- Changes the document by hand, without a check. -/
def change (w : Workspace) (f : Document → Document) : Workspace :=
  { w with document := f w.document, revision := w.revision + 1 }

/-- The program of the document. -/
def code (w : Workspace) : String := w.document.code

/-- A document that fails the check is not loaded, and one that passes is. -/
theorem load_eq_ok_iff (w w' : Workspace) (d : Document) :
    w.load d = .ok w' ↔ w.registry.validate d = .ok () ∧
      w' = { w with document := d, revision := w.revision + 1 } := by
  unfold load
  cases w.registry.validate d with
  | ok => simp [Except.map, eq_comm]
  | error => simp [Except.map]

end Workspace

end BlockEditor
