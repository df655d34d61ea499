import BlockEditor.Diagnostic

/-!
# Traced computations

A computation that may print and may fail.  What it has printed before it fails stays printed.
-/

namespace BlockEditor

/-- What a computation printed, and how it ended. -/
structure Traced (α : Type) where
  printed : String
  result : Except Fault α

namespace Traced

/-- Ends with a value and prints nothing. -/
protected def pure {α : Type} (a : α) : Traced α := ⟨"", .ok a⟩

/-- Continues with the value of a computation; a failure ends both. -/
protected def bind {α β : Type} (t : Traced α) (f : α → Traced β) : Traced β :=
  match t.result with
  | .ok a => ⟨t.printed ++ (f a).printed, (f a).result⟩
  | .error fault => ⟨t.printed, .error fault⟩

instance : Monad Traced where
  pure := Traced.pure
  bind := Traced.bind

/-- Fails at a place. -/
def fail {α : Type} (cause : Cause) (span : Span) : Traced α := ⟨"", .error ⟨cause, span⟩⟩

/-- The result of an operation that does not print, with its failures put at a place. -/
def ofResult {α : Type} (span : Span) (r : Except Cause α) : Traced α :=
  ⟨"", r.mapError fun cause => ⟨cause, span⟩⟩

/-- Prints a text. -/
def print (text : String) : Traced Unit := ⟨text, .ok ()⟩

@[simp] theorem pure_bind {α β : Type} (a : α) (f : α → Traced β) :
    (Traced.pure a).bind f = f a := by
  simp [Traced.pure, Traced.bind]

/-- A computation that fails goes no further. -/
theorem bind_of_error {α β : Type} {t : Traced α} {fault : Fault} (h : t.result = .error fault)
    (f : α → Traced β) : t.bind f = ⟨t.printed, .error fault⟩ := by
  simp [Traced.bind, h]

/-- A computation that succeeds prints before its continuation. -/
theorem bind_of_ok {α β : Type} {t : Traced α} {a : α} (h : t.result = .ok a)
    (f : α → Traced β) : t.bind f = ⟨t.printed ++ (f a).printed, (f a).result⟩ := by
  simp [Traced.bind, h]

end Traced

end BlockEditor
