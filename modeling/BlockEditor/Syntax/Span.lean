import BlockEditor.Text.Bytes

/-!
# Spans

Half-open ranges of byte offsets into a source text.
-/

namespace BlockEditor

/-- The bytes from `start` up to but not including `stop`. -/
structure Span where
  start : Nat
  stop : Nat
  deriving DecidableEq, Repr, Inhabited

namespace Span

/-- The empty span at the start of a text, for what has no place in it. -/
def none : Span := ⟨0, 0⟩

/-- The empty span at an offset. -/
def point (at' : Nat) : Span := ⟨at', at'⟩

/-- The smallest span that covers both. -/
def join (a b : Span) : Span := ⟨min a.start b.start, max a.stop b.stop⟩

/-- Number of bytes in a span. -/
def length (a : Span) : Nat := a.stop - a.start

/-- Whether `a` lies within `b`. -/
def Within (a b : Span) : Prop := b.start ≤ a.start ∧ a.stop ≤ b.stop

instance (a b : Span) : Decidable (a.Within b) := inferInstanceAs (Decidable (_ ∧ _))

/-- Both parts lie within their join. -/
theorem within_join (a b : Span) : a.Within (a.join b) ∧ b.Within (a.join b) := by
  simp only [Within, join]
  omega

end Span

end BlockEditor
