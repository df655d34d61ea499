import BlockEditor.Syntax.Span
import Mathlib.Data.List.Basic

/-!
# Ranges

Spans lie within spans, or stand one behind the other.  Items that carry spans are laid out between
two offsets if each of them begins where the one in front of it ends, or later.
-/

namespace BlockEditor

/-! ## Spans within spans -/

namespace Span

theorem within_refl (s : Span) : s.Within s := ⟨Nat.le_refl _, Nat.le_refl _⟩

/-- A span in a span of another one lies in that one. -/
theorem Within.trans {r s t : Span} (inner : r.Within s) (outer : s.Within t) : r.Within t :=
  ⟨Nat.le_trans outer.1 inner.1, Nat.le_trans inner.2 outer.2⟩

/-- What covers two spans covers their join. -/
theorem join_within {r s t : Span} (hr : r.Within t) (hs : s.Within t) : (r.join s).Within t :=
  ⟨Nat.le_min.2 ⟨hr.1, hs.1⟩, Nat.max_le.2 ⟨hr.2, hs.2⟩⟩

end Span

/-! ## Items in order -/

variable {α β : Type} {span : α → Span} {low mid high : Nat} {a : α} {items more : List α}

/-- Items stand one behind the other between two offsets. -/
inductive Laid (span : α → Span) : Nat → Nat → List α → Prop
  | nil {low high : Nat} : low ≤ high → Laid span low high []
  | cons {low high : Nat} {a : α} {items : List α} : low ≤ (span a).start →
      (span a).start ≤ (span a).stop → Laid span (span a).stop high items →
      Laid span low high (a :: items)

namespace Laid

/-- The offsets between which items stand are in order. -/
theorem le (h : Laid span low high items) : low ≤ high := by
  induction h with
  | nil le => exact le
  | cons start stop _ ih => exact Nat.le_trans start (Nat.le_trans stop ih)

/-- A single item is laid out if its span is in order and between the offsets. -/
theorem single (start : low ≤ (span a).start) (inner : (span a).start ≤ (span a).stop)
    (stop : (span a).stop ≤ high) : Laid span low high [a] := .cons start inner (.nil stop)

/-- Items between two offsets are between offsets further apart. -/
theorem mono {low' high' : Nat} (h : Laid span low high items) (lower : low' ≤ low)
    (higher : high ≤ high') : Laid span low' high' items := by
  induction h generalizing low' with
  | nil le => exact .nil (Nat.le_trans lower (Nat.le_trans le higher))
  | cons start stop _ ih => exact .cons (Nat.le_trans lower start) stop (ih (Nat.le_refl _) higher)

/-- Items side by side are laid out together. -/
theorem append (front : Laid span low mid items) (back : Laid span mid high more) :
    Laid span low high (items ++ more) := by
  induction front with
  | nil le => exact back.mono le (Nat.le_refl _)
  | cons start stop _ ih => exact .cons start stop (ih back)

/-- Items that were put together stand on either side of some offset. -/
theorem split (h : Laid span low high (items ++ more)) :
    ∃ mid, Laid span low mid items ∧ Laid span mid high more := by
  induction items generalizing low with
  | nil => exact ⟨low, .nil (Nat.le_refl _), h⟩
  | cons a items ih =>
    cases h with
    | cons start stop rest =>
      obtain ⟨mid, front, back⟩ := ih rest
      exact ⟨mid, .cons start stop front, back⟩

/-- Each item is between the offsets. -/
theorem within (h : Laid span low high items) : ∀ a ∈ items, (span a).Within ⟨low, high⟩ := by
  induction h with
  | nil => simp
  | cons start stop rest ih =>
    intro a member
    rcases List.mem_cons.1 member with rfl | member
    · exact ⟨start, rest.le⟩
    · exact ⟨Nat.le_trans start (Nat.le_trans stop (ih a member).1), (ih a member).2⟩

/-- No item begins before one in front of it ends. -/
theorem pairwise (h : Laid span low high items) :
    items.Pairwise fun a b => (span a).stop ≤ (span b).start := by
  induction h with
  | nil => exact .nil
  | cons _ _ rest ih => exact .cons (fun b member => (rest.within b member).1) ih

/-- Each item begins no earlier than the first one and ends no later than the last one. -/
theorem within_ends (h : Laid span low high (a :: items)) : ∀ b ∈ a :: items,
    (span b).Within ⟨(span a).start, (span (items.getLast?.getD a)).stop⟩ := by
  induction items generalizing a low with
  | nil =>
    intro b member
    rw [List.mem_singleton.1 member]
    exact (span a).within_refl
  | cons c items ih =>
    have last : (c :: items).getLast?.getD a = items.getLast?.getD c := by
      rw [List.getLast?_cons]
      rfl
    rw [last]
    cases h with
    | cons _ inner rest =>
      have final := (ih rest c List.mem_cons_self).2
      cases rest with
      | cons behind inner' rest =>
        intro b member
        rcases List.mem_cons.1 member with rfl | member
        · exact ⟨Nat.le_refl _, Nat.le_trans behind (Nat.le_trans inner' final)⟩
        · have between := ih (.cons behind inner' rest) b member
          exact ⟨Nat.le_trans inner (Nat.le_trans behind between.1), between.2⟩

/-- Items that take the places of others. -/
theorem forall₂ {spanOf : β → Span} {others : List β} (h : Laid span low high items)
    (same : List.Forall₂ (fun a b => spanOf b = span a) items others) :
    Laid spanOf low high others := by
  induction same generalizing low with
  | nil =>
    cases h with
    | nil le => exact .nil le
  | cons first _ ih =>
    cases h with
    | cons start stop rest =>
      rw [← first] at start stop rest
      exact .cons start stop (ih rest)

end Laid

end BlockEditor
