import Mathlib.Data.List.Forall2

/-!
# Verdicts on computations that can fail

A computation meets a verdict if whatever it gives has one property and whatever it fails with has
another.  Verdicts are passed along the steps of a computation.
-/

namespace BlockEditor

/-- What a computation gives has a property, and its failures have another. -/
def Meets {ε α : Type} (Q : ε → Prop) (P : α → Prop) : Except ε α → Prop
  | .ok a => P a
  | .error e => Q e

@[simp]
theorem meets_error_iff {ε α : Type} {Q : ε → Prop} {P : α → Prop} {e : ε} :
    Meets Q P (.error e) ↔ Q e := Iff.rfl

/-- What is said of an item by its partner. -/
theorem forall_of_forall₂ {α β : Type} {T : α → β → Prop} {P : β → Prop} {as : List α} {bs : List β}
    (h : List.Forall₂ T as bs) (each : ∀ a b, T a b → P b) : ∀ b ∈ bs, P b := by
  induction h with
  | nil => exact List.forall_mem_nil _
  | cons first _ ih => exact List.forall_mem_cons.2 ⟨each _ _ first, ih⟩

namespace Meets

variable {ε α β : Type} {Q : ε → Prop} {P : α → Prop} {R : β → Prop} {r : Except ε α}

/-- A result has the property that the verdict gives it. -/
theorem of_ok (h : Meets Q P r) {a : α} (given : r = .ok a) : P a := by
  rw [given] at h
  exact h

theorem of_error (h : Meets Q P r) {e : ε} (failed : r = .error e) : Q e := by
  rw [failed] at h
  exact h

/-- A verdict on results that covers more of them. -/
theorem mono (h : Meets Q P r) {P' : α → Prop} (weaker : ∀ a, P a → P' a) : Meets Q P' r := by
  cases r with
  | ok a => exact weaker a h
  | error e => exact h

/-- A verdict on failures that covers more of them. -/
theorem mono_error (h : Meets Q P r) {Q' : ε → Prop} (weaker : ∀ e, Q e → Q' e) : Meets Q' P r := by
  cases r with
  | ok a => exact h
  | error e => exact weaker e h

/-- Failures that are reported in another form. -/
theorem mapError {ε' : Type} {f : ε → ε'} {Q' : ε' → Prop} (h : Meets Q P r)
    (reported : ∀ e, Q e → Q' (f e)) : Meets Q' P (r.mapError f) := by
  cases r with
  | ok a => exact h
  | error e => exact reported e h

/-- A verdict on computations in sequence. -/
theorem bind (h : Meets Q P r) {f : α → Except ε β} (next : ∀ a, P a → Meets Q R (f a)) :
    Meets Q R (r >>= f) := by
  cases r with
  | ok a => exact next a h
  | error e => exact h

/-- A verdict on what is made of a result. -/
theorem map (h : Meets Q P r) {f : α → β} (next : ∀ a, P a → R (f a)) : Meets Q R (r.map f) := by
  cases r with
  | ok a => exact next a h
  | error e => exact h

/-- The results of computations in a row, one for each item. -/
theorem mapM {T : α → β → Prop} {f : α → Except ε β} {items : List α}
    (each : ∀ a ∈ items, Meets Q (T a) (f a)) : Meets Q (List.Forall₂ T items) (items.mapM f) := by
  induction items with
  | nil => exact List.Forall₂.nil
  | cons a items ih =>
    rw [List.mapM_cons]
    refine (each a List.mem_cons_self).bind fun b first => ?_
    refine (ih fun c member => each c (List.mem_cons_of_mem a member)).bind fun bs others => ?_
    exact List.Forall₂.cons first others

/-- The results of computations in a row, each for itself. -/
theorem mapM_all {f : α → Except ε β} {items : List α}
    (each : ∀ a ∈ items, Meets Q R (f a)) : Meets Q (fun bs => ∀ b ∈ bs, R b) (items.mapM f) :=
  (mapM (T := fun _ b => R b) each).mono fun _ results => forall_of_forall₂ results fun _ _ h => h

end Meets

end BlockEditor
