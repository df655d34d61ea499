import BlockEditor.Proofs.DoubleOrder
import BlockEditor.Proofs.PlainValues

/-!
# Equality and order of values

Equality and order are two recursions over pairs of values.  Equality is symmetric, and reflexive on
values without NaN; the order is the same from both sides, and calls equal what is equal.
-/

namespace BlockEditor

namespace Range

/-- The equality of ranges is symmetric. -/
theorem sameItems_comm (r s : Range) : r.sameItems s = s.sameItems r := by
  unfold sameItems
  rw [Bool.eq_iff_iff]
  simp only [Bool.and_eq_true, Bool.or_eq_true, beq_iff_eq, decide_eq_true_eq]
  grind

/-- It is reflexive. -/
theorem sameItems_self (r : Range) : r.sameItems r = true := by
  simp [sameItems]

end Range

namespace Value

/-! ## Pairs of values -/

/-- The items of a list or a tuple; other values have none. -/
def inner : Value → List Value
  | list items => items
  | tuple items => items
  | _ => []

/-- Induction on the nesting of values. -/
@[elab_as_elim]
theorem induct_inner {P : Value → Prop} (step : ∀ v, (∀ w ∈ v.inner, P w) → P v) (v : Value) :
    P v :=
  step v fun w _ => induct_inner step w
termination_by sizeOf v
decreasing_by
  rename_i member
  cases v with
  | list items | tuple items =>
    have smaller := List.sizeOf_lt_of_mem (show w ∈ items from member)
    simp only [list.sizeOf_spec, tuple.sizeOf_spec]
    omega
  | _ => cases member

/-- How two values are compared: values of one kind by what they hold, and all others as numbers. -/
inductive Pairing : Value → Value → Prop
  | none : Pairing none none
  | str (s t : String) : Pairing (str s) (str t)
  | list (as bs : List Value) : Pairing (list as) (list bs)
  | tuple (as bs : List Value) : Pairing (tuple as) (tuple bs)
  | range (r s : Range) : Pairing (range r) (range s)
  | builtin (f g : Builtin) : Pairing (builtin f) (builtin g)
  | numbers {a b : Value} : a.same b = sameNumber a b → b.same a = sameNumber b a →
      a.compare? b = compareNumbers? a b → b.compare? a = compareNumbers? b a → Pairing a b

/-- Any two values are paired. -/
theorem pairing (a b : Value) : Pairing a b := by
  cases a <;> cases b <;> constructor <;> rfl

/-! ## Numbers -/

section Numbers

variable {a b : Value} {m n : Int64}

/-- Integers are ordered as integers. -/
theorem compareNumbers?_of_integers (left : a.asInt? = some m) (right : b.asInt? = some n) :
    compareNumbers? a b = some (compare m.toInt n.toInt) := by
  rw [compareNumbers?, left, right]

/-- They are equal as integers. -/
theorem sameNumber_of_integers (left : a.asInt? = some m) (right : b.asInt? = some n) :
    sameNumber a b = (m == n) := by
  rw [sameNumber, left, right]

/-- Numbers that are not both integers are ordered as doubles. -/
theorem compareNumbers?_of_double (double : a.asInt? = Option.none ∨ b.asInt? = Option.none) :
    compareNumbers? a b = a.asFloat?.bind fun x => b.asFloat?.bind (compareFloats? x) := by
  unfold compareNumbers?
  rcases double with other | other
  · rw [other]
    cases b.asInt? <;> cases a.asFloat? <;> cases b.asFloat? <;> rfl
  · rw [other]
    cases a.asInt? <;> cases a.asFloat? <;> cases b.asFloat? <;> rfl

/-- Numbers that are not both integers are compared as doubles. -/
theorem sameNumber_of_double (double : a.asInt? = Option.none ∨ b.asInt? = Option.none) :
    sameNumber a b = a.asFloat?.any fun x => b.asFloat?.any fun y => x == y := by
  unfold sameNumber
  rcases double with other | other
  · rw [other]
    cases b.asInt? <;> cases a.asFloat? <;> cases b.asFloat? <;> rfl
  · rw [other]
    cases a.asInt? <;> cases a.asFloat? <;> cases b.asFloat? <;> rfl

/-- Two values are both integers, or one of them is none. -/
theorem integers_or_double (a b : Value) :
    (∃ m n, a.asInt? = some m ∧ b.asInt? = some n) ∨
      (a.asInt? = Option.none ∨ b.asInt? = Option.none) := by
  cases a.asInt? with
  | none => exact .inr (.inl rfl)
  | some m =>
    cases b.asInt? with
    | none => exact .inr (.inr rfl)
    | some n => exact .inl ⟨m, n, rfl, rfl⟩

/-- Numbers are ordered the other way around from the other side. -/
theorem compareNumbers?_swap (a b : Value) :
    compareNumbers? b a = (compareNumbers? a b).map Ordering.swap := by
  rcases integers_or_double a b with ⟨m, n, left, right⟩ | double
  · rw [compareNumbers?_of_integers left right, compareNumbers?_of_integers right left,
      Option.map_some, Int.compare_swap]
  · rw [compareNumbers?_of_double double, compareNumbers?_of_double double.symm]
    cases a.asFloat? with
    | none => cases b.asFloat? <;> rfl
    | some x =>
      cases b.asFloat? with
      | none => rfl
      | some y =>
        change compareFloats? y x = (compareFloats? x y).map Ordering.swap
        rw [compareFloats?_eq, compareFloats?_eq, Number.compare_swap]

/-- Two numbers are equal if their order says so. -/
theorem sameNumber_eq (a b : Value) : sameNumber a b = (compareNumbers? a b == some .eq) := by
  rcases integers_or_double a b with ⟨m, n, left, right⟩ | double
  · rw [sameNumber_of_integers left right, compareNumbers?_of_integers left right,
      Bool.eq_iff_iff, beq_iff_eq, beq_iff_eq, Option.some.injEq, Int.compare_eq_eq,
      Int64.toInt_inj]
  · rw [sameNumber_of_double double, compareNumbers?_of_double double]
    cases a.asFloat? with
    | none => rfl
    | some x =>
      cases b.asFloat? with
      | none => rfl
      | some y =>
        change (x == y) = (compareFloats? x y == some .eq)
        rw [compareFloats?_eq]
        rfl

end Numbers

/-- The equality of numbers is symmetric. -/
theorem sameNumber_comm (a b : Value) : sameNumber a b = sameNumber b a := by
  rw [sameNumber_eq, sameNumber_eq, compareNumbers?_swap a b]
  cases compareNumbers? a b with
  | none => rfl
  | some order => cases order <;> rfl

/-! ## Equality -/

/-- Sequences of values that are equal from both sides are so. -/
theorem sameAll_comm {as : List Value} (each : ∀ a ∈ as, ∀ b, a.same b = b.same a)
    (bs : List Value) : sameAll as bs = sameAll bs as := by
  induction as generalizing bs with
  | nil => cases bs <;> rfl
  | cons a as ih =>
    obtain ⟨first, others⟩ := List.forall_mem_cons.1 each
    cases bs with
    | nil => rfl
    | cons b bs => rw [sameAll, sameAll, first b, ih others bs]

/-- Equality is symmetric. -/
theorem same_comm (a b : Value) : a.same b = b.same a := by
  induction a using induct_inner generalizing b with
  | step a ih =>
    cases pairing a b with
    | none => rfl
    | str s t => exact Bool.beq_comm
    | list as bs => exact sameAll_comm ih bs
    | tuple as bs => exact sameAll_comm ih bs
    | range r s => exact r.sameItems_comm s
    | builtin f g => exact Bool.beq_comm
    | numbers here there => rw [here, there, sameNumber_comm]

/-- A sequence equals itself if each of its items does. -/
theorem sameAll_self_iff (as : List Value) :
    sameAll as as = true ↔ ∀ a ∈ as, a.same a = true := by
  induction as with
  | nil => exact iff_of_true rfl nofun
  | cons a as ih => rw [sameAll, Bool.and_eq_true, ih, List.forall_mem_cons]

/-- A value that is no sequence and no double equals itself, and no NaN occurs in it. -/
theorem same_self_iff_of_scalar {v : Value} (equal : v.same v = true)
    (list : ∀ items, v ≠ .list items) (tuple : ∀ items, v ≠ .tuple items)
    (float : ∀ x, v ≠ .float x) :
    v.same v = true ↔ ∀ x, OccursIn (.float x) v → x.isNaN = false :=
  iff_of_true equal fun x inside => absurd (inside.eq_of_scalar list tuple).symm (float x)

/-- So it does unless NaN occurs in an item. -/
theorem sameAll_self_iff_of_forall (items : List Value)
    (each : ∀ w ∈ items, w.same w = true ↔ ∀ x, OccursIn (float x) w → x.isNaN = false) :
    sameAll items items = true ↔ ∀ x, (∃ w ∈ items, OccursIn (float x) w) → x.isNaN = false := by
  rw [sameAll_self_iff]
  constructor
  · rintro equal x ⟨w, member, inside⟩
    exact (each w member).1 (equal w member) x inside
  · intro free w member
    exact (each w member).2 fun x inside => free x ⟨w, member, inside⟩

/-- A value equals itself unless NaN occurs in it. -/
theorem same_self_iff (a : Value) :
    a.same a = true ↔ ∀ x, OccursIn (float x) a → x.isNaN = false := by
  induction a using induct_inner with
  | step a ih =>
    cases a with
    | float x =>
      change (x == x) = true ↔ _
      rw [Number.beq_self, Bool.not_eq_true']
      constructor
      · rintro number y inside
        cases inside
        exact number
      · exact fun free => free x .self
    | list items =>
      refine (sameAll_self_iff_of_forall items ih).trans ?_
      simp only [occursIn_list_iff, reduceCtorEq, false_or]
    | tuple items =>
      refine (sameAll_self_iff_of_forall items ih).trans ?_
      simp only [occursIn_tuple_iff, reduceCtorEq, false_or]
    | none => exact same_self_iff_of_scalar rfl nofun nofun nofun
    | bool b => exact same_self_iff_of_scalar (beq_self_eq_true _) nofun nofun nofun
    | int n => exact same_self_iff_of_scalar (beq_self_eq_true n) nofun nofun nofun
    | str s => exact same_self_iff_of_scalar (beq_self_eq_true s) nofun nofun nofun
    | range r => exact same_self_iff_of_scalar r.sameItems_self nofun nofun nofun
    | builtin f => exact same_self_iff_of_scalar (beq_self_eq_true f) nofun nofun nofun

/-! ## Order -/

/-- Sequences of values that are ordered alike from both sides are so. -/
theorem compareAll?_swap {as : List Value}
    (each : ∀ a ∈ as, ∀ b, b.compare? a = (a.compare? b).map Ordering.swap) (bs : List Value) :
    compareAll? bs as = (compareAll? as bs).map Ordering.swap := by
  induction as generalizing bs with
  | nil => cases bs <;> rfl
  | cons a as ih =>
    obtain ⟨first, others⟩ := List.forall_mem_cons.1 each
    cases bs with
    | nil => rfl
    | cons b bs =>
      rw [compareAll?, compareAll?, same_comm b a]
      split
      · exact ih others bs
      · exact first b

/-- The order of two values is the same from both sides. -/
theorem compare?_swap (a b : Value) : b.compare? a = (a.compare? b).map Ordering.swap := by
  induction a using induct_inner generalizing b with
  | step a ih =>
    cases pairing a b with
    | none | range | builtin => rfl
    | str s t => exact congrArg some Std.OrientedCmp.eq_swap
    | list as bs => exact compareAll?_swap ih bs
    | tuple as bs => exact compareAll?_swap ih bs
    | numbers _ _ here there => rw [here, there, compareNumbers?_swap]

/-- The order of two sequences calls equal what is equal, if that of their items does. -/
theorem compareAll?_eq_iff {as bs : List Value} {order : Ordering}
    (each : ∀ a ∈ as, ∀ b order, a.compare? b = some order → (order = .eq ↔ a.same b = true))
    (given : compareAll? as bs = some order) : order = .eq ↔ sameAll as bs = true := by
  induction as generalizing bs with
  | nil =>
    cases bs with
    | nil => exact iff_of_true (Option.some.inj given).symm rfl
    | cons b bs =>
      cases given
      exact iff_of_false nofun nofun
  | cons a as ih =>
    obtain ⟨first, others⟩ := List.forall_mem_cons.1 each
    cases bs with
    | nil =>
      cases given
      exact iff_of_false nofun nofun
    | cons b bs =>
      rw [compareAll?] at given
      rw [sameAll]
      split at given
      · rename_i equal
        rw [equal, Bool.true_and]
        exact ih others given
      · rename_i other
        -- the first items that differ decide
        rw [first b order given, Bool.and_eq_true]
        exact iff_of_false other fun both => other both.1

/-- The order of two values calls equal what is equal. -/
theorem compare?_eq_iff {a b : Value} {order : Ordering} (given : a.compare? b = some order) :
    order = .eq ↔ a.same b = true := by
  induction a using induct_inner generalizing b order with
  | step a ih =>
    have each : ∀ w ∈ a.inner, ∀ b order, w.compare? b = some order →
        (order = .eq ↔ w.same b = true) := fun w member b order => ih w member
    cases pairing a b with
    | none | range | builtin => cases given
    | str s t =>
      obtain rfl := Option.some.inj given
      change compare s t = .eq ↔ (s == t) = true
      rw [Std.LawfulEqCmp.compare_eq_iff_eq, beq_iff_eq]
    | list as bs => exact compareAll?_eq_iff each given
    | tuple as bs => exact compareAll?_eq_iff each given
    | numbers here _ there _ =>
      rw [here, sameNumber_eq, ← there, given, beq_iff_eq, Option.some.injEq]

/-! ## Consistency -/

/-- Equality and order agree on two values. -/
structure Consistent (a b : Value) : Prop where
  /-- They are equal from both sides or from none. -/
  symmetric : a.same b = b.same a
  /-- A value equals itself unless NaN occurs in it. -/
  reflexive : a.same a = true ↔ ∀ x, OccursIn (float x) a → x.isNaN = false
  /-- From the other side they are ordered the other way around, or not at all. -/
  reversed : b.compare? a = (a.compare? b).map Ordering.swap
  /-- If they are ordered, then as equal if and only if they are. -/
  agrees : ∀ order, a.compare? b = some order → (order = .eq ↔ a.same b = true)

/-- Equality and order are consistent on all values. -/
theorem consistent (a b : Value) : Consistent a b where
  symmetric := same_comm a b
  reflexive := same_self_iff a
  reversed := compare?_swap a b
  agrees _ given := compare?_eq_iff given

end Value

end BlockEditor
