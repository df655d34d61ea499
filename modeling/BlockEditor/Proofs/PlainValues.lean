import BlockEditor.Number.DecimalText
import BlockEditor.Proofs.AlikeRuns
import BlockEditor.Proofs.Numerals
import BlockEditor.Syntax.Moved

/-!
# Plain values

The values that have literals: `None`, truth values, integers, strings, and lists and tuples of
these.  Evaluating the literal of a value gives the value back, except that the smallest integer
comes back as the double equal to it.
-/

namespace BlockEditor

namespace Value

/-! ## Values with literals -/

/-- A value is made of `None`, truth values, integers and strings by lists and tuples that are
nested at most `depth` deep. -/
inductive Plain : Nat → Value → Prop
  | none {depth : Nat} : Plain depth none
  | bool {depth : Nat} (b : Bool) : Plain depth (bool b)
  | int {depth : Nat} (n : Int64) : Plain depth (int n)
  | str {depth : Nat} (text : String) : Plain depth (str text)
  | list {depth : Nat} {items : List Value} : (∀ v ∈ items, Plain depth v) →
      Plain (depth + 1) (list items)
  | tuple {depth : Nat} {items : List Value} : (∀ v ∈ items, Plain depth v) →
      Plain (depth + 1) (tuple items)

/-- A value occurs in another one: it is the other one, or it occurs in one of its items. -/
inductive OccursIn (w : Value) : Value → Prop
  | self : OccursIn w w
  | list {v : Value} {items : List Value} : v ∈ items → OccursIn w v → OccursIn w (list items)
  | tuple {v : Value} {items : List Value} : v ∈ items → OccursIn w v → OccursIn w (tuple items)

/-- In a list occur the list itself and what occurs in its items. -/
theorem occursIn_list_iff {w : Value} {items : List Value} :
    OccursIn w (list items) ↔ w = list items ∨ ∃ v ∈ items, OccursIn w v := by
  constructor
  · intro h
    cases h with
    | self => exact .inl rfl
    | list member inside => exact .inr ⟨_, member, inside⟩
  · rintro (rfl | ⟨v, member, inside⟩)
    · exact .self
    · exact .list member inside

/-- In a tuple occur the tuple itself and what occurs in its items. -/
theorem occursIn_tuple_iff {w : Value} {items : List Value} :
    OccursIn w (tuple items) ↔ w = tuple items ∨ ∃ v ∈ items, OccursIn w v := by
  constructor
  · intro h
    cases h with
    | self => exact .inl rfl
    | tuple member inside => exact .inr ⟨_, member, inside⟩
  · rintro (rfl | ⟨v, member, inside⟩)
    · exact .self
    · exact .tuple member inside

/-- In a value without items only the value itself occurs. -/
theorem OccursIn.eq_of_scalar {w v : Value} (h : OccursIn w v) (list : ∀ items, v ≠ .list items)
    (tuple : ∀ items, v ≠ .tuple items) : w = v := by
  cases h with
  | self => rfl
  | list => exact absurd rfl (list _)
  | tuple => exact absurd rfl (tuple _)

mutual

/-- The value that is read back from the text of a value.  The digits of the smallest integer do not
fit into a word, so they are read as a double. -/
def readBack : Value → Value
  | int n =>
    if n = Int64.minValue then float (-(Number.Decimal.toFloat ⟨n.toInt.natAbs, 0⟩)) else int n
  | list items => list (readBackAll items)
  | tuple items => tuple (readBackAll items)
  | v => v

/-- The values that are read back from the texts of items. -/
def readBackAll : List Value → List Value
  | [] => []
  | v :: vs => v.readBack :: readBackAll vs

end

@[simp] theorem readBackAll_eq (vs : List Value) : readBackAll vs = vs.map readBack := by
  induction vs with
  | nil => rfl
  | cons v vs ih => rw [readBackAll, ih, List.map_cons]

/-- Without the smallest integer in it, a value is read back as it is. -/
theorem readBack_eq_self {depth : Nat} {v : Value} (plain : v.Plain depth)
    (free : ¬ OccursIn (int Int64.minValue) v) : v.readBack = v := by
  induction plain with
  | none | bool | str => rfl
  | int n =>
    rw [readBack, if_neg]
    rintro rfl
    exact free .self
  | @list _ items _ ih =>
    have each : items.map readBack = items.map id :=
      List.map_congr_left fun v member => ih v member fun inside => free (.list member inside)
    rw [readBack, readBackAll_eq, each, List.map_id]
  | @tuple _ items _ ih =>
    have each : items.map readBack = items.map id :=
      List.map_congr_left fun v member => ih v member fun inside => free (.tuple member inside)
    rw [readBack, readBackAll_eq, each, List.map_id]

/-- Items that are equal to what is read back of them stay so as a list. -/
theorem sameAll_readBack {items : List Value} (each : ∀ v ∈ items, v.readBack.same v = true) :
    sameAll (items.map readBack) items = true := by
  induction items with
  | nil => rfl
  | cons v items ih =>
    obtain ⟨first, others⟩ := List.forall_mem_cons.1 each
    rw [List.map_cons, sameAll, first, ih others]
    rfl

/-- A plain value is equal to what is read back. -/
theorem same_readBack {depth : Nat} {v : Value} (plain : v.Plain depth) :
    v.readBack.same v = true := by
  induction plain with
  | none => rfl
  | bool b => cases b <;> rfl
  | int n =>
    rw [readBack]
    split
    -- The smallest integer is read back as a negated double.
    · rename_i smallest
      subst smallest
      decide +kernel
    · simp [same, sameNumber, asInt?]
  | str text => simp [readBack, same]
  | list _ ih =>
    rw [readBack, readBackAll_eq, same]
    exact sameAll_readBack ih
  | tuple _ ih =>
    rw [readBack, readBackAll_eq, same]
    exact sameAll_readBack ih

/-! ## Texts -/

/-- A comma stands behind the only item of a tuple. -/
theorem repr_tuple_single (v : Value) : repr (tuple [v]) = '(' :: (v.repr ++ [',']) ++ [')'] := by
  rw [repr, List.cons_append, List.cons_append, List.append_assoc]
  rfl

/-- Several items of a tuple are written as those of a list. -/
theorem repr_tuple_several (v w : Value) (items : List Value) :
    repr (tuple (v :: w :: items)) = '(' :: reprItems (v :: w :: items) ++ [')'] := by
  rw [repr]
  simp

/-- An integer that is not negative is written by its digits. -/
theorem repr_int_of_nonneg {n : Int64} (nonneg : 0 ≤ n.toInt) :
    repr (int n) = Number.digitsText n.toInt.toNat := by
  obtain ⟨k, e⟩ := Int.eq_ofNat_of_zero_le nonneg
  rw [repr, e]
  show k.repr.toList = Nat.toDigits 10 k
  rw [Nat.repr, String.toList_ofList]

/-- A negative integer is written as a minus and digits. -/
theorem repr_int_of_neg {n : Int64} (negative : n.toInt < 0) :
    repr (int n) = '-' :: Number.digitsText n.toInt.natAbs := by
  obtain ⟨k, e⟩ := Int.eq_negSucc_of_lt_zero negative
  rw [repr, e]
  show ("-" ++ (k + 1).repr).toList = '-' :: Nat.toDigits 10 (k + 1)
  rw [String.toList_append, Nat.repr, String.toList_ofList, String.toList_ofList]
  rfl

/-- The digits of an integer that is not negative denote it. -/
theorem value_naturalConstant {n : Int64} (nonneg : 0 ≤ n.toInt) :
    (naturalConstant n.toInt.toNat).value = .ok (int n).readBack := by
  have fits : Number.toInt64? n.toInt.toNat = some n :=
    (Number.toInt64?_eq_some_iff _ _).2 (Int.toNat_of_nonneg nonneg).symm
  have other : n ≠ Int64.minValue := by
    rintro rfl
    revert nonneg
    decide
  rw [naturalConstant, fits, readBack, if_neg other]
  rfl

/-- The digits behind the minus of a negative integer denote a number whose negative is read
back. -/
theorem negated_naturalConstant {n : Int64} (negative : n.toInt < 0) :
    ∃ v, (naturalConstant n.toInt.natAbs).value = .ok v ∧
      v.unaryOperation .neg = .ok (int n).readBack := by
  by_cases smallest : n = Int64.minValue
  · subst smallest
    exact ⟨float (Number.Decimal.toFloat ⟨Int64.minValue.toInt.natAbs, 0⟩), rfl, rfl⟩
  · have above : -2 ^ 63 ≤ n.toInt := n.le_toInt
    have other : n.toInt ≠ -2 ^ 63 := by
      rw [← Int64.toInt_minValue]
      exact fun same => smallest (Int64.toInt_inj.1 same)
    have word : (Int64.ofInt n.toInt.natAbs).toInt = n.toInt.natAbs :=
      Int64.toInt_ofInt_of_le (by omega) (by omega)
    have fits : Number.toInt64? n.toInt.natAbs = some (Int64.ofInt n.toInt.natAbs) :=
      (Number.toInt64?_eq_some_iff _ _).2 word
    have whole : Number.toInt64? n.toInt = some n := (Number.toInt64?_eq_some_iff _ _).2 rfl
    refine ⟨int (Int64.ofInt n.toInt.natAbs), by rw [naturalConstant, fits]; rfl, ?_⟩
    show ofInt (-(Int64.ofInt n.toInt.natAbs).toInt) = _
    rw [word, show -(n.toInt.natAbs : Int) = n.toInt by omega, ofInt, whole, readBack,
      if_neg smallest]

end Value

/-! ## Literals -/

mutual

/-- An expression is a literal of a value: a constant, the negative of a literal, or a list or tuple
of literals. -/
inductive Expr.Denotes : Expr → Value → Prop
  | constant {s : Span} {c : Constant} {v : Value} : c.value = .ok v → Denotes (.constant s c) v
  | negated {s : Span} {e : Expr} {v w : Value} : Denotes e v → v.unaryOperation .neg = .ok w →
      Denotes (.unary s .neg e) w
  | list {s : Span} {items : List Expr} {vs : List Value} : AllDenote items vs →
      Denotes (.list s items) (.list vs)
  | tuple {s : Span} {items : List Expr} {vs : List Value} : AllDenote items vs →
      Denotes (.tuple s items) (.tuple vs)

/-- Expressions are literals of values, one by one. -/
inductive Expr.AllDenote : List Expr → List Value → Prop
  | nil : AllDenote [] []
  | cons {e : Expr} {v : Value} {es : List Expr} {vs : List Value} : Denotes e v →
      AllDenote es vs → AllDenote (e :: es) (v :: vs)

end

namespace Expr

mutual

/-- A literal is evaluated to its value. -/
theorem Denotes.hasValue {e : Expr} {v : Value} (h : e.Denotes v) : e.HasValue v := by
  cases h with
  | constant value =>
    intro g
    rw [eval, value]
    rfl
  | negated operand value => exact operand.hasValue.unary value _
  | list items =>
    intro g
    rw [eval]
    show (evalItems g _).bind (fun values => .pure (Value.list values)) = _
    rw [items.evalItems_eq, Traced.pure_bind]
  | tuple items =>
    intro g
    rw [eval]
    show (evalItems g _).bind (fun values => .pure (Value.tuple values)) = _
    rw [items.evalItems_eq, Traced.pure_bind]

/-- Literals one by one are evaluated to their values. -/
theorem AllDenote.evalItems_eq {es : List Expr} {vs : List Value} (h : AllDenote es vs)
    (g : Globals) : evalItems g es = .pure vs := by
  cases h with
  | nil =>
    rw [evalItems]
    rfl
  | @cons e v es vs first others =>
    have whole : evalItems g (e :: es) = (eval g e).bind fun v =>
        (evalItems g es).bind fun back => .pure (v :: back) := by
      cases first <;>
        · rw [evalItems]
          · rfl
          · nofun
    rw [whole, first.hasValue g, Traced.pure_bind, others.evalItems_eq g, Traced.pure_bind]

end

mutual

/-- A literal stays one at another place. -/
theorem Denotes.of_move {f : Nat → Nat} {e : Expr} {v : Value} (h : (e.move f).Denotes v) :
    e.Denotes v := by
  cases e <;> simp only [move, moveAll_eq] at h <;> cases h
  case constant value => exact .constant value
  case unary operand value => exact .negated operand.of_move value
  case list items => exact .list items.of_move
  case tuple items => exact .tuple items.of_move

/-- Literals one by one stay so at other places. -/
theorem AllDenote.of_move {f : Nat → Nat} {es : List Expr} {vs : List Value}
    (h : AllDenote (es.map (move f)) vs) : AllDenote es vs := by
  cases es with
  | nil =>
    cases h
    exact .nil
  | cons e es =>
    rw [List.map_cons] at h
    cases h with
    | cons first others => exact .cons first.of_move others.of_move

end

end Expr

end BlockEditor
