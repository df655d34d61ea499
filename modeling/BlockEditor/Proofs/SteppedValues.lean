import BlockEditor.Machine.Evaluate
import BlockEditor.Proofs.Slices

/-!
# Values whose ranges have a step

The one thing that the checked operations of the machine ask of a program is that no range has step
zero.  Ranges are made with other steps only, and every operation on values passes on the ranges of
its operands as they are.
-/

namespace BlockEditor

/-! ## Ranges in values -/

namespace Value

mutual

/-- The ranges in a value, at any depth. -/
def ranges : Value → List Range
  | range r => [r]
  | list items => rangesIn items
  | tuple items => rangesIn items
  | _ => []

/-- The ranges in neighbouring values. -/
def rangesIn : List Value → List Range
  | [] => []
  | v :: vs => ranges v ++ rangesIn vs

end

/-- No range in a value has step zero. -/
def Stepped (v : Value) : Prop := ∀ r ∈ v.ranges, r.step ≠ 0

/-- No range in one of several values has step zero. -/
def AllStepped (vs : List Value) : Prop := ∀ v ∈ vs, v.Stepped

/-- The ranges in neighbouring values have steps if those in each of them do. -/
theorem stepped_rangesIn_iff (vs : List Value) :
    (∀ r ∈ rangesIn vs, r.step ≠ 0) ↔ AllStepped vs := by
  induction vs with
  | nil => exact ⟨fun _ => List.forall_mem_nil _, fun _ => List.forall_mem_nil _⟩
  | cons v vs ih =>
    rw [rangesIn, List.forall_mem_append, ih]
    exact (List.forall_mem_cons (p := Stepped)).symm

/-- The ranges in a list are those in its items. -/
theorem stepped_list_iff (items : List Value) : (list items).Stepped ↔ AllStepped items :=
  stepped_rangesIn_iff items

theorem stepped_tuple_iff (items : List Value) : (tuple items).Stepped ↔ AllStepped items :=
  stepped_rangesIn_iff items

/-- The only range in a range is itself. -/
theorem stepped_range_iff (r : Range) : (range r).Stepped ↔ r.step ≠ 0 :=
  List.forall_mem_singleton

theorem stepped_none : none.Stepped := nofun

theorem stepped_bool (b : Bool) : (bool b).Stepped := nofun

theorem stepped_int (n : Int64) : (int n).Stepped := nofun

theorem stepped_float (x : Float) : (float x).Stepped := nofun

theorem stepped_str (text : String) : (str text).Stepped := nofun

theorem stepped_builtin (function : Builtin) : (builtin function).Stepped := nofun

/-- Values side by side have only ranges with steps if those on both sides do. -/
theorem AllStepped.append {vs ws : List Value} (h : AllStepped vs) (h' : AllStepped ws) :
    AllStepped (vs ++ ws) := List.forall_mem_append.2 ⟨h, h'⟩

theorem AllStepped.cons {v : Value} {vs : List Value} (h : v.Stepped) (h' : AllStepped vs) :
    AllStepped (v :: vs) := List.forall_mem_cons.2 ⟨h, h'⟩

theorem AllStepped.nil : AllStepped [] := List.forall_mem_nil _

/-! ## Operators -/

/-- An integer, or an overflow, has no range in it. -/
theorem sound_ofInt (n : Int) : Sound Stepped (ofInt n) := by
  unfold ofInt
  split
  · exact stepped_int _
  · simp

theorem sound_floatOperation (op : BinOp) (x y : Float) : Sound Stepped (floatOperation op x y) := by
  have divided (fault : ZeroFault) (z : Float) (v : Float) :
      Sound Stepped (if z == 0.0 then .error (.zeroDivision fault) else .ok (.float v)) := by
    split
    · simp
    · exact stepped_float _
  cases op with
  | add | sub | mul => exact stepped_float _
  | div | floorDiv | mod => exact divided _ _ _
  | pow =>
    unfold floatOperation
    dsimp only
    split
    · simp
    · exact stepped_float _

theorem sound_intPower (base : Int64) (exponent : Nat) :
    Sound Stepped (intPower base exponent) := by
  unfold intPower
  split
  · simp
  · split
    · exact sound_ofInt _
    · split
      · simp
      · exact sound_ofInt _

/-- Integers are only divided by what is not zero. -/
theorem sound_intOperation (op : BinOp) (m n : Int64) : Sound Stepped (intOperation op m n) := by
  have whole {v : Value} (h : ∃ w, v = int w) : v.Stepped := by
    obtain ⟨w, rfl⟩ := h
    exact stepped_int w
  cases op with
  | add | sub | mul => exact sound_ofInt _
  | div =>
    unfold intOperation
    exact sound_floatOperation _ _ _
  | floorDiv =>
    unfold intOperation
    dsimp only
    split
    · simp
    · rename_i divides
      exact (sound_floorQuotient divides).mono fun _ => whole
  | mod =>
    unfold intOperation
    dsimp only
    split
    · simp
    · rename_i divides
      exact (sound_floorRemainder divides).mono fun _ => whole
  | pow =>
    unfold intOperation
    dsimp only
    split
    · exact sound_floatOperation _ _ _
    · exact sound_intPower _ _

/-- Repeating items adds none. -/
theorem allStepped_copies {items : List Value} (h : AllStepped items) (n : Nat) :
    AllStepped (copies n items) := by
  unfold copies
  split
  · exact AllStepped.nil
  · intro v member
    obtain ⟨part, part_mem, inside⟩ := List.mem_flatten.1 member
    rw [List.eq_of_mem_replicate part_mem] at inside
    exact h v inside

/-- A repeated sequence has the ranges of its items. -/
theorem stepped_repeated? {v : Value} (h : v.Stepped) (times : Int64) :
    ∀ w ∈ v.repeated? times, w.Stepped := by
  intro w e
  cases v with
  | str text =>
    cases e
    exact stepped_str _
  | list items =>
    cases e
    exact (stepped_list_iff _).2 (allStepped_copies ((stepped_list_iff _).1 h) _)
  | tuple items =>
    cases e
    exact (stepped_tuple_iff _).2 (allStepped_copies ((stepped_tuple_iff _).1 h) _)
  | _ => cases e

theorem stepped_sequenceOperation? (op : BinOp) {a b : Value} (ha : a.Stepped) (hb : b.Stepped) :
    ∀ v ∈ sequenceOperation? op a b, v.Stepped := by
  intro v e
  unfold sequenceOperation? at e
  split at e
  · cases e
    exact stepped_str _
  · cases e
    rw [stepped_list_iff] at ha hb ⊢
    exact ha.append hb
  · cases e
    rw [stepped_tuple_iff] at ha hb ⊢
    exact ha.append hb
  · rcases Option.or_eq_some_iff.1 e with left | ⟨-, right⟩
    · obtain ⟨times, -, e⟩ := Option.bind_eq_some_iff.1 left
      exact stepped_repeated? ha times v e
    · obtain ⟨times, -, e⟩ := Option.bind_eq_some_iff.1 right
      exact stepped_repeated? hb times v e
  · cases e

/-- Operations pass on the ranges of their operands. -/
theorem sound_operation (op : BinOp) {a b : Value} (ha : a.Stepped) (hb : b.Stepped) :
    Sound Stepped (operation op a b) := by
  unfold operation
  split
  · exact sound_intOperation _ _ _
  · split
    · exact sound_floatOperation _ _ _
    · split
      · rename_i v e
        exact stepped_sequenceOperation? op ha hb v e
      · simp

/-- The result of an operation with one operand has no range in it. -/
theorem sound_unaryOperation (op : UnaryOp) (v : Value) : Sound Stepped (v.unaryOperation op) := by
  cases op with
  | not => exact stepped_bool _
  | neg =>
    unfold unaryOperation
    dsimp only
    split
    · exact stepped_float _
    · split
      · exact sound_ofInt _
      · simp
  | pos =>
    unfold unaryOperation
    dsimp only
    split
    · exact stepped_float _
    · split
      · exact stepped_int _
      · simp

/-! ## Sequences -/

/-- Values that are made from one to one have only ranges with steps if each of them does. -/
theorem allStepped_map {α : Type} {f : α → Value} (h : ∀ a, (f a).Stepped) (as : List α) :
    AllStepped (as.map f) := by
  intro v member
  obtain ⟨a, -, rfl⟩ := List.mem_map.1 member
  exact h a

/-- The characters of a text and the elements of a range are no ranges. -/
theorem sound_itemsOf {v : Value} (h : v.Stepped) : Sound AllStepped v.itemsOf := by
  cases v with
  | list items => exact (stepped_list_iff items).1 h
  | tuple items => exact (stepped_tuple_iff items).1 h
  | str text => exact allStepped_map (fun c => stepped_str _) _
  | range r => exact allStepped_map stepped_int _
  | _ => simp [itemsOf, items?]

/-- Membership in a range divides by its step. -/
theorem sound_isMember (item : Value) {container : Value} (h : container.Stepped) :
    Sound (fun _ => True) (isMember item container) := by
  cases container with
  | str text => cases item <;> first | exact trivial | simp [isMember]
  | list items | tuple items => exact trivial
  | range r =>
    unfold isMember
    dsimp only
    split
    · rw [Range.contains_eq ((stepped_range_iff r).1 h)]
      exact trivial
    · exact trivial
  | _ => simp [isMember]

/-- Asking for the order of two values does not break down. -/
theorem sound_ordered (symbol : String) (accepts : Ordering → Bool) (a b : Value) :
    Sound (fun _ => True) (ordered symbol accepts a b) := by
  unfold ordered
  split
  · exact trivial
  · split
    · exact trivial
    · simp

/-- Nor does comparing them, if the ranges in the second one have steps. -/
theorem sound_comparison (op : CmpOp) (a : Value) {b : Value} (h : b.Stepped) :
    Sound (fun _ => True) (comparison op a b) := by
  cases op with
  | eq | notEq | is | isNot => exact trivial
  | lt | ltE | gt | gtE => exact sound_ordered _ _ _ _
  | isIn => exact sound_isMember a h
  | notIn => exact (sound_isMember a h).map fun _ _ => trivial

/-- An item of a sequence is picked at a position that exists. -/
theorem sound_pick {items : List Value} (each : AllStepped items) (index : Int64) (name : String) :
    Sound Stepped (pick items.toArray index name) := by
  refine (sound_itemPosition index _).bind fun found inside => ?_
  cases found with
  | none => simp
  | some at' =>
    exact (Checked.sound_item (inside at' rfl)).mono fun v member => each v (by simpa using member)

/-- An item of such a container is such a value. -/
theorem sound_itemAt {container : Value} (h : container.Stepped) (index : Value) :
    Sound Stepped (container.itemAt index) := by
  unfold itemAt
  split
  · simp
  · rename_i i _
    cases container with
    | list items => exact sound_pick ((stepped_list_iff items).1 h) i _
    | tuple items => exact sound_pick ((stepped_tuple_iff items).1 h) i _
    | str text => exact sound_pick (allStepped_map (fun c => stepped_str _) _) i _
    | range r =>
      dsimp only
      rw [Range.checkedLength_eq]
      refine (sound_position fun negative => ?_).bind fun found inside => ?_
      · have size := Checked.natAbs_toInt_le i
        have short := r.length_lt
        exact Checked.wide_eq_of_natAbs (by omega)
      · cases found with
        | none => simp
        | some at' =>
          dsimp only
          rw [Range.checkedItem_eq (inside at' rfl)]
          exact stepped_int _
    | _ => simp

/-- A slice picks items at positions that exist. -/
theorem sound_sliceOf {container : Value} (h : container.Stepped) (lower upper step : Option Int64) :
    Sound Stepped (container.sliceOf lower upper step) := by
  unfold sliceOf
  dsimp only
  split
  · simp
  · rename_i stepped
    have picked {α : Type} (items : Array α) : Sound (∀ a ∈ ·, a ∈ items) (do
        let positions ← slicePositions items.size lower upper (step.getD 1)
        itemsAt items positions) :=
      (sound_slicePositions _ lower upper stepped).bind fun positions inside => sound_itemsAt inside
    have sliced {items : List Value} (each : AllStepped items) :
        Sound AllStepped (do
          let positions ← slicePositions items.toArray.size lower upper (step.getD 1)
          itemsAt items.toArray positions) :=
      (picked items.toArray).mono fun part inside v member =>
        each v (List.mem_toArray.1 (inside v member))
    cases container with
    | list items =>
      exact (sliced ((stepped_list_iff items).1 h)).map fun part => (stepped_list_iff part).2
    | tuple items =>
      exact (sliced ((stepped_tuple_iff items).1 h)).map fun part => (stepped_tuple_iff part).2
    | str text => exact (picked text.toList.toArray).map fun part _ => stepped_str _
    | _ => simp

/-! ## Built-in functions -/

/-- What is converted to an integer has no range in it. -/
theorem sound_toInteger (v : Value) : Sound Stepped v.toInteger := by
  unfold toInteger
  split
  · split
    · exact stepped_int _
    · split <;> simp
  · split
    · exact stepped_int _
    · simp
  · split
    · exact stepped_int _
    · simp

theorem sound_toDouble (v : Value) : Sound Stepped v.toDouble := by
  unfold toDouble
  split <;> split
  · exact stepped_float _
  · simp
  · exact stepped_float _
  · simp

theorem sound_lengthOf (v : Value) : Sound Stepped v.lengthOf := by
  cases v with
  | str | list | tuple => exact stepped_int _
  | range r =>
    unfold lengthOf
    dsimp only
    rw [Range.checkedLength_eq]
    dsimp only [bind, Except.bind]
    split
    · exact stepped_int _
    · simp
  | _ => simp [lengthOf]

theorem sound_absolute (v : Value) : Sound Stepped v.absolute := by
  unfold absolute
  split
  · exact stepped_float _
  · split
    · split
      · exact stepped_int _
      · simp
    · simp

/-- The least or greatest of some values has the ranges of one of them. -/
theorem sound_extremeFrom (wanted : Ordering) {best : Value} (h : best.Stepped) {vs : List Value}
    (others : AllStepped vs) : Sound Stepped (extremeFrom wanted best vs) := by
  induction vs generalizing best with
  | nil => exact h
  | cons v vs ih =>
    obtain ⟨first, rest⟩ := List.forall_mem_cons.1 others
    unfold extremeFrom
    split
    · refine ih ?_ rest
      split
      · exact first
      · exact h
    · simp

theorem sound_extreme (function : Builtin) (wanted : Ordering) {args : List Value}
    (h : AllStepped args) : Sound Stepped (extreme function wanted args) := by
  have chosen (candidates : List Value) : AllStepped candidates →
      Sound Stepped (match candidates with
        | [] => .error (.invalidValue (.emptySequence function.name))
        | v :: vs => extremeFrom wanted v vs) := by
    intro each
    cases candidates with
    | nil => simp
    | cons v vs =>
      obtain ⟨first, rest⟩ := List.forall_mem_cons.1 each
      exact sound_extremeFrom wanted first rest
  match args with
  | [] => simp [extreme, bind, Except.bind]
  | [v] => exact (sound_itemsOf (h v List.mem_cons_self)).bind chosen
  | v :: w :: vs => exact chosen _ h

/-- Asking for integers does not break down. -/
theorem sound_integers (vs : List Value) : Sound (fun _ => True) (integers vs) := by
  induction vs with
  | nil => exact trivial
  | cons v vs ih =>
    unfold integers
    split
    · exact ih.map fun _ _ => trivial
    · simp

/-- Ranges are made with steps other than zero. -/
theorem sound_rangeOf (bounds : List Int64) : Sound Stepped (rangeOf bounds) := by
  have forward : (1 : Int64) ≠ 0 := by decide
  unfold rangeOf
  split
  · exact (stepped_range_iff _).2 forward
  · exact (stepped_range_iff _).2 forward
  · split
    · simp
    · rename_i stepped
      exact (stepped_range_iff _).2 stepped
  · exact (stepped_range_iff _).2 forward

end Value

namespace Builtin

open Value

/-- A length and a distance from zero have their argument, since the number of arguments is checked
before. -/
theorem sound_call (function : Builtin) {args : List Value} (h : AllStepped args) :
    Sound Stepped (function.call args) := by
  have returned (counted : (function = .len ∨ function = .abs) → args ≠ []) :
      Sound Stepped (function.result args) := by
    unfold result
    split
    · exact (sound_integers args).bind fun bounds _ => sound_rangeOf bounds
    · exact sound_lengthOf _
    · exact absurd rfl (counted (.inl rfl))
    · exact sound_absolute _
    · exact absurd rfl (counted (.inr rfl))
    · exact stepped_str _
    · exact stepped_str _
    · exact stepped_bool _
    · exact stepped_bool _
    · exact sound_toInteger _
    · exact stepped_int _
    · exact sound_toDouble _
    · exact stepped_float _
    · exact sound_extreme _ _ h
    · exact sound_extreme _ _ h
    · exact stepped_none
  unfold call
  split
  · rename_i least greatest arity
    split
    · simp
    · rename_i count
      refine returned ?_
      rintro (rfl | rfl) rfl <;> cases arity <;> exact count (.inl Nat.zero_lt_one)
  · rename_i arity
    refine returned ?_
    rintro (rfl | rfl) <;> cases arity

end Builtin

end BlockEditor
