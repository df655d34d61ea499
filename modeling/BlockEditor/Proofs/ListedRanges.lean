import BlockEditor.Machine.Function
import BlockEditor.Machine.State
import BlockEditor.Proofs.CheckedArithmetic

/-!
# Ranges as lists

A range holds three words, and everything a program can ask of it is reckoned from them.  The answers
are those of the list of its elements, up to both ends of the words.
-/

namespace BlockEditor

/-! ## Items by index -/

/-- The item that an index names in a list: -1 is the last one, -2 the one in front of it. -/
def nth? {α : Type} (items : List α) : Int → Option α
  | .ofNat n => items[n]?
  | .negSucc n => items.reverse[n]?

example : nth? [3, 5, 7] 2 = some 7 ∧ nth? [3, 5, 7] (-3) = some 3 ∧ nth? [3, 5, 7] (-4) = none := by
  decide

/-- The item at an index is the one at its place, if it has any. -/
theorem nth?_eq {α : Type} (items : List α) (i : Int) :
    nth? items i = (place items.length i).bind (items[·]?) := by
  cases i with
  | ofNat n =>
    rw [nth?, place]
    split
    · rfl
    · exact List.getElem?_eq_none (by omega)
  | negSucc n =>
    rw [nth?, place]
    split
    · rename_i inside
      exact List.getElem?_reverse inside
    · exact List.getElem?_eq_none (by rw [List.length_reverse]; omega)

namespace Value

/-- What indexing gives for an item that was looked up in a sequence with a name. -/
def lookedUp (name : String) : Option Value → Except Cause Value
  | some v => .ok v
  | Option.none => .error (.indexOutOfRange name)

/-- Indexing items in memory looks them up. -/
theorem pick_eq (items : List Value) (index : Int64) (name : String) :
    pick items.toArray index name = lookedUp name (nth? items index.toInt) := by
  rw [nth?_eq, pick, List.size_toArray, itemPosition_eq]
  cases named : place items.length index.toInt with
  | none => rfl
  | some at' =>
    change Checked.item items.toArray at' = lookedUp name items[at']?
    rw [Checked.item, List.getElem?_toArray, List.getElem?_eq_getElem (lt_of_place named)]
    rfl

end Value

/-! ## Visiting items -/

namespace ItemCursor

/-- The items that a cursor visits until it is exhausted, in order. -/
def visits (c : ItemCursor) : List Value :=
  match _ : c.next? with
  | none => []
  | some (item, c') => item :: visits c'
termination_by c.remaining
decreasing_by
  have := remaining_of_next? ‹_›
  omega

/-- A cursor over a range adds the step to a word before each visit but the first. -/
theorem visits_range (first step : Int64) (count : Nat) :
    (ItemCursor.range first step count).visits =
      (List.range count).map fun i => .int (Int64.ofInt (first.toInt + (i : Nat) * step.toInt)) := by
  induction count generalizing first with
  | zero => simp [visits, next?]
  | succ count ih =>
    rw [visits]
    simp only [next?]
    rw [ih, List.range_succ_eq_map, List.map_cons, List.map_map]
    congr 1
    · rw [Int.natCast_zero, Int.zero_mul, Int.add_zero, Int64.ofInt_toInt]
    · refine List.map_congr_left fun i _ => ?_
      -- both sides are the same sum, cut down once or twice
      have sum : ((i + 1 : Nat) : Int) * step.toInt = step.toInt + i * step.toInt := by
        rw [Int.natCast_add, Int.add_mul]
        omega
      simp only [Function.comp_apply, Nat.succ_eq_add_one, sum, Int64.ofInt_add, Int64.ofInt_toInt,
        Int64.add_assoc]

end ItemCursor

/-! ## The elements of a range -/

/-- Integers as values. -/
def Value.ofElements (ns : List Int) : List Value := ns.map fun n => .int (Int64.ofInt n)

namespace Range

open Checked

variable {r s : Range}

/-- The elements of a range: the integers from its start on, its step apart, strictly before its stop
in the direction of the step. -/
def elements (r : Range) : List Int := stepsFrom r.step.toInt r.stop.toInt r.start.toInt

/-- The elements of a range, by their positions. -/
theorem elements_eq (stepped : r.step ≠ 0) : r.elements = (List.range r.length).map r.element :=
  stepsFrom_eq (toInt_ne_zero stepped)

/-- A range has as many elements as it says. -/
theorem length_elements (stepped : r.step ≠ 0) : r.elements.length = r.length :=
  length_stepsFrom (toInt_ne_zero stepped)

/-- A range has no elements exactly if it says so. -/
theorem elements_eq_nil_iff (stepped : r.step ≠ 0) : r.elements = [] ↔ r.length = 0 := by
  rw [← length_elements stepped, List.length_eq_zero_iff]

/-- The elements of a range are words, and none of them is cut down. -/
theorem map_toInt_items (stepped : r.step ≠ 0) : r.items.map Int64.toInt = r.elements := by
  rw [elements_eq stepped, items, List.map_map]
  exact List.map_congr_left fun i inside => toInt_item (List.mem_range.1 inside)

/-- An element is a word. -/
theorem toInt_ofInt_of_mem (stepped : r.step ≠ 0) {n : Int} (member : n ∈ r.elements) :
    (Int64.ofInt n).toInt = n := by
  rw [← map_toInt_items stepped] at member
  obtain ⟨w, -, rfl⟩ := List.mem_map.1 member
  rw [Int64.ofInt_toInt]

/-- The elements are the items that an iteration gives. -/
theorem mem_elements_iff (stepped : r.step ≠ 0) (n : Int64) : n.toInt ∈ r.elements ↔ n ∈ r.items := by
  rw [← map_toInt_items stepped, List.mem_map]
  exact ⟨fun ⟨w, member, e⟩ => Int64.toInt_inj.1 e ▸ member, fun member => ⟨n, member, rfl⟩⟩

/-- The elements of a range as values, by their positions. -/
theorem ofElements_eq (stepped : r.step ≠ 0) :
    Value.ofElements r.elements = (List.range r.length).map fun i => .int (r.item i) := by
  rw [Value.ofElements, elements_eq stepped, List.map_map]
  rfl

/-- Indexing a range finds its elements. -/
theorem itemAt_range (stepped : r.step ≠ 0) {v : Value} {i : Int64} (index : v.asInt? = some i) :
    (Value.range r).itemAt v =
      Value.lookedUp "range object" (nth? (Value.ofElements r.elements) i.toInt) := by
  have size := natAbs_toInt_le i
  have short := r.length_lt
  have count : (Value.ofElements r.elements).length = r.length := by
    rw [Value.ofElements, List.length_map, length_elements stepped]
  rw [nth?_eq, count]
  unfold Value.itemAt
  simp only [index, checkedLength_eq]
  change (Value.position wide i r.length).bind _ = _
  rw [Value.position_eq fun _ => wide_eq_of_natAbs (by omega)]
  cases named : place r.length i.toInt with
  | none => rfl
  | some at' =>
    change Value.int <$> r.checkedItem at' = Value.lookedUp _ (Value.ofElements r.elements)[at']?
    rw [checkedItem_eq (lt_of_place named), ofElements_eq stepped, List.getElem?_map,
      List.getElem?_range (lt_of_place named)]
    rfl

/-- Two ranges are equal if they have the same elements. -/
theorem sameItems_iff (stepped : r.step ≠ 0) (stepped' : s.step ≠ 0) :
    r.sameItems s = true ↔ r.elements = s.elements := by
  have first {q : Range} : q.item 0 = q.start := by
    unfold item
    rw [Int.natCast_zero, Int.zero_mul, Int.add_zero, Int64.ofInt_toInt]
  have second {q : Range} : q.element 1 - q.element 0 = q.step.toInt := by
    unfold element
    omega
  rw [elements_eq stepped, elements_eq stepped']
  unfold sameItems
  simp only [Bool.and_eq_true, Bool.or_eq_true, beq_iff_eq, decide_eq_true_eq, first]
  constructor
  · rintro ⟨⟨lengths, starts⟩, steps⟩
    rw [← lengths]
    refine List.map_congr_left fun i inside => ?_
    rw [List.mem_range] at inside
    have start_eq : r.start = s.start := starts.resolve_left (by omega)
    unfold element
    rw [start_eq]
    -- only a second element shows the step
    rcases steps with short | step_eq
    · rw [show i = 0 by omega, Int.natCast_zero, Int.zero_mul, Int.zero_mul]
    · rw [step_eq]
  · intro same
    have lengths : r.length = s.length := by simpa using congrArg List.length same
    have each (i : Nat) (inside : i < r.length) : r.element i = s.element i := by
      rw [← lengths] at same
      exact List.map_inj_left.1 same i (List.mem_range.2 inside)
    refine ⟨⟨lengths, ?_⟩, ?_⟩
    · by_cases empty : r.length = 0
      · exact .inl empty
      · have e := each 0 (by omega)
        unfold element at e
        exact .inr (Int64.toInt_inj.1 (by omega))
    · by_cases short : r.length ≤ 1
      · exact .inl short
      · have e := each 0 (by omega)
        have e' := each 1 (by omega)
        exact .inr (Int64.toInt_inj.1 (by rw [← second, ← second, e, e']))

/-! ## What a program can ask -/

/-- A range gives the answers that a list of integers gives. -/
structure ActsAs (r : Range) (elements : List Int) : Prop where
  /-- Each element is a word: the word of an element stands for the element and no other integer. -/
  words : ∀ n ∈ elements, (Int64.ofInt n).toInt = n
  /-- A loop visits the elements in order, and no others. -/
  visits : ∃ c, ItemCursor.start (.range r) = .ok c ∧ c.visits = Value.ofElements elements
  /-- So does whatever takes the range apart at once. -/
  items : (Value.range r).itemsOf = .ok (Value.ofElements elements)
  /-- An integer or a truth value as an index finds what it finds in the list, or nothing in both. -/
  indexed : ∀ v i, v.asInt? = some i →
    (Value.range r).itemAt v =
        Value.lookedUp "range object" (nth? (Value.ofElements elements) i.toInt) ∧
      (Value.list (Value.ofElements elements)).itemAt v =
        Value.lookedUp "list" (nth? (Value.ofElements elements) i.toInt)
  /-- The range holds as a condition if there are elements. -/
  truthy : (Value.range r).truthy = true ↔ elements ≠ []
  /-- The length is the number of elements, unless it is no word. -/
  length : Builtin.len.call [.range r] =
    if elements.length < 2 ^ 63 then .ok (.int (Int64.ofNat elements.length)) else .error .overflow
  /-- An integer or a truth value is in the range if it is an element. -/
  member : ∀ v n, v.asInt? = some n →
    Value.comparison .isIn v (.range r) = .ok (decide (n.toInt ∈ elements))

/-- A loop over a range visits its elements. -/
theorem start_range (stepped : r.step ≠ 0) :
    ∃ c, ItemCursor.start (.range r) = .ok c ∧ c.visits = Value.ofElements r.elements := by
  refine ⟨_, rfl, ?_⟩
  rw [ItemCursor.visits_range, ofElements_eq stepped]
  rfl

/-- A list that is made of a range holds its elements. -/
theorem itemsOf_range (stepped : r.step ≠ 0) :
    (Value.range r).itemsOf = .ok (Value.ofElements r.elements) := by
  rw [ofElements_eq stepped, Value.itemsOf, Value.items?, items, List.map_map]
  rfl

/-- The length of a range is that of its elements, unless it is no word. -/
theorem len_range (stepped : r.step ≠ 0) :
    Builtin.len.call [.range r] =
      if r.elements.length < 2 ^ 63 then .ok (.int (Int64.ofNat r.elements.length))
      else .error .overflow := by
  rw [length_elements stepped]
  change (Value.range r).lengthOf = _
  unfold Value.lengthOf
  simp only [checkedLength_eq, bind, Except.bind]
  split
  · rename_i n fits
    have value := (Number.toInt64?_eq_some_iff _ n).1 fits
    have high := n.toInt_lt
    have word : Int64.ofNat r.length = n := by
      rw [← Int64.ofInt_eq_ofNat, ← value, Int64.ofInt_toInt]
    rw [if_pos (by omega), word]
    rfl
  · rename_i large
    rw [if_neg fun short => ?_]
    have fits := (Number.toInt64?_eq_some_iff r.length (Int64.ofInt r.length)).2
      (Int64.toInt_ofInt_of_le (by omega) (by omega))
    rw [fits] at large
    cases large

/-- A word is found in a range exactly if it is an element. -/
theorem isMember_range (stepped : r.step ≠ 0) {v : Value} {n : Int64} (item : v.asInt? = some n) :
    v.isMember (.range r) = .ok (decide (n.toInt ∈ r.elements)) := by
  unfold Value.isMember
  simp only [item]
  rw [contains_eq stepped, decide_eq_decide.2 (mem_elements_iff stepped n)]

/-- A range with a step behaves as the list of its elements, and two of them are equal exactly if the
lists are. -/
theorem actsAs_elements (stepped : r.step ≠ 0) :
    r.ActsAs r.elements ∧ ∀ s : Range, s.step ≠ 0 →
      Value.comparison .eq (.range r) (.range s) = .ok (decide (r.elements = s.elements)) where
  left :=
    { words := fun n member => toInt_ofInt_of_mem stepped member
      visits := start_range stepped
      items := itemsOf_range stepped
      indexed := fun v i index => by
        refine ⟨itemAt_range stepped index, ?_⟩
        rw [← Value.pick_eq]
        unfold Value.itemAt
        simp only [index]
      truthy := by
        rw [ne_eq, elements_eq_nil_iff stepped]
        simp [Value.truthy]
      length := len_range stepped
      member := fun v n item => isMember_range stepped item }
  right := fun s stepped' => by
    change Except.ok (Value.same (.range r) (.range s)) = _
    rw [Value.same, Bool.eq_iff_iff.2 ((sameItems_iff stepped stepped').trans decide_eq_true_iff.symm)]

/-- The second element is the last one: one step further, there are no words. -/
def nearTop : Range := ⟨9223372036854775800, 9223372036854775807, 5⟩

/-- The same elements, in front of another stop. -/
def nearerTop : Range := ⟨9223372036854775800, 9223372036854775806, 5⟩

/-- The range that stops at the last word has two elements, and equals the one that stops in front
of it. -/
theorem actsAs_elements_nearTop : nearTop.step ≠ 0 ∧ nearerTop.step ≠ 0 ∧
    nearTop.ActsAs [9223372036854775800, 9223372036854775805] ∧
      Value.comparison .eq (.range nearTop) (.range nearerTop) = .ok true := by
  have listed : nearTop.elements = [9223372036854775800, 9223372036854775805] := by
    rw [elements_eq (by decide)]
    decide
  have listed' : nearerTop.elements = nearTop.elements := by
    rw [elements_eq (by decide), elements_eq (by decide)]
    decide
  refine ⟨by decide, by decide, listed ▸ (actsAs_elements (by decide)).1, ?_⟩
  rw [(actsAs_elements (r := nearTop) (by decide)).2 nearerTop (by decide),
    decide_eq_true listed'.symm]

end Range

end BlockEditor
