import BlockEditor.Proofs.ListedRanges

/-!
# Membership in ranges and in lists

Asked for an item, a range reckons with words and a list compares its items one by one.  The two agree
except on doubles: a double may equal an element of a range, but it is never found in one.
-/

namespace BlockEditor

variable {r : Range} {v : Value}

namespace Value

/-- What an integer equals: integers and truth values of its worth, and the double nearest to it. -/
theorem same_int (n : Int64) (v : Value) :
    (int n).same v =
      match v with
      | int m => n == m
      | bool b => n == (if b then 1 else 0)
      | float x => Float.ofInt n.toInt == x
      | _ => false := by
  cases v <;> rfl

/-- A list has the items that one of its own equals. -/
theorem isMember_list_eq_ok_iff (items : List Value) (v : Value) (b : Bool) :
    v.isMember (.list items) = .ok b ↔ (b = true ↔ ∃ item ∈ items, item.same v = true) := by
  change Except.ok (items.any fun item => item.same v) = _ ↔ _
  rw [Except.ok.injEq, Bool.eq_iff_iff, List.any_eq_true]
  exact Iff.comm

/-- A range has only integers and truth values. -/
theorem isMember_range_of_asInt?_eq_none (r : Range) (other : v.asInt? = Option.none) :
    v.isMember (.range r) = .ok false := by
  unfold isMember
  simp only [other]

end Value

namespace Range

/-- An item equals a value of the list of elements if it equals the word of an element. -/
theorem exists_same_iff (stepped : r.step ≠ 0) :
    (∃ item ∈ Value.ofElements r.elements, item.same v = true) ↔
      ∃ n : Int64, n.toInt ∈ r.elements ∧ (Value.int n).same v = true := by
  constructor
  · rintro ⟨item, member, equal⟩
    obtain ⟨n, inside, rfl⟩ := List.mem_map.1 member
    exact ⟨Int64.ofInt n, (toInt_ofInt_of_mem stepped inside).symm ▸ inside, equal⟩
  · rintro ⟨n, inside, equal⟩
    refine ⟨.int n, List.mem_map.2 ⟨n.toInt, inside, ?_⟩, equal⟩
    rw [Int64.ofInt_toInt]

/-- An integer or a truth value is found in a range exactly if it equals an element. -/
theorem exists_same_of_asInt? {k : Int64} (item : v.asInt? = some k) :
    (∃ n : Int64, n.toInt ∈ r.elements ∧ (Value.int n).same v = true) ↔ k.toInt ∈ r.elements := by
  have same (n : Int64) : (Value.int n).same v = (n == k) := by
    cases v with
    | int m | bool b =>
      cases item
      exact Value.same_int n _
    | _ => cases item
  simp only [same, beq_iff_eq, exists_eq_right]

/-- A value of another type than the numbers equals no element. -/
theorem not_exists_same (other : v.isNumeric = false) :
    ¬ ∃ n : Int64, n.toInt ∈ r.elements ∧ (Value.int n).same v = true := by
  rintro ⟨n, -, equal⟩
  rw [Value.same_int] at equal
  cases v with
  | int | bool | float => cases other
  | _ => cases equal

/-- What is no integer and no truth value is not in a range, and it is in the list of elements if it
equals one of them.  So the range and the list of its elements give the same answer exactly if the
item is no double that equals an element. -/
theorem isMember_eq_iff (stepped : r.step ≠ 0) (v : Value) :
    (v.asInt? = none → v.isMember (.range r) = .ok false) ∧
      v.isMember (.list (Value.ofElements r.elements)) =
        .ok (decide (∃ item ∈ Value.ofElements r.elements, item.same v = true)) ∧
      (v.isMember (.range r) = v.isMember (.list (Value.ofElements r.elements)) ↔
        ¬ ∃ x, v = .float x ∧ ∃ n ∈ r.elements, Float.ofInt n == x) := by
  refine ⟨Value.isMember_range_of_asInt?_eq_none r,
    (Value.isMember_list_eq_ok_iff _ _ _).2 decide_eq_true_iff, ?_⟩
  -- whatever the range answers, the list answers it if that says whether an element is equal
  have agrees {b : Bool} (found : v.isMember (.range r) = .ok b) :
      v.isMember (.range r) = v.isMember (.list (Value.ofElements r.elements)) ↔
        (b = true ↔ ∃ n : Int64, n.toInt ∈ r.elements ∧ (Value.int n).same v = true) := by
    rw [found, eq_comm, Value.isMember_list_eq_ok_iff, exists_same_iff stepped]
  cases v with
  | int m | bool b =>
    refine iff_of_true ((agrees (isMember_range stepped rfl)).2 ?_) (by simp)
    rw [decide_eq_true_iff]
    exact (exists_same_of_asInt? rfl).symm
  | float x =>
    rw [agrees rfl]
    refine (iff_false_left Bool.false_ne_true).trans (not_congr ⟨?_, ?_⟩)
    · rintro ⟨n, inside, equal⟩
      exact ⟨x, rfl, n.toInt, inside, equal⟩
    · rintro ⟨y, e, n, inside, equal⟩
      cases e
      have word := toInt_ofInt_of_mem stepped inside
      refine ⟨Int64.ofInt n, word.symm ▸ inside, ?_⟩
      rw [Value.same_int, word]
      exact equal
  | _ =>
    refine iff_of_true ((agrees rfl).2 ?_) (by simp)
    exact iff_of_false Bool.false_ne_true (not_exists_same rfl)

/-- The five integers from zero on. -/
def firstFive : Range := ⟨0, 5, 1⟩

theorem elements_firstFive : firstFive.elements = [0, 1, 2, 3, 4] := by
  rw [elements_eq (by decide)]
  decide

/-- Neither the first five integers nor their list has a number between two of them. -/
theorem isMember_eq_iff_firstFive : firstFive.step ≠ 0 ∧
    (Value.float 2.5).isMember (.range firstFive) = .ok false ∧
      (Value.float 2.5).isMember (.range firstFive) =
        (Value.float 2.5).isMember (.list (Value.ofElements firstFive.elements)) := by
  refine ⟨by decide, (isMember_eq_iff (by decide) _).1 rfl,
    (isMember_eq_iff (by decide) _).2.2.2 ?_⟩
  rintro ⟨x, e, n, inside, equal⟩
  cases e
  rw [elements_firstFive] at inside
  have differs : ∀ n ∈ [0, 1, 2, 3, 4], ¬ Float.ofInt n == 2.5 := by decide +kernel
  exact differs n inside equal

/-- A double that equals an element is in the list of elements, but not in the range. -/
theorem not_isMember_eq_firstFive : ¬ ∀ (r : Range) (v : Value), r.step ≠ 0 → v.asInt? = none →
    v.isMember (.range r) = v.isMember (.list (Value.ofElements r.elements)) := by
  intro agree
  have agrees := agree firstFive (.float 2.0) (by decide) rfl
  rw [Value.isMember_range_of_asInt?_eq_none _ rfl, eq_comm, Value.isMember_list_eq_ok_iff] at agrees
  have two : (Value.int 2).same (.float 2.0) = true := by decide +kernel
  refine Bool.false_ne_true (agrees.2 ⟨.int 2, ?_, two⟩)
  rw [elements_firstFive]
  exact List.mem_map.2 ⟨2, by decide, rfl⟩

end Range

end BlockEditor
