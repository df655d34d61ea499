import BlockEditor.Machine.Assign
import BlockEditor.Proofs.KeptLiterals
import BlockEditor.Proofs.ListedRanges

/-!
# Elements of nested lists

An element is read where it was stored.  Reading and storing are two walks along the indices of a
target, and a negative index is another name for the item that it is counted to.  What no index on the
way leads to is left as it was.
-/

namespace BlockEditor

/-! ## Targets -/

/-- An expression for an element of what a variable holds, with integer literals behind any signs as
indices.  The outermost index comes first in the path. -/
inductive IsElement (id : String) : Expr → List Int64 → Prop
  | bare (span : Span) : IsElement id (.name span id) []
  | item (span : Span) {base index : Expr} {path : List Int64} {negative : Bool} {n : Int64} :
      IsElement id base path → index.signed? = some (negative, .int n) → 0 ≤ n →
      IsElement id (.subscript span base index) (path ++ [if negative then -n else n])

/-- An index that is no slice is evaluated behind the container. -/
theorem Expr.eval_subscript {index : Expr}
    (unsliced : ∀ span lower upper step, index ≠ .slice span lower upper step) (span : Span)
    (base : Expr) (g : Globals) : (Expr.subscript span base index).eval g =
      (base.eval g).bind fun v => (index.eval g).bind fun i => .ofResult span (v.itemAt i) := by
  rw [Expr.eval]
  · rfl
  · exact unsliced

/-- An index that has a value is no slice. -/
theorem Expr.HasValue.eval_subscript {index : Expr} {i : Value} (h : index.HasValue i) (span : Span)
    (base : Expr) (g : Globals) : (Expr.subscript span base index).eval g =
      (base.eval g).bind fun v => .ofResult span (v.itemAt i) := by
  have unsliced : ∀ span lower upper step, index ≠ .slice span lower upper step := by
    rintro span lower upper step rfl
    cases h g
  rw [Expr.eval_subscript unsliced, h g]
  simp only [Traced.pure_bind]

namespace Value

/-! ## Walks -/

/-- What stands at the end of a path in a value. -/
def readAt : List PathStep → Value → Except Fault Value
  | [], v => .ok v
  | step :: rest, v =>
    match v.itemAt step.index with
    | .ok item => readAt rest item
    | .error cause => .error ⟨cause, step.span⟩

/-- A walk in two parts reads on from where the first part ends. -/
theorem readAt_append (front back : List PathStep) (v : Value) :
    readAt (front ++ back) v = (readAt front v).bind (readAt back) := by
  induction front generalizing v with
  | nil => rfl
  | cons step front ih =>
    rw [List.cons_append, readAt, readAt]
    cases v.itemAt step.index with
    | ok item => exact ih item
    | error cause => rfl

/-- The steps of a target go by the indices of a path. -/
abbrev GoBy : List PathStep → List Int64 → Prop := List.Forall₂ fun step i => step.index = int i

/-- Where steps are taken does not matter for what they read. -/
theorem readAt_of_goBy {steps walk : List PathStep} {path : List Int64} {v w : Value}
    (goBy : GoBy steps path) (walks : GoBy walk path) (reads : readAt steps v = .ok w) :
    readAt walk v = .ok w := by
  induction goBy generalizing v walk with
  | nil =>
    cases walks
    exact reads
  | @cons step i _ _ index _ ih =>
    cases walks with
    | cons index' walks =>
      rw [readAt, index] at reads
      rw [readAt, index']
      cases item : v.itemAt (int i) with
      | error cause =>
        rw [item] at reads
        cases reads
      | ok next =>
        rw [item] at reads
        exact ih walks reads

/-- The last index of a path belongs to the last step. -/
theorem exists_of_goBy_append {steps : List PathStep} {path : List Int64} {i : Int64}
    (goBy : GoBy steps (path ++ [i])) :
    ∃ front last, steps = front ++ [last] ∧ GoBy front path ∧ last.index = int i := by
  have back := List.forall₂_drop_append steps path [i] goBy
  cases split : steps.drop path.length with
  | nil =>
    rw [split] at back
    cases back
  | cons last rest =>
    rw [split] at back
    obtain ⟨index, none⟩ := List.forall₂_cons.1 back
    cases none
    exact ⟨_, last, by rw [← split, List.take_append_drop],
      List.forall₂_take_append steps path [i] goBy, index⟩

/-- The positions of the items that the indices of a path name, each in the item that the ones before it
lead to, up to the first index that names none. -/
def trail : Value → List Int64 → List (Option Nat)
  | _, [] => []
  | v, i :: path =>
    match v.items? with
    | some items =>
      match place items.length i.toInt with
      | some at' => some at' :: trail (items.getD at' none) path
      | Option.none => [Option.none]
    | Option.none => [Option.none]

/-- Whether each index of a path names an item of a list, in the item that the ones before it lead
to. -/
def isSlot : Value → List Int64 → Bool
  | _, [] => true
  | list items, i :: path =>
    match place items.length i.toInt with
    | some at' => isSlot (items.getD at' none) path
    | Option.none => false
  | _, _ :: _ => false

section Steps

variable {items : List Value} {v v' new : Value} {step last : PathStep} {i : Int64}
  {steps rest : List PathStep} {path other : List Int64}

/-- An index of a list is the position that it names, or is out of range. -/
theorem listPosition_int (i : Int64) (length : Nat) : listPosition (int i) length =
    match place length i.toInt with
    | some at' => .ok at'
    | Option.none => .error (.indexOutOfRange "list assignment") := by
  change (itemPosition i length >>= fun found => match found with
    | some at' => pure at'
    | Option.none => .error (.indexOutOfRange "list assignment")) = _
  rw [itemPosition_eq]
  cases place length i.toInt <;> rfl

/-- Reading an item of a list is looking it up by its index. -/
theorem itemAt_list (index : step.index = int i) :
    (list items).itemAt step.index = lookedUp "list" (nth? items i.toInt) := by
  rw [index, ← pick_eq]
  rfl

/-- Reading goes to the item that the index names. -/
theorem readAt_of_place {at' : Nat} (index : step.index = int i)
    (named : place items.length i.toInt = some at') :
    readAt (step :: rest) (list items) = readAt rest (items.getD at' none) := by
  have inside := lt_of_place named
  rw [readAt, itemAt_list index, nth?_eq, named, Option.bind_some, List.getElem?_eq_getElem inside,
    List.getD_eq_getElem?_getD, List.getElem?_eq_getElem inside]
  rfl

/-- Reading fails at an index that names no item. -/
theorem readAt_of_no_place (index : step.index = int i)
    (unnamed : place items.length i.toInt = Option.none) :
    readAt (step :: rest) (list items) = .error ⟨.indexOutOfRange "list", step.span⟩ := by
  rw [readAt, itemAt_list index, nth?_eq, unnamed]
  rfl

/-- A change goes to the item that the index names as well. -/
theorem elementAt_eq_ok_iff (index : step.index = int i) {found : List Value × Nat} :
    v.elementAt step = .ok found ↔
      v = list found.1 ∧ place found.1.length i.toInt = some found.2 := by
  cases v with
  | list items =>
    rw [elementAt, index, listPosition_int]
    cases named : place items.length i.toInt with
    | none =>
      refine iff_of_false nofun ?_
      rintro ⟨same, other⟩
      cases same
      cases named.symm.trans other
    | some at' =>
      dsimp only
      rw [if_pos (lt_of_place named)]
      constructor
      · rintro ⟨⟩
        exact ⟨rfl, named⟩
      · rintro ⟨same, other⟩
        cases same
        cases named.symm.trans other
        rfl
  | _ => exact iff_of_false nofun nofun

/-- A value with another item where an index names one. -/
def changeAt (step : PathStep) (change : Value → Except Fault Value) (v : Value) :
    Except Fault Value :=
  (v.elementAt step).bind fun found =>
    (change (found.1.getD found.2 none)).map fun changed => list (found.1.set found.2 changed)

/-- A change succeeds where the index names an item that can be changed. -/
theorem changeAt_eq_ok_iff (index : step.index = int i) {change : Value → Except Fault Value} :
    changeAt step change v = .ok v' ↔ ∃ items at' changed, v = list items ∧
      place items.length i.toInt = some at' ∧ change (items.getD at' none) = .ok changed ∧
        v' = list (items.set at' changed) := by
  constructor
  · intro given
    rw [changeAt] at given
    cases reached : v.elementAt step with
    | error fault =>
      rw [reached] at given
      cases given
    | ok found =>
      obtain ⟨rfl, named⟩ := (elementAt_eq_ok_iff index).1 reached
      cases below : change (found.1.getD found.2 none) with
      | error fault =>
        rw [reached, Except.bind, below] at given
        cases given
      | ok changed =>
        rw [reached, Except.bind, below] at given
        cases given
        exact ⟨_, _, changed, rfl, named, below, rfl⟩
  · rintro ⟨items, at', changed, rfl, named, below, rfl⟩
    have reached : (list items).elementAt step = .ok (items, at') :=
      (elementAt_eq_ok_iff index).2 ⟨rfl, named⟩
    rw [changeAt, reached, Except.bind, below]
    rfl

/-- Storing at a path changes the item of its first step. -/
theorem storeAt_cons (new : Value) (step : PathStep) (rest : List PathStep) (v : Value) :
    storeAt new (step :: rest) v = changeAt step (storeAt new rest) v := by
  rw [storeAt, changeAt]
  cases v.elementAt step with
  | error fault => rfl
  | ok found =>
    change (storeAt new rest _ >>= fun changed => _) = Except.map _ (storeAt new rest _)
    cases storeAt new rest (found.1.getD found.2 none) <;> rfl

/-- Above the last list, removing is a change as storing is. -/
theorem removeAt_cons (step : PathStep) (more : rest ≠ []) (v : Value) :
    removeAt (step :: rest) v = changeAt step (removeAt rest) v := by
  cases rest with
  | nil => exact absurd rfl more
  | cons next rest =>
    rw [removeAt, changeAt]
    · cases v.elementAt step with
      | error fault => rfl
      | ok found =>
        change (removeAt (next :: rest) _ >>= fun changed => _) = Except.map _ (removeAt (next :: rest) _)
        cases removeAt (next :: rest) (found.1.getD found.2 none) <;> rfl
    · nofun
    · nofun

/-- Removing takes the named item out of the list. -/
theorem removeAt_single_eq_ok_iff (index : step.index = int i) :
    removeAt [step] v = .ok v' ↔ ∃ items at', v = list items ∧
      place items.length i.toInt = some at' ∧ v' = list (items.eraseIdx at') := by
  cases v with
  | list items =>
    rw [removeAt, index, listPosition_int]
    cases named : place items.length i.toInt with
    | none =>
      refine iff_of_false nofun ?_
      rintro ⟨_, _, ⟨⟩, other, -⟩
      cases named.symm.trans other
    | some at' =>
      dsimp only
      rw [if_pos (lt_of_place named)]
      constructor
      · rintro ⟨⟩
        exact ⟨items, at', rfl, named, rfl⟩
      · rintro ⟨_, _, ⟨⟩, other, rfl⟩
        cases named.symm.trans other
        rfl
  | _ => exact iff_of_false nofun nofun

/-- A path leads to an item if its first index names one from which the others lead on. -/
theorem isSlot_cons_iff : v.isSlot (i :: path) = true ↔ ∃ items at', v = list items ∧
    place items.length i.toInt = some at' ∧ (items.getD at' none).isSlot path = true := by
  constructor
  · intro slot
    cases v with
    | list items =>
      rw [isSlot] at slot
      cases named : place items.length i.toInt with
      | none =>
        rw [named] at slot
        cases slot
      | some at' =>
        rw [named] at slot
        exact ⟨items, at', rfl, named, slot⟩
    | _ => cases slot
  · rintro ⟨items, at', rfl, named, slot⟩
    rw [isSlot, named]
    exact slot

/-- Storing succeeds where every index on the way names an item of a list. -/
theorem exists_storeAt_iff (new : Value) (goBy : GoBy steps path) :
    (∃ v', storeAt new steps v = .ok v') ↔ v.isSlot path = true := by
  induction goBy generalizing v with
  | nil => exact iff_of_true ⟨new, rfl⟩ rfl
  | cons index _ ih =>
    constructor
    · rintro ⟨v', stored⟩
      rw [storeAt_cons, changeAt_eq_ok_iff index] at stored
      obtain ⟨items, at', changed, rfl, named, below, -⟩ := stored
      exact isSlot_cons_iff.2 ⟨items, at', rfl, named, ih.1 ⟨changed, below⟩⟩
    · intro slot
      obtain ⟨items, at', rfl, named, inner⟩ := isSlot_cons_iff.1 slot
      obtain ⟨changed, below⟩ := ih.2 inner
      rw [storeAt_cons]
      exact ⟨_, (changeAt_eq_ok_iff index).2 ⟨items, at', changed, rfl, named, below, rfl⟩⟩

end Steps

/-! ## Reading behind storing -/

section Laws

variable {v v' new : Value} {steps walk : List PathStep} {path other : List Int64}

/-- A changed item is read where its index names it. -/
theorem readAt_set_self {step : PathStep} {items : List Value} {i : Int64} {at' : Nat}
    (index : step.index = int i) (named : place items.length i.toInt = some at') (new : Value) :
    readAt (step :: walk) (list (items.set at' new)) = readAt walk new := by
  have found : place (items.set at' new).length i.toInt = some at' := by rwa [List.length_set]
  rw [readAt_of_place index found, List.getD_eq_getElem?_getD,
    List.getElem?_set_self (lt_of_place named)]
  rfl

/-- Other indices name what they named. -/
theorem readAt_set_ne {step : PathStep} {items : List Value} {i : Int64} {at' : Nat}
    (index : step.index = int i) (apart : place items.length i.toInt ≠ some at') (new : Value) :
    readAt (step :: walk) (list (items.set at' new)) = readAt (step :: walk) (list items) := by
  cases found : place items.length i.toInt with
  | none =>
    have found' : place (items.set at' new).length i.toInt = Option.none := by rwa [List.length_set]
    rw [readAt_of_no_place index found', readAt_of_no_place index found]
  | some there =>
    have found' : place (items.set at' new).length i.toInt = some there := by rwa [List.length_set]
    have other : at' ≠ there := by
      rintro rfl
      exact apart found
    rw [readAt_of_place index found', readAt_of_place index found, List.getD_eq_getElem?_getD,
      List.getD_eq_getElem?_getD, List.getElem?_set_ne other]

/-- The trail of a path goes on in the item that its first index names. -/
theorem trail_of_place {items : List Value} {i : Int64} {at' : Nat}
    (named : place items.length i.toInt = some at') :
    (list items).trail (i :: path) = some at' :: (items.getD at' none).trail path := by
  change (match place items.length i.toInt with
    | some at' => some at' :: (items.getD at' none).trail path
    | Option.none => [Option.none]) = _
  rw [named]

/-- It ends at an index that names no item. -/
theorem trail_of_no_place {items : List Value} {i : Int64}
    (unnamed : place items.length i.toInt = Option.none) :
    (list items).trail (i :: path) = [Option.none] := by
  change (match place items.length i.toInt with
    | some at' => some at' :: (items.getD at' none).trail path
    | Option.none => [Option.none]) = _
  rw [unnamed]

/-- Every index has its place in a trail. -/
theorem trail_cons_ne_nil (v : Value) (i : Int64) (path : List Int64) : v.trail (i :: path) ≠ [] := by
  rw [trail]
  split
  · split <;> nofun
  · nofun

/-- Every path to the slot reads what has been stored there. -/
theorem readAt_of_trail_eq (goBy : GoBy steps path) (stored : storeAt new steps v = .ok v')
    (walks : GoBy walk other) (same : v.trail other = v.trail path) : readAt walk v' = .ok new := by
  induction goBy generalizing v v' walk other with
  | nil =>
    cases walks with
    | nil =>
      cases stored
      rfl
    | cons => exact absurd same (trail_cons_ne_nil _ _ _)
  | cons index _ ih =>
    rw [storeAt_cons, changeAt_eq_ok_iff index] at stored
    obtain ⟨items, at', changed, rfl, named, below, rfl⟩ := stored
    rw [trail_of_place named] at same
    cases walks with
    | nil => cases same
    | @cons _ j _ _ index' walks =>
      cases found : place items.length j.toInt with
      | none =>
        rw [trail_of_no_place found] at same
        cases same
      | some there =>
        -- both trails begin with the position of the item, so the walk goes into the changed one
        rw [trail_of_place found] at same
        obtain ⟨here, further⟩ := List.cons.inj same
        cases here
        rw [readAt_set_self index' found]
        exact ih below walks further

/-- A path that leaves the way to the slot reads what it read. -/
theorem readAt_of_apart (goBy : GoBy steps path) (stored : storeAt new steps v = .ok v')
    (walks : GoBy walk other) (outside : ¬ v.trail path <+: v.trail other)
    (aside : ¬ v.trail other <+: v.trail path) : readAt walk v' = readAt walk v := by
  induction goBy generalizing v v' walk other with
  | nil => exact absurd List.nil_prefix outside
  | cons index _ ih =>
    rw [storeAt_cons, changeAt_eq_ok_iff index] at stored
    obtain ⟨items, at', changed, rfl, named, below, rfl⟩ := stored
    cases walks with
    | nil => exact absurd List.nil_prefix aside
    | @cons _ j _ _ index' walks =>
      -- the paths part at this index, or further in
      by_cases found : place items.length j.toInt = some at'
      · rw [trail_of_place named, trail_of_place found, List.prefix_cons_inj] at outside aside
        rw [readAt_set_self index' found, readAt_of_place index' found]
        exact ih below walks outside aside
      · exact readAt_set_ne index' found changed

/-- The lists on the way to the slot keep their lengths. -/
theorem readAt_of_trail_prefix (goBy : GoBy steps path) (stored : storeAt new steps v = .ok v')
    (walks : GoBy walk other) (above : v.trail other <+: v.trail path)
    (short : v.trail other ≠ v.trail path) : ∃ items items', readAt walk v = .ok (list items) ∧
      readAt walk v' = .ok (list items') ∧ items'.length = items.length := by
  induction goBy generalizing v v' walk other with
  | nil => exact absurd (List.prefix_nil.1 above) short
  | cons index _ ih =>
    rw [storeAt_cons, changeAt_eq_ok_iff index] at stored
    obtain ⟨items, at', changed, rfl, named, below, rfl⟩ := stored
    cases walks with
    | nil => exact ⟨items, _, rfl, rfl, List.length_set⟩
    | @cons _ j _ _ index' walks =>
      rw [trail_of_place named] at above short
      cases found : place items.length j.toInt with
      | none =>
        rw [trail_of_no_place found] at above
        obtain ⟨here, -⟩ := List.cons_prefix_cons.1 above
        cases here
      | some there =>
        rw [trail_of_place found] at above short
        obtain ⟨here, further⟩ := List.cons_prefix_cons.1 above
        cases here
        rw [readAt_set_self index' found, readAt_of_place index' found]
        exact ih below walks further fun same => short (congrArg (some at' :: ·) same)

/-! ## Removing -/

/-- Removing an item is storing a list without it. -/
theorem removeAt_eq_ok_iff {last : PathStep} {i : Int64} (goBy : GoBy steps path)
    (index : last.index = int i) : removeAt (steps ++ [last]) v = .ok v' ↔
      ∃ items at', readAt steps v = .ok (list items) ∧ place items.length i.toInt = some at' ∧
        storeAt (list (items.eraseIdx at')) steps v = .ok v' := by
  -- By induction on the path: an inner list is changed and then stored in the outer one.
  induction goBy generalizing v v' with
  | nil =>
    rw [List.nil_append, removeAt_single_eq_ok_iff index]
    constructor
    · rintro ⟨items, at', rfl, named, rfl⟩
      exact ⟨items, at', rfl, named, rfl⟩
    · rintro ⟨items, at', here, named, stored⟩
      cases here
      cases stored
      exact ⟨items, at', rfl, named, rfl⟩
  | @cons step j steps path above goBy ih =>
    rw [List.cons_append, removeAt_cons step (by simp), changeAt_eq_ok_iff above]
    constructor
    · rintro ⟨outer, k, changed, rfl, found, removed, rfl⟩
      obtain ⟨items, at', inner, named, stored⟩ := ih.1 removed
      refine ⟨items, at', by rw [readAt_of_place above found, inner], named, ?_⟩
      rw [storeAt_cons, changeAt_eq_ok_iff above]
      exact ⟨outer, k, changed, rfl, found, stored, rfl⟩
    · rintro ⟨items, at', inner, named, stored⟩
      rw [storeAt_cons, changeAt_eq_ok_iff above] at stored
      obtain ⟨outer, k, changed, rfl, found, stored, rfl⟩ := stored
      rw [readAt_of_place above found] at inner
      exact ⟨outer, k, changed, rfl, found, ih.2 ⟨items, at', inner, named, stored⟩, rfl⟩

/-- A longer path leads to an item if it ends with one of the list at the end of the shorter path.
-/
theorem isSlot_append_iff {i : Int64} (goBy : GoBy steps path) : v.isSlot (path ++ [i]) = true ↔
    v.isSlot path = true ∧ ∃ items at', readAt steps v = .ok (list items) ∧
      place items.length i.toInt = some at' := by
  induction goBy generalizing v with
  | nil =>
    rw [List.nil_append, isSlot_cons_iff]
    constructor
    · rintro ⟨items, at', rfl, named, -⟩
      exact ⟨rfl, items, at', rfl, named⟩
    · rintro ⟨-, items, at', here, named⟩
      cases here
      exact ⟨items, at', rfl, named, rfl⟩
  | cons above _ ih =>
    rw [List.cons_append, isSlot_cons_iff, isSlot_cons_iff]
    constructor
    · rintro ⟨outer, k, rfl, found, slot⟩
      obtain ⟨inner, rest⟩ := ih.1 slot
      rw [readAt_of_place above found]
      exact ⟨⟨outer, k, rfl, found, inner⟩, rest⟩
    · rintro ⟨⟨outer, k, rfl, found, inner⟩, rest⟩
      rw [readAt_of_place above found] at rest
      exact ⟨outer, k, rfl, found, ih.2 ⟨inner, rest⟩⟩

/-- Removing succeeds where storing does. -/
theorem exists_removeAt_iff {last : PathStep} {i : Int64} (goBy : GoBy steps path)
    (index : last.index = int i) :
    (∃ v', removeAt (steps ++ [last]) v = .ok v') ↔ v.isSlot (path ++ [i]) = true := by
  rw [isSlot_append_iff goBy]
  constructor
  · rintro ⟨v', removed⟩
    obtain ⟨items, at', inner, named, stored⟩ := (removeAt_eq_ok_iff goBy index).1 removed
    exact ⟨(exists_storeAt_iff _ goBy).1 ⟨v', stored⟩, items, at', inner, named⟩
  · rintro ⟨slot, items, at', inner, named⟩
    obtain ⟨v', stored⟩ := (exists_storeAt_iff (list (items.eraseIdx at')) goBy).2 slot
    exact ⟨v', (removeAt_eq_ok_iff goBy index).2 ⟨items, at', inner, named, stored⟩⟩

end Laws

end Value

/-! ## Elements of variables -/

section Variables

open Value (GoBy readAt storeAt removeAt)

variable {id : String} {target e : Expr} {path : List Int64} {steps : List PathStep} {m : Machine}
  {root new v' : Value}

/-- A target is found without a change of the machine, and read by the same steps. -/
theorem IsElement.exists_steps (element : IsElement id e path) : ∃ span steps, GoBy steps path ∧
    (∀ m, (Action.path e).runOn m = (.ok ⟨id, span, steps⟩, m)) ∧
      ∀ g root, g.get? id = some root → e.eval g = ⟨"", readAt steps root⟩ := by
  induction element with
  | bare span =>
    refine ⟨span, [], .nil, fun m => rfl, fun g root bound => ?_⟩
    rw [Expr.eval, Globals.resolve, bound]
    rfl
  | @item span base index path negative n _ literal nonneg ih =>
    obtain ⟨nameSpan, steps, goBy, found, reads⟩ := ih
    have value : index.HasValue (.int (if negative then -n else n)) :=
      Expr.hasValue_of_signed? literal (decide_eq_true nonneg)
    generalize (if negative then -n else n) = i at value
    refine ⟨nameSpan, steps ++ [⟨.int i, span⟩], List.rel_append goBy (.cons rfl .nil), fun m => ?_,
      fun g root bound => ?_⟩
    · have evaluated : (Action.evaluate index).runOn m = (.ok (.int i), m) := by
        rw [Action.runOn_evaluate, value]
        exact congrArg (Prod.mk _) (congrArg (Machine.mk _ _) String.append_empty)
      rw [Action.path, Action.runOn_bind_ok evaluated, Action.runOn_bind_ok (found m)]
      rfl
    · rw [value.eval_subscript, reads g root bound, Value.readAt_append]
      cases readAt steps root with
      | error fault => rfl
      | ok w =>
        change (Traced.pure w).bind _ = ⟨"", readAt [⟨.int i, span⟩] w⟩
        rw [Traced.pure_bind, readAt]
        cases w.itemAt (.int i) <;> rfl

namespace Action

/-- The value of a variable is changed by what the steps of the place do to it. -/
theorem runOn_update {p : ElementPath} (change : List PathStep → Value → Except Fault Value)
    (bound : m.globals.get? p.name = some root) : (update p change).runOn m =
      match change p.steps root with
      | .ok v' => (.ok (), { m with globals := m.globals.set p.name v' })
      | .error fault => (.error fault, m) := by
  rw [update, runOn_bind_ok (runOn_get m), bound]
  dsimp only
  cases change p.steps root <;> rfl

/-- A variable without a value cannot be changed. -/
theorem runOn_update_of_unbound {p : ElementPath}
    (change : List PathStep → Value → Except Fault Value) (unbound : m.globals.get? p.name = none) :
    (update p change).runOn m = (.error ⟨.undefinedName p.name, p.nameSpan⟩, m) := by
  rw [update, runOn_bind_ok (runOn_get m), unbound]
  rfl

/-- An action succeeds where a path of the variable `id` leads to an item of a list, and then it has an
effect.  Elsewhere it fails and changes nothing. -/
def Hits (a : Action Unit) (m : Machine) (id : String) (path : List Int64)
    (Effect : Value → Machine → Prop) : Prop :=
  (∃ root after, m.globals.get? id = some root ∧ root.isSlot path = true ∧
    a.runOn m = (.ok (), after) ∧ Effect root after) ∨
  (∀ root, m.globals.get? id = some root → root.isSlot path = false) ∧
    ∃ fault, a.runOn m = (.error fault, m)

/-- What replaces the value of a variable hits exactly where the change succeeds. -/
theorem hits_of_update {a : Action Unit} {span : Span}
    {change : List PathStep → Value → Except Fault Value} {Effect : Value → Machine → Prop}
    (ran : a.runOn m = (update ⟨id, span, steps⟩ change).runOn m)
    (succeeds : ∀ root : Value, (∃ v', change steps root = .ok v') ↔ root.isSlot path = true)
    (effect : ∀ root v', m.globals.get? id = some root → change steps root = .ok v' →
      Effect root { m with globals := m.globals.set id v' }) : a.Hits m id path Effect := by
  cases bound : m.globals.get? id with
  | none =>
    refine .inr ⟨fun root other => ?_, _, ran.trans (runOn_update_of_unbound change bound)⟩
    cases bound.symm.trans other
  | some root =>
    have changed := ran.trans (runOn_update change bound)
    cases result : change steps root with
    | ok v' =>
      rw [result] at changed
      exact .inl ⟨root, _, bound, (succeeds root).1 ⟨v', result⟩, changed,
        effect root v' bound result⟩
    | error fault =>
      rw [result] at changed
      refine .inr ⟨fun root' other => ?_, fault, changed⟩
      obtain rfl := Option.some.inj (bound.symm.trans other)
      rw [Bool.eq_false_iff]
      intro slot
      obtain ⟨v', other⟩ := (succeeds root).2 slot
      cases result.symm.trans other

end Action

namespace Machine

/-- Between two machines, something else has come to stand at the end of a path of the variable `id`.
Paths are told apart by the positions that they go through in the value that the variable had. -/
structure Replaces (before after : Machine) (id : String) (root : Value) (path : List Int64)
    (new : Value) : Prop where
  /-- Every path to the slot reads what came there. -/
  reads : ∀ e other, IsElement id e other → root.trail other = root.trail path →
    e.eval after.globals = ⟨"", .ok new⟩
  /-- A path that neither passes through the slot nor ends above it evaluates as before. -/
  apart : ∀ e other, IsElement id e other → ¬ root.trail path <+: root.trail other →
    ¬ root.trail other <+: root.trail path → e.eval after.globals = e.eval before.globals
  /-- A path that ends above the slot reads a list, of the same length as before. -/
  lengths : ∀ e other, IsElement id e other → root.trail other <+: root.trail path →
    root.trail other ≠ root.trail path → ∃ items items',
      e.eval before.globals = ⟨"", .ok (.list items)⟩ ∧
        e.eval after.globals = ⟨"", .ok (.list items')⟩ ∧ items'.length = items.length
  /-- The other variables are as they were. -/
  others : ∀ other, other ≠ id → after.globals.get? other = before.globals.get? other
  /-- So are the loops that are under way, and what has been printed. -/
  kept : after = { before with globals := after.globals }

/-- Between two machines, exactly the item at the end of a path of the variable `id` has gone from its
list, in which the others have kept their order. -/
def Removes (before after : Machine) (id : String) (root : Value) (path : List Int64) : Prop :=
  ∃ above last front old back, path = above ++ [last] ∧
    place (front ++ old :: back).length last.toInt = some front.length ∧
    (∀ e, IsElement id e path → e.eval before.globals = ⟨"", .ok old⟩) ∧
    (∀ e, IsElement id e above →
      e.eval before.globals = ⟨"", .ok (.list (front ++ old :: back))⟩) ∧
    before.Replaces after id root above (.list (front ++ back))

/-- A value that is stored replaces what was at the end of the path. -/
theorem replaces_of_storeAt (bound : m.globals.get? id = some root) (goBy : GoBy steps path)
    (stored : storeAt new steps root = .ok v') :
    m.Replaces { m with globals := m.globals.set id v' } id root path new := by
  have bound' : (m.globals.set id v').get? id = some v' := by rw [Globals.get?_set, if_pos rfl]
  refine ⟨?_, ?_, ?_, fun other ne => by rw [Globals.get?_set, if_neg ne], rfl⟩
  · intro e other element same
    obtain ⟨-, walk, walks, -, eval⟩ := element.exists_steps
    rw [eval _ v' bound', Value.readAt_of_trail_eq goBy stored walks same]
  · intro e other element outside aside
    obtain ⟨-, walk, walks, -, eval⟩ := element.exists_steps
    rw [eval _ v' bound', eval _ root bound,
      Value.readAt_of_apart goBy stored walks outside aside]
  · intro e other element above short
    obtain ⟨-, walk, walks, -, eval⟩ := element.exists_steps
    obtain ⟨items, items', reads, reads', size⟩ :=
      Value.readAt_of_trail_prefix goBy stored walks above short
    exact ⟨items, items', by rw [eval _ root bound, reads], by rw [eval _ v' bound', reads'], size⟩

/-- A removal takes exactly the named item away. -/
theorem removes_of_removeAt {last : PathStep} {i : Int64} (bound : m.globals.get? id = some root)
    (goBy : GoBy steps path) (index : last.index = .int i)
    (removed : removeAt (steps ++ [last]) root = .ok v') :
    m.Removes { m with globals := m.globals.set id v' } id root (path ++ [i]) := by
  obtain ⟨items, at', reads, named, stored⟩ := (Value.removeAt_eq_ok_iff goBy index).1 removed
  have inside := lt_of_place named
  have whole : items.take at' ++ items[at'] :: items.drop (at' + 1) = items := by
    rw [← List.drop_eq_getElem_cons inside, List.take_append_drop]
  have size : (items.take at').length = at' := by rw [List.length_take, Nat.min_eq_left inside.le]
  refine ⟨path, i, items.take at', items[at'], items.drop (at' + 1), rfl, ?_, ?_, ?_, ?_⟩
  · rw [whole, size, named]
  · intro e element
    obtain ⟨-, walk, walks, -, eval⟩ := element.exists_steps
    have last : readAt (steps ++ [last]) root = .ok items[at'] := by
      rw [Value.readAt_append, reads, Except.bind, Value.readAt_of_place index named,
        List.getD_eq_getElem?_getD, List.getElem?_eq_getElem inside]
      rfl
    rw [eval _ root bound, Value.readAt_of_goBy (List.rel_append goBy (.cons index .nil)) walks last]
  · intro e element
    obtain ⟨-, walk, walks, -, eval⟩ := element.exists_steps
    rw [whole, eval _ root bound, Value.readAt_of_goBy goBy walks reads]
  · rw [← List.eraseIdx_eq_take_drop_succ]
    exact replaces_of_storeAt bound goBy stored

end Machine

/-- Storing at an element and removing it succeed exactly where the element is an item of a list at the
end of lists.  Storing puts the value where all paths to the element read it, removing takes the
element out of its list, and what no path to the element goes through is as it was. -/
theorem IsElement.stores_and_removes (element : IsElement id target path) (indexed : path ≠ [])
    (m : Machine) :
    (∀ v, (Action.assign target v).Hits m id path fun root after => m.Replaces after id root path v) ∧
      (Action.delete target).Hits m id path fun root after => m.Removes after id root path := by
  obtain ⟨nameSpan, steps, goBy, found, -⟩ := element.exists_steps
  cases element with
  | bare => exact absurd rfl indexed
  | @item span base index above negative n =>
    generalize (if negative then -n else n) = i at goBy
    constructor
    · intro v
      have ran : (Action.assign (.subscript span base index) v).runOn m =
          (Action.update ⟨id, nameSpan, steps⟩ (storeAt v)).runOn m := by
        rw [Action.assign, Action.runOn_bind_ok (found m)]
      exact Action.hits_of_update ran (fun root => Value.exists_storeAt_iff v goBy)
        fun root v' bound stored => Machine.replaces_of_storeAt bound goBy stored
    · have ran : (Action.delete (.subscript span base index)).runOn m =
          (Action.update ⟨id, nameSpan, steps⟩ removeAt).runOn m := by
        rw [Action.delete, Action.runOn_bind_ok (found m)]
      obtain ⟨front, last, rfl, goFront, index⟩ := Value.exists_of_goBy_append goBy
      exact Action.hits_of_update ran (fun root => Value.exists_removeAt_iff goFront index)
        fun root v' bound removed => Machine.removes_of_removeAt bound goFront index removed

/-- The target `x[0][-1]`. -/
def lastOfFirst : Expr :=
  .subscript .none (.subscript .none (.name .none "x") (.constant .none (.int 0)))
    (.unary .none .neg (.constant .none (.int 1)))

/-- The target `x[-2][1]`. -/
def secondOfLastButOne : Expr :=
  .subscript .none (.subscript .none (.name .none "x") (.unary .none .neg (.constant .none (.int 2))))
    (.constant .none (.int 1))

/-- In `[[1, 2], 7]` two spellings of one element: 9 is stored by one of them and read by the other. -/
theorem IsElement.stores_and_removes_lastOfFirst :
    IsElement "x" lastOfFirst [0, -1] ∧ ([0, -1] : List Int64) ≠ [] ∧
      ∃ root : Value, root = .list [.list [.int 1, .int 2], .int 7] ∧
        (∃ after,
          (Action.assign lastOfFirst (.int 9)).runOn ⟨⟨[("x", root)]⟩, [], ""⟩ = (.ok (), after) ∧
          secondOfLastButOne.eval after.globals = ⟨"", .ok (.int 9)⟩) ∧
        ∃ after, (Action.delete lastOfFirst).runOn ⟨⟨[("x", root)]⟩, [], ""⟩ = (.ok (), after) ∧
          Machine.Removes ⟨⟨[("x", root)]⟩, [], ""⟩ after "x" root [0, -1] := by
  have element : IsElement "x" lastOfFirst [0, -1] :=
    @IsElement.item _ _ _ _ [0] true 1 (@IsElement.item _ _ _ _ [] false 0 (.bare _) rfl (by decide))
      rfl (by decide)
  have spelling : IsElement "x" secondOfLastButOne [-2, 1] :=
    @IsElement.item _ _ _ _ [-2] false 1 (@IsElement.item _ _ _ _ [] true 2 (.bare _) rfl (by decide))
      rfl (by decide)
  obtain ⟨stores, removes⟩ := element.stores_and_removes (by decide)
    ⟨⟨[("x", .list [.list [.int 1, .int 2], .int 7])]⟩, [], ""⟩
  refine ⟨element, by decide, _, rfl, ?_, ?_⟩
  · rcases stores (.int 9) with ⟨root, after, bound, -, ran, replaces⟩ | ⟨missing, -⟩
    · cases bound
      exact ⟨after, ran, replaces.reads _ _ spelling (by decide)⟩
    · exact absurd (missing _ rfl) (by decide)
  · rcases removes with ⟨root, after, bound, -, ran, gone⟩ | ⟨missing, -⟩
    · cases bound
      exact ⟨after, ran, gone⟩
    · exact absurd (missing _ rfl) (by decide)

end Variables

end BlockEditor
