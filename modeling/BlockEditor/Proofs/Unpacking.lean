import BlockEditor.Machine.Assign
import BlockEditor.Syntax.Expression
import Mathlib.Data.List.Nodup

/-!
# Unpacking

A pattern of names takes a value apart level by level.  Every level needs as many items as it has
targets, or with a star at least as many as stand without one; the items go to the targets in order, and
none is lost or given twice.
-/

namespace BlockEditor

/-! ## Patterns -/

namespace Expr

/-- The targets of a tuple or of a list. -/
def targets? : Expr → Option (List Expr)
  | tuple _ targets | list _ targets => some targets
  | _ => none

/-- A target without its star. -/
def unstarred : Expr → Expr
  | starred _ inner => inner
  | e => e

mutual

/-- The names in a target from left to right. -/
def names : Expr → List String
  | name _ id => [id]
  | starred _ inner => names inner
  | tuple _ targets | list _ targets => namesIn targets
  | _ => []

/-- The names in neighbouring targets. -/
def namesIn : List Expr → List String
  | [] => []
  | target :: targets => names target ++ namesIn targets

end

/-- A target that is made of names: a name, or a tuple or list of such targets, in which each star stands
on a name, a tuple or a list. -/
inductive IsPattern : Expr → Prop
  | bare (span : Span) (id : String) : IsPattern (name span id)
  | sequence {e : Expr} {targets : List Expr} (form : e.targets? = some targets)
      (each : ∀ target ∈ targets, IsPattern target.unstarred) : IsPattern e

variable {e target : Expr} {targets : List Expr}

/-- A star adds no name to a target. -/
theorem names_unstarred (e : Expr) : e.unstarred.names = e.names := by
  cases e <;> rfl

/-- The names in neighbouring targets are those in each of them. -/
theorem namesIn_eq (targets : List Expr) : namesIn targets = targets.flatMap names := by
  induction targets with
  | nil => rfl
  | cons target targets ih => rw [namesIn, ih, List.flatMap_cons]

/-- The names in a pattern are those in its targets. -/
theorem names_of_targets? (form : e.targets? = some targets) : e.names = namesIn targets := by
  cases e with
  | tuple | list =>
    cases form
    rfl
  | _ => cases form

/-- Targets that are accepted together are accepted one by one. -/
theorem checkTarget_of_checkTargets (accepted : checkTargets targets = .ok ()) :
    ∀ target ∈ targets, checkTarget target.unstarred = .ok () := by
  induction targets with
  | nil => exact List.forall_mem_nil _
  | cons first targets ih =>
    rw [checkTargets] at accepted
    cases here : checkTarget first with
    | error fault =>
      rw [here] at accepted
      cases accepted
    | ok =>
      rw [here] at accepted
      refine List.forall_mem_cons.2 ⟨?_, ih accepted⟩
      cases first with
      | starred =>
        rw [checkTarget] at here
        exact here
      | _ => exact here

/-- A pattern that can be assigned to has at most one star at each level. -/
theorem checkTarget_of_targets? (form : e.targets? = some targets) (accepted : checkTarget e = .ok ()) :
    targets.countP isStarred ≤ 1 ∧ ∀ target ∈ targets, checkTarget target.unstarred = .ok () := by
  cases e with
  | tuple | list =>
    cases form
    rw [checkTarget] at accepted
    split at accepted
    · cases accepted
    · exact ⟨by omega, checkTarget_of_checkTargets accepted⟩
  | _ => cases form

end Expr

namespace Unpacking

open BlockEditor.Expr (isStarred unstarred)

/-! ## Items and targets -/

/-- Targets take items from left to right, and all of them: each target one item, and a starred one any
number of items in a row as a list. -/
inductive Takes : List Expr → List Value → List Value → Prop
  | nothing : Takes [] [] []
  | one {target : Expr} {targets : List Expr} {item : Value} {items parts : List Value} :
      target.isStarred = false → Takes targets items parts →
      Takes (target :: targets) (item :: items) (item :: parts)
  | run {span : Span} {inner : Expr} {targets : List Expr} {taken items parts : List Value} :
      Takes targets items parts →
      Takes (.starred span inner :: targets) (taken ++ items) (.list taken :: parts)

/-- A number of items is the number of targets, or with a star at least the number of those without
one. -/
def Admits (targets : List Expr) (count : Nat) : Prop :=
  if targets.any isStarred then targets.countP (fun target => !target.isStarred) ≤ count
  else count = targets.length

/-- What is wrong with a number of items that targets do not admit. -/
def miscount (targets : List Expr) (count : Nat) : ValueFault :=
  if targets.any isStarred then
    .tooFewItems true (targets.countP fun target => !target.isStarred) count
  else if count < targets.length then .tooFewItems false targets.length count
  else .tooManyItems targets.length

section Items

variable {targets front back : List Expr} {items parts : List Value} {span : Span} {inner : Expr}

/-- Targets without a star take the items as they are. -/
theorem takes_plain_iff (plain : ∀ target ∈ targets, target.isStarred = false) :
    Takes targets items parts ↔ parts = items ∧ items.length = targets.length := by
  induction targets generalizing items parts with
  | nil =>
    constructor
    · rintro ⟨⟩
      exact ⟨rfl, rfl⟩
    · rintro ⟨rfl, none⟩
      rw [List.length_eq_zero_iff.1 none]
      exact .nothing
  | cons target targets ih =>
    obtain ⟨bare, others⟩ := List.forall_mem_cons.1 plain
    constructor
    · intro takes
      cases takes with
      | one _ rest =>
        obtain ⟨rfl, size⟩ := (ih others).1 rest
        exact ⟨rfl, congrArg Nat.succ size⟩
      | run => cases bare
    · rintro ⟨rfl, size⟩
      cases parts with
      | nil => cases size
      | cons item items => exact .one bare ((ih others).2 ⟨rfl, Nat.succ.inj size⟩)

/-- Targets in a row take one part of the items after the other. -/
theorem takes_append_iff : Takes (front ++ back) items parts ↔ ∃ first last firstParts lastParts,
    items = first ++ last ∧ parts = firstParts ++ lastParts ∧ Takes front first firstParts ∧
      Takes back last lastParts := by
  constructor
  · intro takes
    induction front generalizing items parts with
    | nil => exact ⟨[], items, [], parts, rfl, rfl, .nothing, takes⟩
    | cons target front ih =>
      cases takes with
      | one bare rest =>
        obtain ⟨first, last, firstParts, lastParts, rfl, rfl, left, right⟩ := ih rest
        exact ⟨_ :: first, last, _ :: firstParts, lastParts, rfl, rfl, .one bare left, right⟩
      | @run _ _ _ taken _ _ rest =>
        obtain ⟨first, last, firstParts, lastParts, rfl, rfl, left, right⟩ := ih rest
        exact ⟨taken ++ first, last, _ :: firstParts, lastParts, (List.append_assoc ..).symm, rfl,
          .run left, right⟩
  · rintro ⟨first, last, firstParts, lastParts, rfl, rfl, left, right⟩
    induction left with
    | nothing => exact right
    | one bare _ ih => exact .one bare ih
    | run _ ih =>
      rw [List.append_assoc]
      exact .run ih

/-- A starred target takes what those in front of it and behind it leave. -/
theorem takes_starred_iff (before : ∀ target ∈ front, target.isStarred = false)
    (behind : ∀ target ∈ back, target.isStarred = false) :
    Takes (front ++ .starred span inner :: back) items parts ↔ ∃ first taken last,
      items = first ++ (taken ++ last) ∧ parts = first ++ .list taken :: last ∧
        first.length = front.length ∧ last.length = back.length := by
  rw [takes_append_iff]
  constructor
  · rintro ⟨first, _, firstParts, _, rfl, rfl, left, right⟩
    obtain ⟨rfl, size⟩ := (takes_plain_iff before).1 left
    cases right with
    | one starred => cases starred
    | run rest =>
      obtain ⟨rfl, size'⟩ := (takes_plain_iff behind).1 rest
      exact ⟨_, _, _, rfl, rfl, size, size'⟩
  · rintro ⟨first, taken, last, rfl, rfl, size, size'⟩
    exact ⟨first, taken ++ last, first, .list taken :: last, rfl, rfl,
      (takes_plain_iff before).2 ⟨rfl, size⟩, .run ((takes_plain_iff behind).2 ⟨rfl, size'⟩)⟩

/-- Targets of which at most one is starred have no star, or one between others without. -/
theorem plain_or_starred (single : targets.countP isStarred ≤ 1) :
    (∀ target ∈ targets, target.isStarred = false) ∨ ∃ front span inner back,
      targets = front ++ .starred span inner :: back ∧
        (∀ target ∈ front, target.isStarred = false) ∧ ∀ target ∈ back, target.isStarred = false := by
  induction targets with
  | nil => exact .inl nofun
  | cons target targets ih =>
    rw [List.countP_cons] at single
    cases starred : target.isStarred with
    | false =>
      rcases ih (by omega) with plain | ⟨front, span, inner, back, rfl, before, behind⟩
      · exact .inl (List.forall_mem_cons.2 ⟨starred, plain⟩)
      · exact .inr ⟨target :: front, span, inner, back, rfl,
          List.forall_mem_cons.2 ⟨starred, before⟩, behind⟩
    | true =>
      rw [starred, if_pos rfl] at single
      have none : ∀ other ∈ targets, other.isStarred = false := fun other member =>
        Bool.eq_false_iff.2 (List.countP_eq_zero.1 (by omega) other member)
      cases target with
      | starred span inner => exact .inr ⟨[], span, inner, targets, rfl, nofun, none⟩
      | _ => cases starred

/-- Without a star, the items are distributed if there are as many as targets. -/
theorem distribute_plain (plain : ∀ target ∈ targets, target.isStarred = false)
    (items : List Value) : Action.distribute targets items =
      if items.length = targets.length then .ok items
      else .error (.invalidValue (miscount targets items.length)) := by
  have star : Action.starPosition? targets = none := List.findIdx?_eq_none_iff.2 plain
  have none : targets.any isStarred = false := List.any_eq_false.2 fun target member =>
    Bool.eq_false_iff.1 (plain target member)
  rw [Action.distribute, star, miscount, none]
  dsimp only
  split
  · rw [if_neg (by omega)]
    rfl
  · split
    · rw [if_neg (by omega)]
      rfl
    · rw [if_pos (by omega)]

/-- With a star, they are if there are at least as many as targets without one. -/
theorem distribute_starred (before : ∀ target ∈ front, target.isStarred = false)
    (span : Span) (inner : Expr) (back : List Expr) (items : List Value) :
    Action.distribute (front ++ .starred span inner :: back) items =
      if front.length + back.length ≤ items.length then
        .ok ((items.take (items.length - back.length)).take front.length ++
          .list ((items.take (items.length - back.length)).drop front.length) ::
          items.drop (items.length - back.length))
      else .error (.invalidValue (.tooFewItems true (front.length + back.length) items.length)) := by
  have none : front.findIdx? isStarred = none := List.findIdx?_eq_none_iff.2 before
  have star : Action.starPosition? (front ++ .starred span inner :: back) = some front.length := by
    rw [Action.starPosition?, List.findIdx?_append, none, List.findIdx?_cons,
      if_pos (show (Expr.starred span inner).isStarred = true from rfl)]
    simp
  have fixed : Checked.difference (front ++ .starred span inner :: back).length 1 =
      .ok (front.length + back.length) := by
    rw [List.length_append, List.length_cons, Checked.difference, if_pos (by omega)]
    rfl
  -- with enough items, neither the differences nor the cuts can fail
  rw [Action.distribute, star]
  dsimp only
  rw [fixed]
  change (if items.length < front.length + back.length then _ else _) = _
  split
  · rw [if_neg (by omega)]
  · rename_i enough
    have rest : Checked.difference (front.length + back.length) front.length = .ok back.length := by
      rw [Checked.difference, if_pos (by omega), Nat.add_sub_cancel_left]
    have cut : Checked.difference items.length back.length = .ok (items.length - back.length) := by
      rw [Checked.difference, if_pos (by omega)]
    have outer : Checked.split items (items.length - back.length) =
        .ok (items.take (items.length - back.length), items.drop (items.length - back.length)) := by
      rw [Checked.split, if_pos (by omega), List.splitAt_eq]
    have inside : front.length ≤ (items.take (items.length - back.length)).length := by
      rw [List.length_take]
      omega
    rw [if_pos (by omega), rest]
    change (Checked.difference items.length back.length).bind _ = _
    rw [cut]
    change (Checked.split items (items.length - back.length)).bind _ = _
    rw [outer]
    change (Checked.split (items.take (items.length - back.length)) front.length).bind _ = _
    rw [Checked.split, if_pos inside, List.splitAt_eq]
    change Except.ok (_ ++ [_] ++ _) = _
    rw [List.append_assoc]
    rfl

/-- The parts of a sequence are what the targets take of it. -/
theorem distribute_of_takes (single : targets.countP isStarred ≤ 1) (takes : Takes targets items parts) :
    Action.distribute targets items = .ok parts := by
  rcases plain_or_starred single with plain | ⟨front, span, inner, back, rfl, before, behind⟩
  · obtain ⟨rfl, size⟩ := (takes_plain_iff plain).1 takes
    rw [distribute_plain plain, if_pos size]
  · obtain ⟨first, taken, last, rfl, rfl, size, size'⟩ := (takes_starred_iff before behind).1 takes
    have whole : (first ++ (taken ++ last)).length - back.length = (first ++ taken).length := by
      simp only [List.length_append]
      omega
    rw [distribute_starred before, if_pos (by simp only [List.length_append]; omega), whole,
      ← List.append_assoc, List.take_left, List.drop_left, ← size, List.take_left, List.drop_left]

/-- So the items and the targets decide what the parts are. -/
theorem Takes.unique {parts' : List Value} (single : targets.countP isStarred ≤ 1)
    (takes : Takes targets items parts) (takes' : Takes targets items parts') : parts = parts' :=
  Except.ok.inj ((distribute_of_takes single takes).symm.trans (distribute_of_takes single takes'))

/-- Without a star, all targets count. -/
theorem countP_plain (plain : ∀ target ∈ targets, target.isStarred = false) :
    targets.countP (fun target => !target.isStarred) = targets.length :=
  List.countP_eq_length.2 fun target member => by rw [plain target member]; rfl

/-- Targets without a star admit their own number of items. -/
theorem admits_plain_iff (plain : ∀ target ∈ targets, target.isStarred = false) {count : Nat} :
    Admits targets count ↔ count = targets.length := by
  have none : targets.any isStarred = false := List.any_eq_false.2 fun target member =>
    Bool.eq_false_iff.1 (plain target member)
  rw [Admits, none, if_neg nofun]

/-- A star among targets is one of them, and does not count. -/
theorem starred_facts (before : ∀ target ∈ front, target.isStarred = false)
    (behind : ∀ target ∈ back, target.isStarred = false) (span : Span) (inner : Expr) :
    (front ++ .starred span inner :: back).any isStarred = true ∧
      (front ++ .starred span inner :: back).countP (fun target => !target.isStarred) =
        front.length + back.length := by
  constructor
  · rw [List.any_append, List.any_cons]
    simp [isStarred]
  · rw [List.countP_append, List.countP_cons, countP_plain before, countP_plain behind]
    rfl

/-- As many items as the targets admit are taken. -/
theorem exists_takes (single : targets.countP isStarred ≤ 1) (admitted : Admits targets items.length) :
    ∃ parts, Takes targets items parts := by
  rcases plain_or_starred single with plain | ⟨front, span, inner, back, rfl, before, behind⟩
  · rw [admits_plain_iff plain] at admitted
    exact ⟨items, (takes_plain_iff plain).2 ⟨rfl, admitted⟩⟩
  · obtain ⟨some, count⟩ := starred_facts before behind span inner
    rw [Admits, some, if_pos rfl, count] at admitted
    refine ⟨_, (takes_starred_iff before behind).2 ⟨items.take front.length,
      (items.drop front.length).take (items.length - front.length - back.length),
      (items.drop front.length).drop (items.length - front.length - back.length), ?_, rfl, ?_, ?_⟩⟩
    · rw [List.take_append_drop, List.take_append_drop]
    · rw [List.length_take]
      omega
    · rw [List.length_drop, List.length_drop]
      omega

/-- Any other number of items is refused. -/
theorem distribute_of_not_admits (single : targets.countP isStarred ≤ 1)
    (refused : ¬ Admits targets items.length) :
    Action.distribute targets items = .error (.invalidValue (miscount targets items.length)) := by
  rcases plain_or_starred single with plain | ⟨front, span, inner, back, rfl, before, behind⟩
  · rw [admits_plain_iff plain] at refused
    rw [distribute_plain plain, if_neg refused]
  · obtain ⟨some, count⟩ := starred_facts before behind span inner
    rw [Admits, some, if_pos rfl, count] at refused
    rw [distribute_starred before, if_neg refused, miscount, some, if_pos rfl, count]

end Items

/-! ## Levels -/

/-- The targets and values that come together where a value is taken apart: the whole, and what each
target of a level takes. -/
inductive Level : Expr → Value → Expr → Value → Prop
  | top (e : Expr) (v : Value) : Level e v e v
  | inner {e sub : Expr} {v w : Value} {targets : List Expr} {items parts : List Value}
      {p : Expr × Value} (form : e.targets? = some targets) (opened : v.items? = some items)
      (takes : Takes targets items parts) (member : p ∈ (targets.map unstarred).zip parts)
      (below : Level p.1 p.2 sub w) : Level e v sub w

/-- A value is one that a target can take: a sequence of as many items as the targets of a level admit.
A name takes any value. -/
def Opens (e : Expr) (v : Value) : Prop :=
  ∀ targets, e.targets? = some targets → ∃ items, v.items? = some items ∧ Admits targets items.length

/-- The failure at a level that cannot take a value: a value error where the count is wrong, a type error
where there is nothing to count. -/
def refusal (e : Expr) (v : Value) : Fault :=
  match v.items? with
  | some items => ⟨.invalidValue (miscount (e.targets?.getD []) items.length), e.span⟩
  | none => ⟨.typeMismatch (.notIterable v.typeName), e.span⟩

/-- The variables hold what a target takes of a value: at every level the targets take all items in order,
and each name has what it took. -/
inductive Holds (g : Globals) : Expr → Value → Prop
  | bare {span : Span} {id : String} {v : Value} : g.get? id = some v → Holds g (.name span id) v
  | sequence {e : Expr} {v : Value} {targets : List Expr} {items parts : List Value}
      (form : e.targets? = some targets) (opened : v.items? = some items)
      (takes : Takes targets items parts)
      (each : ∀ p ∈ (targets.map unstarred).zip parts, Holds g p.1 p.2) : Holds g e v

section Levels

variable {e sub : Expr} {v w : Value} {targets : List Expr} {g g' : Globals}

/-- Distinct names in targets are distinct in each of them. -/
theorem nodup_names {target : Expr} (distinct : (Expr.namesIn targets).Nodup)
    (member : target ∈ targets) : target.unstarred.names.Nodup := by
  rw [Expr.namesIn_eq] at distinct
  rw [Expr.names_unstarred]
  exact (List.nodup_flatMap.1 distinct).1 target member

/-- A name in a target that takes a part is a name in the targets. -/
theorem names_of_mem_zip {p : Expr × Value} {parts : List Value}
    (member : p ∈ (targets.map unstarred).zip parts) {id : String} (named : id ∈ p.1.names) :
    id ∈ Expr.namesIn targets := by
  obtain ⟨target, inside, same⟩ := List.mem_map.1 (List.of_mem_zip member).1
  rw [← same, Expr.names_unstarred] at named
  rw [Expr.namesIn_eq]
  exact List.mem_flatMap.2 ⟨target, inside, named⟩

/-- The names of a level are names of the whole. -/
theorem Level.names_subset (level : Level e v sub w) : sub.names ⊆ e.names := by
  induction level with
  | top => exact List.Subset.refl _
  | inner form _ _ member _ ih =>
    intro id named
    rw [Expr.names_of_targets? form]
    exact names_of_mem_zip member (ih named)

/-- The names of the levels of parts are names of the targets that take them. -/
theorem names_subset_of_level {parts : List Value}
    (level : ∃ p ∈ (targets.map unstarred).zip parts, Level p.1 p.2 sub w) :
    sub.names ⊆ Expr.namesIn targets := by
  obtain ⟨p, member, below⟩ := level
  exact fun id named => names_of_mem_zip member (below.names_subset named)

/-- What a target holds is in the variables that it names. -/
theorem Holds.congr (holds : Holds g e v) (same : ∀ id ∈ e.names, g'.get? id = g.get? id) :
    Holds g' e v := by
  induction holds with
  | bare bound => exact .bare ((same _ (List.mem_singleton.2 rfl)).trans bound)
  | sequence form opened takes each ih =>
    refine .sequence form opened takes fun p member => ih p member fun id named => same id ?_
    rw [Expr.names_of_targets? form]
    exact names_of_mem_zip member named

end Levels

/-! ## Assignments -/

/-- What an action does that takes values apart at some levels, as a run of it shows. -/
structure Unpacked (levels : Expr → Value → Prop) (held : Globals → Prop) (names : List String)
    (before : Machine) (result : Except Fault Unit) (after : Machine) : Prop where
  /-- It succeeds exactly if every level can take its value. -/
  succeeds : result = .ok () ↔ ∀ e v, levels e v → Opens e v
  /-- Then the variables hold the items. -/
  holds : result = .ok () → held after.globals
  /-- It fails at a level that cannot take its value. -/
  refused : ∀ fault, result = .error fault → ∃ e v, levels e v ∧ ¬ Opens e v ∧ fault = refusal e v
  /-- No name of such a level has been given a value. -/
  unbound : ∀ e v, levels e v → ¬ Opens e v →
    ∀ id ∈ e.names, after.globals.get? id = before.globals.get? id
  /-- Nor has another variable. -/
  others : ∀ id ∉ names, after.globals.get? id = before.globals.get? id
  /-- The loops that are under way and what has been printed are as they were. -/
  kept : after = { before with globals := after.globals }

section Runs

variable {levels levels' : Expr → Value → Prop} {held held' : Globals → Prop} {names names' : List String}
  {m m₁ m₂ : Machine} {r : Except Fault Unit}

/-- A failure ends what it is a part of, and the levels behind it are not come to. -/
theorem Unpacked.stop {fault : Fault} (first : Unpacked levels held names m (.error fault) m₁)
    (apart : names.Disjoint names') (within : ∀ e v, levels' e v → e.names ⊆ names') :
    Unpacked (fun e v => levels e v ∨ levels' e v) (fun g => held g ∧ held' g) (names ++ names') m
      (.error fault) m₁ where
  succeeds := by
    obtain ⟨e, v, level, closed, -⟩ := first.refused fault rfl
    exact iff_of_false nofun fun all => closed (all e v (.inl level))
  holds := nofun
  refused := fun _ same =>
    let ⟨e, v, level, rest⟩ := first.refused _ same
    ⟨e, v, .inl level, rest⟩
  unbound := by
    rintro e v (level | level) closed id named
    · exact first.unbound e v level closed id named
    · exact first.others id fun inside => apart inside (within e v level named)
  others := fun id outside => first.others id fun inside => outside (List.mem_append_left _ inside)
  kept := first.kept

/-- Behind levels that have taken their values, others take theirs. -/
theorem Unpacked.andThen (first : Unpacked levels held names m (.ok ()) m₁)
    (second : Unpacked levels' held' names' m₁ r m₂) (apart : names.Disjoint names')
    (stable : ∀ g g', (∀ id ∈ names, g'.get? id = g.get? id) → held g → held g')
    (within : ∀ e v, levels' e v → e.names ⊆ names') :
    Unpacked (fun e v => levels e v ∨ levels' e v) (fun g => held g ∧ held' g) (names ++ names') m
      r m₂ where
  succeeds := by
    rw [second.succeeds]
    constructor
    · rintro all e v (level | level)
      · exact first.succeeds.1 rfl e v level
      · exact all e v level
    · exact fun all e v level => all e v (.inr level)
  holds := fun succeeded => ⟨stable _ _ (fun id inside => second.others id (apart inside))
    (first.holds rfl), second.holds succeeded⟩
  refused := fun _ same =>
    let ⟨e, v, level, rest⟩ := second.refused _ same
    ⟨e, v, .inr level, rest⟩
  -- A level of the second part is closed: its names were not touched by the first one, which has
  -- others.
  unbound := by
    rintro e v (level | level) closed id named
    · exact absurd (first.succeeds.1 rfl e v level) closed
    · rw [second.unbound e v level closed id named]
      exact first.others id fun inside => apart inside (within e v level named)
  others := fun id outside => by
    rw [List.mem_append, not_or] at outside
    rw [second.others id outside.2, first.others id outside.1]
  kept := by
    rw [second.kept, first.kept]

/-- Nothing is done where every level could take its value. -/
theorem unpacked_unchanged (names : List String) (opened : ∀ e v, levels e v → Opens e v) (m : Machine) :
    Unpacked levels (fun _ => True) names m (.ok ()) m where
  succeeds := iff_of_true rfl opened
  holds := fun _ => trivial
  refused := nofun
  unbound := fun e v level closed => absurd (opened e v level) closed
  others := fun _ _ => rfl
  kept := rfl

/-- A level that cannot take its value is refused at once. -/
theorem unpacked_refused {e : Expr} {v : Value} (held : Globals → Prop) (names : List String)
    (closed : ¬ Opens e v) (m : Machine) :
    Unpacked (Level e v) held names m (.error (refusal e v)) m where
  succeeds := iff_of_false nofun fun all => closed (all e v (.top e v))
  holds := nofun
  refused := fun _ same => ⟨e, v, .top e v, closed, (Except.error.inj same).symm⟩
  unbound := fun _ _ _ _ _ _ => rfl
  others := fun _ _ => rfl
  kept := rfl

theorem unpacked_nothing (names : List String) (m : Machine) :
    Unpacked (fun _ _ => False) (fun _ => True) names m (.ok ()) m :=
  unpacked_unchanged names (fun _ _ => False.elim) m

/-- Levels and variables may be described otherwise. -/
theorem Unpacked.congr (h : Unpacked levels held names m r m₁)
    (same : ∀ e v, levels' e v ↔ levels e v) (implied : ∀ g, held g → held' g) :
    Unpacked levels' held' names m r m₁ := by
  obtain rfl : levels' = levels := funext₂ fun e v => propext (same e v)
  exact { h with holds := fun succeeded => implied _ (h.holds succeeded) }

end Runs

/-! ### Targets of a level -/

section Targets

variable {e target : Expr} {targets : List Expr} {items parts : List Value} {v : Value}

/-- Assigning to a pattern distributes the items of the value to its targets. -/
theorem assign_of_targets? (form : e.targets? = some targets) (v : Value) :
    Action.assign e v = Action.ofResult e.span v.itemsOf >>= fun items =>
      Action.ofResult e.span (Action.distribute targets items) >>= Action.assignAll targets := by
  cases e with
  | tuple | list =>
    cases form
    rw [Action.assign]
    rfl
  | _ => cases form

/-- A level that cannot take its value is refused, and nothing is changed. -/
theorem runOn_assign_of_closed (form : e.targets? = some targets)
    (single : targets.countP isStarred ≤ 1) (closed : ¬ Opens e v) (m : Machine) :
    (Action.assign e v).runOn m = (.error (refusal e v), m) := by
  rw [assign_of_targets? form, refusal, Value.itemsOf.eq_def]
  cases opened : v.items? with
  | none => rfl
  | some items =>
    have refused : ¬ Admits targets items.length := by
      intro admitted
      refine closed fun targets' form' => ?_
      cases form.symm.trans form'
      exact ⟨items, opened, admitted⟩
    change (Action.ofResult e.span (Action.distribute targets items) >>= _).runOn m = _
    rw [distribute_of_not_admits single refused, form]
    rfl

/-- Otherwise its targets take their parts. -/
theorem runOn_assign_of_takes (form : e.targets? = some targets) (opened : v.items? = some items)
    (single : targets.countP isStarred ≤ 1) (takes : Takes targets items parts) (m : Machine) :
    (Action.assign e v).runOn m = (Action.assignAll targets parts).runOn m := by
  rw [assign_of_targets? form, Value.itemsOf.eq_def, opened]
  change (Action.ofResult e.span (Action.distribute targets items) >>= _).runOn m = _
  rw [distribute_of_takes single takes]
  rfl

/-- Parts are assigned from left to right. -/
theorem assignAll_cons (target : Expr) (targets : List Expr) (part : Value) (parts : List Value) :
    Action.assignAll (target :: targets) (part :: parts) =
      Action.assign target.unstarred part >>= fun _ => Action.assignAll targets parts := by
  cases target with
  | starred => rfl
  | _ => exact Action.assignAll.eq_def ..

/-- The levels of a sequence are the whole, and the levels of the parts that its targets take. -/
theorem level_iff (form : e.targets? = some targets) (opened : v.items? = some items)
    (single : targets.countP isStarred ≤ 1) (takes : Takes targets items parts) (sub : Expr)
    (w : Value) : Level e v sub w ↔
      (sub = e ∧ w = v) ∨ ∃ p ∈ (targets.map unstarred).zip parts, Level p.1 p.2 sub w := by
  constructor
  · intro level
    cases level with
    | top => exact .inl ⟨rfl, rfl⟩
    | inner form' opened' takes' member below =>
      cases form.symm.trans form'
      cases opened.symm.trans opened'
      obtain rfl := takes.unique single takes'
      exact .inr ⟨_, member, below⟩
  · rintro (⟨rfl, rfl⟩ | ⟨p, member, below⟩)
    · exact .top _ _
    · exact .inner form opened takes member below

/-- Where targets take parts, each by itself, they do so from left to right. -/
theorem unpacked_assignAll
    (each : ∀ target ∈ targets, ∀ v m, Unpacked (Level target.unstarred v) (Holds · target.unstarred v)
      target.names m ((Action.assign target.unstarred v).runOn m).1
      ((Action.assign target.unstarred v).runOn m).2)
    (distinct : (Expr.namesIn targets).Nodup) (parts : List Value) (m : Machine) :
    Unpacked (fun e v => ∃ p ∈ (targets.map unstarred).zip parts, Level p.1 p.2 e v)
      (fun g => ∀ p ∈ (targets.map unstarred).zip parts, Holds g p.1 p.2) (Expr.namesIn targets) m
      ((Action.assignAll targets parts).runOn m).1 ((Action.assignAll targets parts).runOn m).2 := by
  induction targets generalizing parts m with
  | nil => exact (unpacked_nothing _ m).congr (by simp) (by simp)
  | cons target targets ih =>
    cases parts with
    | nil =>
      have done : Action.assignAll (target :: targets) [] = pure () := by
        cases target <;> rfl
      rw [done]
      exact (unpacked_nothing _ m).congr (by simp) (by simp)
    | cons part parts =>
      obtain ⟨here, others⟩ := List.forall_mem_cons.1 each
      rw [Expr.namesIn, List.nodup_append'] at distinct
      obtain ⟨-, distinct, apart⟩ := distinct
      have first := here part m
      rw [assignAll_cons, Action.runOn_bind, Expr.namesIn]
      simp only [List.map_cons, List.zip_cons_cons, List.exists_mem_cons_iff, List.forall_mem_cons]
      rcases ran : (Action.assign target.unstarred part).runOn m with ⟨fault | done, m₁⟩
      · rw [ran] at first
        exact first.stop apart fun _ _ => names_subset_of_level
      · rw [ran] at first
        -- the names behind the first target are others, so what it holds stays
        refine first.andThen (ih others distinct parts m₁) apart (fun g g' same holds => ?_)
          fun _ _ => names_subset_of_level
        rw [← Expr.names_unstarred] at same
        exact holds.congr same

end Targets

/-- A name takes any value. -/
theorem unpacked_name (span : Span) (id : String) (v : Value) (m : Machine) :
    Unpacked (Level (.name span id) v) (Holds · (.name span id) v) [id] m (.ok ())
      { m with globals := m.globals.set id v } := by
  have opened : ∀ e w, Level (.name span id) v e w → Opens e w := by
    intro e w level
    cases level with
    | top => exact nofun
    | inner form => cases form
  exact {
    succeeds := iff_of_true rfl opened
    holds := fun _ => .bare (by rw [Globals.get?_set, if_pos rfl])
    refused := nofun
    unbound := fun e w level closed => absurd (opened e w level) closed
    others := fun other outside => by
      rw [Globals.get?_set, if_neg fun same => outside (List.mem_singleton.2 same)]
    kept := rfl }

/-- A pattern of distinct names that can be assigned to takes any value apart, or fails at a level that
cannot take its value before a name of this level has one. -/
theorem unpacked_assign {target : Expr} (pattern : target.IsPattern)
    (accepted : checkTarget target = .ok ()) (distinct : target.names.Nodup) (v : Value) (m : Machine) :
    Unpacked (Level target v) (Holds · target v) target.names m ((Action.assign target v).runOn m).1
      ((Action.assign target v).runOn m).2 := by
  induction pattern generalizing v m with
  | bare span id => exact unpacked_name span id v m
  | @sequence e targets form each ih =>
    obtain ⟨single, accepted'⟩ := Expr.checkTarget_of_targets? form accepted
    -- A level that cannot take its value ends everything; otherwise it is passed, and the targets
    -- take their parts.
    by_cases opens : Opens e v
    · obtain ⟨items, opened, admitted⟩ := opens targets form
      obtain ⟨parts, takes⟩ := exists_takes single admitted
      rw [Expr.names_of_targets? form] at distinct ⊢
      have each' : ∀ target ∈ targets, ∀ v m, Unpacked (Level target.unstarred v)
          (Holds · target.unstarred v) target.names m
          ((Action.assign target.unstarred v).runOn m).1
          ((Action.assign target.unstarred v).runOn m).2 := by
        intro target member v m
        rw [← Expr.names_unstarred]
        exact ih target member (accepted' target member) (nodup_names distinct member) v m
      have top : Unpacked (fun sub w => sub = e ∧ w = v) (fun _ => True) [] m (.ok ()) m := by
        refine unpacked_unchanged [] ?_ m
        rintro _ _ ⟨rfl, rfl⟩
        exact opens
      rw [runOn_assign_of_takes form opened single takes]
      have whole := top.andThen (unpacked_assignAll each' distinct parts m)
        (List.disjoint_nil_left _) (fun _ _ _ _ => trivial) fun _ _ => names_subset_of_level
      exact whole.congr (level_iff form opened single takes) fun g holds =>
        .sequence form opened takes holds.2
    · rw [runOn_assign_of_closed form single opens]
      exact unpacked_refused (Holds · e v) e.names opens m

/-- The target `a, *[b, c]`. -/
def headAndTwo : Expr :=
  .tuple .none [.name .none "a", .starred .none (.list .none [.name .none "b", .name .none "c"])]

/-- A text is taken apart by `a, *[b, c]` if it has three characters. -/
theorem unpacked_assign_headAndTwo :
    headAndTwo.IsPattern ∧ checkTarget headAndTwo = .ok () ∧ headAndTwo.names.Nodup ∧
      (∃ after, (Action.assign headAndTwo (.str "xyz")).runOn ⟨⟨[]⟩, [], ""⟩ = (.ok (), after) ∧
        Holds after.globals headAndTwo (.str "xyz")) ∧
      ∃ e v, Level headAndTwo (.str "xy") e v ∧ ¬ Opens e v := by
  have pattern : headAndTwo.IsPattern := by
    refine .sequence rfl (List.forall_mem_cons.2 ⟨.bare _ _, List.forall_mem_singleton.2 ?_⟩)
    exact .sequence rfl (List.forall_mem_cons.2 ⟨.bare _ _, List.forall_mem_singleton.2 (.bare _ _)⟩)
  have accepted : checkTarget headAndTwo = .ok () := rfl
  have distinct : headAndTwo.names.Nodup := by decide
  have unpacked := unpacked_assign pattern accepted distinct
  refine ⟨pattern, accepted, distinct, ⟨_, rfl, (unpacked (.str "xyz") ⟨⟨[]⟩, [], ""⟩).holds rfl⟩, ?_⟩
  obtain ⟨e, v, level, closed, -⟩ := (unpacked (.str "xy") ⟨⟨[]⟩, [], ""⟩).refused _ rfl
  exact ⟨e, v, level, closed⟩

end Unpacking

end BlockEditor
