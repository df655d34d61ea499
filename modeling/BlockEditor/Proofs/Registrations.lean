import BlockEditor.Proofs.Validation
import Mathlib.Data.List.Nodup
import Mathlib.Data.List.Induction

/-!
# Registrations

A registry keeps its kinds as a list and, apart from it, the position of each id.  Over every
sequence of registrations the two stay in step: the last kind of each id stands where the first one
stood.
-/

namespace BlockEditor

/-! ## Registered kinds -/

/-- A kind is the last of its id among kinds in the order in which they were registered. -/
def Schema.IsCurrent (kinds : List Schema) (s : Schema) : Prop :=
  ∃ earlier later, kinds = earlier ++ s :: later ∧ ∀ t ∈ later, t.id ≠ s.id

/-- Looking from behind finds the current kind of an id. -/
theorem Schema.isCurrent_iff {kinds : List Schema} {id : String} {s : Schema} :
    kinds.reverse.find? (fun t => t.id = id) = some s ↔ s.id = id ∧ s.IsCurrent kinds := by
  rw [List.find?_eq_some_iff_append, decide_eq_true_eq]
  refine and_congr_right ?_
  rintro rfl
  constructor
  · rintro ⟨later, earlier, split, others⟩
    refine ⟨earlier.reverse, later.reverse, ?_, fun t member => ?_⟩
    · rw [← List.reverse_reverse kinds, split]
      simp
    · simpa using others t (List.mem_reverse.1 member)
  · rintro ⟨earlier, later, rfl, others⟩
    refine ⟨later.reverse, earlier.reverse, by simp, fun t member => ?_⟩
    simpa using others t (List.mem_reverse.1 member)

namespace Registry

/-- The registry that registering kinds one after the other builds. -/
def ofKinds (kinds : List Schema) : Registry := kinds.foldl register empty

@[simp] theorem ofKinds_append (first kinds : List Schema) :
    ofKinds (first ++ kinds) = kinds.foldl register (ofKinds first) := List.foldl_append

/-- A registry finds the last kind of an id. -/
theorem get?_ofKinds {kinds : List Schema} {id : String} {s : Schema} :
    (ofKinds kinds).get? id = some s ↔ s.id = id ∧ s.IsCurrent kinds := by
  have none : empty.get? id = none := by simp [get?, empty]
  rw [ofKinds, get?_foldl_register consistent_empty, none, Option.or_none, Schema.isCurrent_iff]

/-- A registry finds nothing under an id that was not registered. -/
theorem get?_ofKinds_eq_none {kinds : List Schema} {id : String} :
    (ofKinds kinds).get? id = none ↔ ∀ s ∈ kinds, s.id ≠ id := by
  have none : empty.get? id = none := by simp [get?, empty]
  rw [ofKinds, get?_foldl_register consistent_empty, none, Option.or_none]
  simp

/-! ## Index and list -/

/-- The index holds exactly the positions of the ids in the list. -/
def InStep (r : Registry) : Prop :=
  ∀ (id : String) (i : Nat), r.index[id]? = some i ↔ r.toolbox[i]? = some id

variable {r : Registry}

/-- An id is listed at a position if a kind with the id stands there. -/
theorem getElem?_toolbox (r : Registry) (i : Nat) (id : String) :
    r.toolbox[i]? = some id ↔ ∃ s, r.schemas[i]? = some s ∧ s.id = id := by
  simp [toolbox]

/-- As many ids are listed as kinds. -/
theorem length_toolbox (r : Registry) : r.toolbox.length = r.schemas.size := by simp [toolbox]

/-- A registry whose list and index are in step is consistent. -/
theorem InStep.toConsistent (inStep : r.InStep) : r.Consistent :=
  fun id i found => (r.getElem?_toolbox i id).1 ((inStep id i).1 found)

/-- It knows exactly the ids that are listed. -/
theorem InStep.contains_iff (inStep : r.InStep) (id : String) :
    r.contains id = true ↔ id ∈ r.toolbox := by
  rw [contains, Std.HashMap.contains_eq_isSome_getElem?, Option.isSome_iff_exists,
    List.mem_iff_getElem?]
  exact exists_congr (inStep id)

/-- No id stands at two positions. -/
theorem InStep.nodup (inStep : r.InStep) : r.toolbox.Nodup := by
  rw [List.nodup_iff_getElem?_ne_getElem?]
  intro i j before inside same
  have second : r.toolbox[j]? = some r.toolbox[j] := List.getElem?_eq_getElem inside
  have first := (inStep _ i).2 (same.trans second)
  rw [(inStep _ j).2 second] at first
  exact absurd (Option.some.inj first) (Nat.ne_of_gt before)

theorem inStep_empty : InStep empty := by
  intro id i
  simp [empty, toolbox]

/-- What stands in a list with one more item behind it. -/
theorem getElem?_concat_eq_some_iff {ids : List String} {last id : String} {i : Nat} :
    (ids ++ [last])[i]? = some id ↔ ids[i]? = some id ∨ i = ids.length ∧ last = id := by
  rw [List.getElem?_append]
  rcases Nat.lt_trichotomy i ids.length with inside | rfl | behind
  · simp [inside, Nat.ne_of_lt inside]
  · simp
  · have beyond : 0 < i - ids.length := by omega
    simp [Nat.not_lt_of_gt behind, Nat.ne_of_gt behind, Nat.ne_of_gt beyond]

/-- A registration leaves the index as it is, or enters the id with the position behind all others. -/
theorem index_register (r : Registry) (s : Schema) : (r.register s).index =
    if r.contains s.id then r.index else r.index.insert s.id r.schemas.size := by
  rw [contains, Std.HashMap.contains_eq_isSome_getElem?, register]
  cases r.index[s.id]? <;> rfl

/-- A registration leaves the listed ids as they are, or puts the id behind all others. -/
theorem toolbox_register (inStep : r.InStep) (s : Schema) : (r.register s).toolbox =
    if r.contains s.id then r.toolbox else r.toolbox ++ [s.id] := by
  rw [contains, Std.HashMap.contains_eq_isSome_getElem?, register]
  cases known : r.index[s.id]? with
  | none => simp [toolbox]
  | some i =>
    obtain ⟨old, here, same⟩ := inStep.toConsistent s.id i known
    -- the kind that is replaced has the same id
    refine List.ext_getElem? fun j => Option.ext fun id => ?_
    rw [getElem?_toolbox, Option.isSome_some, if_pos rfl, getElem?_toolbox,
      Array.getElem?_setIfInBounds]
    by_cases at' : i = j
    · subst at'
      have inside : i < r.schemas.size := (Array.getElem?_eq_some_iff.1 here).1
      obtain rfl : r.schemas[i] = old := (Array.getElem?_eq_some_iff.1 here).2
      simp [inside, same]
    · simp [at']

/-- A registration keeps list and index in step. -/
theorem InStep.register (inStep : r.InStep) (s : Schema) : (r.register s).InStep := by
  intro id i
  rw [index_register, toolbox_register inStep]
  by_cases known : r.contains s.id = true
  · rw [if_pos known, if_pos known]
    exact inStep id i
  · have new : r.index[s.id]? = none := by
      rwa [contains, Std.HashMap.contains_eq_isSome_getElem?, Option.not_isSome_iff_eq_none] at known
    rw [if_neg known, if_neg known, Std.HashMap.getElem?_insert, getElem?_concat_eq_some_iff,
      length_toolbox, ← inStep id i]
    by_cases same : s.id = id
    · subst same
      simp [new, eq_comm]
    · simp [same]

/-- The list and the index stay in step over any number of registrations. -/
theorem InStep.foldl_register (inStep : r.InStep) (kinds : List Schema) :
    (kinds.foldl Registry.register r).InStep := by
  induction kinds generalizing r with
  | nil => exact inStep
  | cons s kinds ih => exact ih (inStep.register s)

/-- They are in step in every registry that registrations build. -/
theorem inStep_ofKinds (kinds : List Schema) : (ofKinds kinds).InStep :=
  inStep_empty.foldl_register kinds

/-- What comes behind others counts if it is not among them. -/
theorem eraseDups_concat (ids : List String) (id : String) :
    (ids ++ [id]).eraseDups = if id ∈ ids then ids.eraseDups else ids.eraseDups ++ [id] := by
  rw [List.eraseDups_append, List.removeAll, List.filter_cons]
  by_cases earlier : id ∈ ids
  · simp [earlier]
  · simp [earlier, List.eraseDups_cons]

/-- The ids are listed in the order in which they were registered first. -/
theorem toolbox_ofKinds (kinds : List Schema) :
    (ofKinds kinds).toolbox = (kinds.map Schema.id).eraseDups := by
  induction kinds using List.reverseRecOn with
  | nil => rfl
  | append_singleton kinds s ih =>
    have inStep := inStep_ofKinds kinds
    have known : (ofKinds kinds).contains s.id = true ↔ s.id ∈ kinds.map Schema.id := by
      rw [inStep.contains_iff, ih, List.mem_eraseDups]
    rw [ofKinds_append, List.foldl_cons, List.foldl_nil, toolbox_register inStep, ih,
      List.map_append, List.map_singleton, eraseDups_concat]
    exact if_congr known rfl rfl

/-- Kinds of different ids are listed as they were registered. -/
theorem schemas_ofKinds {kinds : List Schema} (distinct : (kinds.map Schema.id).Nodup) :
    (ofKinds kinds).schemas.toList = kinds := by
  induction kinds using List.reverseRecOn with
  | nil => rfl
  | append_singleton kinds s ih =>
    rw [List.map_append, List.nodup_append] at distinct
    have new : (ofKinds kinds).index[s.id]? = none := by
      rw [← Option.not_isSome_iff_eq_none, ← Std.HashMap.contains_eq_isSome_getElem?]
      intro known
      rw [← contains, (inStep_ofKinds kinds).contains_iff, toolbox_ofKinds,
        List.mem_eraseDups] at known
      exact distinct.2.2 _ known _ (by simp) rfl
    rw [ofKinds_append, List.foldl_cons, List.foldl_nil, register, new, Array.toList_push,
      ih distinct.1]

/-- The standard registry is built by registrations of six kinds. -/
theorem exists_standard : ∃ kinds, standard = ofKinds kinds ∧ kinds.map Schema.id =
    [BlockKind.print, BlockKind.assign, BlockKind.branch, BlockKind.loop, BlockKind.number,
      BlockKind.text] :=
  ⟨_, rfl, rfl⟩

/-- It lists them as they were registered. -/
theorem standard_eq : standard = ofKinds standard.schemas.toList := by
  obtain ⟨kinds, built, ids⟩ := exists_standard
  have distinct : (kinds.map Schema.id).Nodup := by
    rw [ids]
    decide
  rw [built, schemas_ofKinds distinct]

/-! ## Records -/

/-- What a registry holds of kinds that were registered one after the other. -/
structure Records (r : Registry) (kinds : List Schema) : Prop where
  /-- No id is listed twice. -/
  distinct : r.toolbox.Nodup
  /-- The index holds exactly the positions of the listed kinds. -/
  index : ∀ (id : String) (i : Nat), r.index[id]? = some i ↔ ∃ s, r.schemas[i]? = some s ∧ s.id = id
  /-- The index knows exactly the registered ids. -/
  registered : ∀ id, r.contains id = true ↔ ∃ s ∈ kinds, s.id = id
  /-- The kind found under an id is the one that was registered last. -/
  found : ∀ id s, r.get? id = some s ↔ s.id = id ∧ s.IsCurrent kinds
  /-- Nothing is found exactly where nothing was registered. -/
  missing : ∀ id, r.get? id = none ↔ ∀ s ∈ kinds, s.id ≠ id
  /-- The ids are listed in the order of their first registration. -/
  order : r.toolbox = (kinds.map Schema.id).eraseDups

/-- A registry that registrations build records them. -/
theorem records_ofKinds (kinds : List Schema) : (ofKinds kinds).Records kinds where
  distinct := (inStep_ofKinds kinds).nodup
  index id i := (inStep_ofKinds kinds id i).trans (getElem?_toolbox _ i id)
  registered id := by
    rw [(inStep_ofKinds kinds).contains_iff, toolbox_ofKinds, List.mem_eraseDups, List.mem_map]
  found _ _ := get?_ofKinds
  missing _ := get?_ofKinds_eq_none
  order := toolbox_ofKinds kinds

/-- Whatever is registered, in a registry without kinds or with the standard ones, index and list
record it alike. -/
theorem records_registrations (kinds : List Schema) :
    (kinds.foldl register empty).Records kinds ∧
      (kinds.foldl register standard).Records (standard.schemas.toList ++ kinds) := by
  refine ⟨records_ofKinds kinds, ?_⟩
  have built : kinds.foldl register standard = ofKinds (standard.schemas.toList ++ kinds) := by
    rw [ofKinds_append, ← standard_eq]
  rw [built]
  exact records_ofKinds _

end Registry

end BlockEditor
