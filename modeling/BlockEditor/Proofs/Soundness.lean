import BlockEditor.Proofs.Cancellation
import BlockEditor.Proofs.CursorDepth
import BlockEditor.Proofs.SteppedValues

/-!
# Soundness of the machine

The machine does not break down.  In every machine that programs have been run on, no range has step
zero, and every step on such a machine ends in its domain and leaves another one.
-/

namespace BlockEditor

open Value (Stepped AllStepped)

variable {α β : Type} {P : α → Prop} {R : β → Prop}

/-- A failure is one of the program that runs, and not a breakdown. -/
def Fault.Ordinary (fault : Fault) : Prop := fault.cause ≠ .breakdown

@[simp]
theorem Fault.ordinary_iff {cause : Cause} {span : Span} :
    Fault.Ordinary ⟨cause, span⟩ ↔ cause ≠ .breakdown := Iff.rfl

/-! ## Evaluation -/

/-- No variable has a range with step zero in its value. -/
def Globals.Stepped (g : Globals) : Prop := ∀ name, ∀ v ∈ g.get? name, v.Stepped

namespace Traced

/-- A computation does not break down, and what it gives has a property. -/
def Sound (P : α → Prop) (t : Traced α) : Prop := Meets Fault.Ordinary P t.result

/-- Computations in sequence are sound if each of them is. -/
theorem Sound.bind {t : Traced α} {f : α → Traced β} (first : t.Sound P)
    (next : ∀ a, P a → (f a).Sound R) : (t >>= f).Sound R := by
  show Meets _ _ (t.bind f).result
  unfold Traced.bind Sound at *
  cases e : t.result with
  | ok a =>
    rw [e] at first
    exact next a first
  | error fault =>
    rw [e] at first
    exact first

theorem sound_pure {a : α} (h : P a) : (pure a : Traced α).Sound P := h

theorem sound_fail (cause : Cause) (span : Span) (ordinary : cause ≠ .breakdown) :
    (fail cause span : Traced α).Sound P := ordinary

/-- A sound result is sound where it is given at a place. -/
theorem sound_ofResult {r : Except Cause α} (h : BlockEditor.Sound P r) (span : Span) :
    (ofResult span r).Sound P := by
  cases r with
  | ok a => exact h
  | error cause => exact h

end Traced

/-- The value of a constant has no range in it. -/
theorem Constant.sound_value (c : Constant) : Sound Stepped c.value := by
  cases c <;> exact nofun

/-- The value of a name has only ranges with a step, if the variables have. -/
theorem Globals.Stepped.resolve {g : Globals} (h : g.Stepped) (name : String) :
    Sound Value.Stepped (g.resolve name) := by
  unfold Globals.resolve
  split
  · rename_i v e
    exact h name v e
  · split
    · exact Value.stepped_builtin _
    · simp

/-- Asking for a bound does not break down. -/
theorem Value.sound_bound (v : Value) : Sound (fun _ => True) v.bound := by
  unfold Value.bound
  split
  · exact trivial
  · split
    · exact trivial
    · simp

theorem PrintStyle.sound_adjust (style : PrintStyle) (name : Option String) (v : Value) :
    Sound (fun _ => True) (style.adjust name v) := by
  unfold PrintStyle.adjust
  dsimp only
  split
  · split
    · exact trivial
    · exact trivial
    · simp
  · split
    · exact trivial
    · exact trivial
    · simp
  · simp
  · simp

/-- A call of a function does not break down if the ranges in its arguments have steps. -/
theorem Builtin.sound_callPlain (function : Builtin) {args : List Value} (h : AllStepped args)
    (keywords : List (Keyword Expr)) : Sound Stepped (function.callPlain args keywords) := by
  unfold Builtin.callPlain
  split
  · exact function.sound_call h
  · simp

namespace Expr

open Traced

variable {g : Globals}

mutual

/-- Evaluation does not break down, and every value that it comes to on the way has only ranges with
a step. -/
theorem sound_eval (h : g.Stepped) (e : Expr) : (eval g e).Sound Stepped := by
  match e with
  | .constant span value => exact sound_ofResult value.sound_value span
  | .name span id => exact sound_ofResult (h.resolve id) span
  | .binary span left op right =>
    refine (sound_eval h left).bind fun a first => ?_
    exact (sound_eval h right).bind fun b second =>
      sound_ofResult (Value.sound_operation op first second) span
  | .unary span op operand =>
    exact (sound_eval h operand).bind fun v _ => sound_ofResult (v.sound_unaryOperation op) span
  | .logical _ op values => exact sound_evalLogical h op values
  | .compare span left links =>
    exact (sound_eval h left).bind fun a _ => sound_evalLinks h span a links
  | .conditional _ test body orelse =>
    refine (sound_eval h test).bind fun condition _ => ?_
    split
    · exact sound_eval h body
    · exact sound_eval h orelse
  | .call span func args keywords =>
    refine (sound_eval h func).bind fun callee _ => ?_
    refine (sound_evalItems h args).bind fun values each => ?_
    split
    · exact (sound_evalKeywords h span .default keywords).bind fun style _ => Value.stepped_none
    · exact sound_ofResult (Builtin.sound_callPlain _ each keywords) span
    · exact sound_fail (.typeMismatch _) span (by simp)
  | .subscript span value index =>
    have held := sound_eval h value
    have whole := sound_eval h index
    -- the bounds of a slice are evaluated one by one, any other index as a whole
    cases index with
    | slice _ lower upper step =>
      refine held.bind fun container each => ?_
      refine (sound_evalBound h lower).bind fun low _ => ?_
      refine (sound_evalBound h upper).bind fun high _ => ?_
      exact (sound_evalBound h step).bind fun by' _ =>
        sound_ofResult (Value.sound_sliceOf each low high by') span
    | _ =>
      refine held.bind fun container each => ?_
      exact whole.bind fun i _ => sound_ofResult (Value.sound_itemAt each i) span
  | .tuple _ items =>
    exact (sound_evalItems h items).bind fun values each => (Value.stepped_tuple_iff values).2 each
  | .list _ items =>
    exact (sound_evalItems h items).bind fun values each => (Value.stepped_list_iff values).2 each
  | .member .. | .slice .. | .starred .. | .set .. | .dict .. | .comprehension .. | .formatted ..
  | .lambda .. | .named .. | .yielded .. | .yieldedFrom .. | .awaited .. => exact sound_fail (.unsupported _) _ (by simp)

theorem sound_evalItems (h : g.Stepped) (es : List Expr) : (evalItems g es).Sound AllStepped := by
  match es with
  | [] => exact sound_pure AllStepped.nil
  | item :: rest =>
    have first := sound_eval h item
    have others := sound_evalItems h rest
    cases item with
    | starred _ inner =>
      refine (sound_eval h inner).bind fun v stepped => ?_
      refine (sound_ofResult (Value.sound_itemsOf stepped) inner.span).bind fun front each => ?_
      exact others.bind fun back each' => sound_pure (each.append each')
    | _ => exact first.bind fun v stepped => others.bind fun back each => sound_pure (.cons stepped each)

theorem sound_evalLogical (h : g.Stepped) (op : BoolOp) (es : List Expr) :
    (evalLogical g op es).Sound Stepped := by
  match es with
  | [] => exact sound_pure Value.stepped_none
  | [last] => exact sound_eval h last
  | operand :: next :: rest =>
    refine (sound_eval h operand).bind fun v stepped => ?_
    have others := sound_evalLogical h op (next :: rest)
    cases op with
    | and | or =>
      dsimp only
      split
      · exact sound_pure stepped
      · exact others

theorem sound_evalLinks (h : g.Stepped) (span : Span) (left : Value) (links : List (CmpOp × Expr)) :
    (evalLinks g span left links).Sound Stepped := by
  match links with
  | [] => exact sound_pure (Value.stepped_bool true)
  | (op, e) :: rest =>
    refine (sound_eval h e).bind fun right stepped => ?_
    refine (sound_ofResult (Value.sound_comparison op left stepped) span).bind fun holds _ => ?_
    split
    · exact sound_evalLinks h span right rest
    · exact sound_pure (Value.stepped_bool false)

theorem sound_evalKeywords (h : g.Stepped) (span : Span) (style : PrintStyle)
    (keywords : List (Keyword Expr)) :
    (evalKeywords g span style keywords).Sound fun _ => True := by
  match keywords with
  | [] => exact sound_pure trivial
  | ⟨keyword, value⟩ :: rest =>
    refine (sound_eval h value).bind fun v _ => ?_
    refine (sound_ofResult (style.sound_adjust keyword v) span).bind fun style _ => ?_
    exact sound_evalKeywords h span style rest

theorem sound_evalBound (h : g.Stepped) (e? : Option Expr) :
    (evalBound g e?).Sound fun _ => True := by
  match e? with
  | none => exact sound_pure trivial
  | some e => exact (sound_eval h e).bind fun v _ => sound_ofResult v.sound_bound e.span

end

end Expr

/-! ## Machines -/

namespace ItemCursor

/-- No range that a loop goes through, alone or among its items, has step zero. -/
def Stepped : ItemCursor → Prop
  | items rest => AllStepped rest
  | range _ step _ => step ≠ 0

/-- A loop begins with the items of its value, whose ranges have steps. -/
theorem sound_start {v : Value} (h : v.Stepped) : Sound ItemCursor.Stepped (start v) := by
  cases v with
  | range r => exact (Value.stepped_range_iff r).1 h
  | _ => exact (Value.sound_itemsOf h).map (f := items) fun _ each => each

/-- The next item of a loop has been among its items, or is a word. -/
theorem Stepped.next? {c c' : ItemCursor} {item : Value} (h : c.Stepped)
    (e : c.next? = some (item, c')) : item.Stepped ∧ c'.Stepped := by
  cases c with
  | items rest =>
    cases rest with
    | nil => cases e
    | cons first rest =>
      cases e
      exact List.forall_mem_cons.1 h
  | range next step remaining =>
    cases remaining with
    | zero => cases e
    | succ remaining =>
      cases e
      exact ⟨Value.stepped_int next, h⟩

end ItemCursor

/-- No range in a variable or in a loop that is under way has step zero. -/
structure Machine.Stepped (m : Machine) : Prop where
  globals : m.globals.Stepped
  cursors : ∀ c ∈ m.cursors, c.Stepped

namespace Globals.Stepped

variable {g : Globals}

/-- Variables keep their steps when one is set to such a value. -/
theorem set (h : g.Stepped) (name : String) {v : Value} (stepped : v.Stepped) :
    (g.set name v).Stepped := by
  intro other w e
  rw [get?_set] at e
  split at e
  · cases e
    exact stepped
  · exact h other w e

/-- They keep them when one is deleted. -/
theorem erase (h : g.Stepped) (name : String) : (g.erase name).Stepped := by
  intro other w e
  rw [get?_erase] at e
  split at e
  · cases e
  · exact h other w e

end Globals.Stepped

/-! ## Actions -/

namespace Action

/-- From a machine without a range with step zero, an action does not break down, what it gives has a
property, and it leaves such a machine, also where it fails. -/
def Sound (P : α → Prop) (a : Action α) : Prop :=
  ∀ m, m.Stepped → Meets Fault.Ordinary P (a.runOn m).1 ∧ (a.runOn m).2.Stepped

/-- Actions in sequence are sound if each of them is. -/
theorem Sound.bind {a : Action α} {f : α → Action β} (first : a.Sound P)
    (next : ∀ x, P x → (f x).Sound R) : (a >>= f).Sound R := by
  intro m stepped
  have ends := first m stepped
  rw [runOn_bind]
  revert ends
  rcases a.runOn m with ⟨fault | x, m'⟩
  · exact fun ends => ends
  · exact fun ends => next x ends.1 m' ends.2

theorem sound_pure {a : α} (h : P a) : (pure a : Action α).Sound P := fun _ stepped => ⟨h, stepped⟩

/-- A failure of the program is no breakdown. -/
theorem sound_throw {fault : Fault} (ordinary : fault.Ordinary) :
    (throw fault : Action α).Sound P := fun _ stepped => ⟨ordinary, stepped⟩

theorem sound_fail (cause : Cause) (span : Span) (ordinary : cause ≠ .breakdown) :
    (fail cause span : Action α).Sound P := sound_throw ordinary

/-- A sound result is sound where it is given at a place. -/
theorem sound_ofResult {r : Except Cause α} (h : BlockEditor.Sound P r) (span : Span) :
    (ofResult span r).Sound P := by
  cases r with
  | ok a => exact sound_pure h
  | error cause => exact sound_fail cause span h

/-- An action that looks at the machine and goes on. -/
theorem sound_get {f : Machine → Action α} (h : ∀ m, m.Stepped → (f m).Sound P) :
    (getThe Machine >>= f).Sound P := fun m stepped => h m stepped m stepped

theorem sound_set {m : Machine} (h : m.Stepped) :
    (set m : Action PUnit).Sound fun _ => True := fun _ _ => ⟨trivial, h⟩

/-- A change of the machine that keeps zero out of the steps is sound. -/
theorem sound_modify {f : Machine → Machine} (h : ∀ m, m.Stepped → (f m).Stepped) :
    (modify f : Action PUnit).Sound fun _ => True := fun m stepped => ⟨trivial, h m stepped⟩

theorem sound_setGlobal (name : String) {v : Value} (h : v.Stepped) :
    (setGlobal name v).Sound fun _ => True :=
  sound_modify fun _ stepped => ⟨stepped.globals.set name h, stepped.cursors⟩

theorem sound_evaluate (e : Expr) : (evaluate e).Sound Value.Stepped := by
  intro m stepped
  rw [runOn_evaluate]
  exact ⟨Expr.sound_eval stepped.globals e, stepped.globals, stepped.cursors⟩

end Action

/-! ## Elements of lists -/

namespace Value

/-- The list in which an item is to be changed, with a position in it. -/
theorem meets_elementAt {v : Value} (h : v.Stepped) (step : PathStep) :
    Meets Fault.Ordinary (fun found => AllStepped found.1) (v.elementAt step) := by
  unfold elementAt
  split
  · rename_i items
    have found := sound_listPosition step.index items.length
    split
    · rename_i at' e
      rw [if_pos (found.of_ok e)]
      exact (stepped_list_iff items).1 h
    · rename_i cause e
      exact found.of_error e
  · simp

/-- Items keep their steps when one of them is replaced. -/
theorem allStepped_set {items : List Value} (h : AllStepped items) (i : Nat) {v : Value}
    (stepped : v.Stepped) : AllStepped (items.set i v) := by
  intro w member
  rcases List.mem_or_eq_of_mem_set member with member | rfl
  · exact h w member
  · exact stepped

/-- An item of a list has only ranges with steps. -/
theorem stepped_getD {items : List Value} (h : AllStepped items) (i : Nat) :
    (items.getD i none).Stepped := by
  rw [List.getD_eq_getElem?_getD]
  cases e : items[i]? with
  | none => exact stepped_none
  | some v => exact h v (List.mem_of_getElem? e)

/-- Storing such a value in an element keeps the steps of a list. -/
theorem meets_storeAt {new : Value} (h : new.Stepped) (steps : List PathStep) {v : Value}
    (stepped : v.Stepped) : Meets Fault.Ordinary Stepped (storeAt new steps v) := by
  induction steps generalizing v with
  | nil => exact h
  | cons step steps ih =>
    refine (meets_elementAt stepped step).bind fun ⟨items, at'⟩ each => ?_
    refine (ih (stepped_getD each at')).bind fun changed stepped => ?_
    exact (stepped_list_iff _).2 (allStepped_set each at' stepped)

theorem meets_removeAt (steps : List PathStep) {v : Value} (stepped : v.Stepped) :
    Meets Fault.Ordinary Stepped (removeAt steps v) := by
  induction steps generalizing v with
  | nil => exact stepped
  | cons step steps ih =>
    cases steps with
    | nil =>
      cases v with
      | list items =>
        have found := sound_listPosition step.index items.length
        rw [removeAt]
        split
        · rename_i at' e
          rw [if_pos (found.of_ok e)]
          exact (stepped_list_iff _).2 fun w member =>
            (stepped_list_iff items).1 stepped w (List.mem_of_mem_eraseIdx member)
        · rename_i cause e
          exact found.of_error e
      | _ => exact nofun
    | cons next steps =>
      refine (meets_elementAt stepped step).bind fun ⟨items, at'⟩ each => ?_
      refine (ih (stepped_getD each at')).bind fun changed stepped => ?_
      exact (stepped_list_iff _).2 (allStepped_set each at' stepped)

end Value

/-! ## Assignment -/

namespace Action

/-- Finding the path to an element does not break down. -/
theorem sound_path (e : Expr) : (path e).Sound fun _ => True := by
  fun_induction path e with
  | case1 span id => exact sound_pure trivial
  | case2 span base index ih =>
    exact (sound_evaluate index).bind fun i _ => ih.bind fun p _ => sound_pure trivial
  | case3 e => exact sound_fail (.unsupported _) _ (by simp)

/-- A change behind a path is sound if it keeps the steps of a list. -/
theorem sound_update (p : ElementPath) {change : List PathStep → Value → Except Fault Value}
    (changes : ∀ v : Value, v.Stepped → Meets Fault.Ordinary Value.Stepped (change p.steps v)) :
    (update p change).Sound fun _ => True := by
  refine sound_get fun m stepped => ?_
  split
  · exact sound_fail (.undefinedName _) _ (by simp)
  · rename_i v e
    have ends := changes v (stepped.globals p.name v e)
    split
    · rename_i changed e
      exact sound_setGlobal p.name (ends.of_ok e)
    · rename_i fault e
      exact sound_throw (ends.of_error e)

/-- The parts of a sequence are items of it, or lists of them. -/
theorem sound_parts (targets : List Expr) {items : List Value} (h : AllStepped items) :
    BlockEditor.Sound AllStepped (distribute targets items) := by
  refine (sound_distribute targets items).mono fun parts found v member => ?_
  rcases found v member with inside | ⟨middle, rfl, inside⟩
  · exact h v inside
  · exact (Value.stepped_list_iff middle).2 fun w taken => h w (inside w taken)

mutual

/-- Assigning such a value to a target is sound. -/
theorem sound_assign (target : Expr) {v : Value} (h : v.Stepped) :
    (assign target v).Sound fun _ => True := by
  cases target with
  | name span id => exact sound_setGlobal id h
  | tuple span targets | list span targets =>
    refine (sound_ofResult (Value.sound_itemsOf h) span).bind fun items each => ?_
    refine (sound_ofResult (sound_parts targets each) span).bind fun parts each => ?_
    exact sound_assignAll targets each
  | subscript span base index =>
    exact (sound_path _).bind fun p _ =>
      sound_update p fun w stepped => Value.meets_storeAt h p.steps stepped
  | _ => exact sound_fail (.unsupported _) _ (by simp)

theorem sound_assignAll (targets : List Expr) {vs : List Value} (h : AllStepped vs) :
    (assignAll targets vs).Sound fun _ => True := by
  cases targets with
  | nil => exact sound_pure trivial
  | cons target targets =>
    cases vs with
    | nil => cases target <;> exact sound_pure trivial
    | cons v vs =>
      obtain ⟨stepped, others⟩ := List.forall_mem_cons.1 h
      cases target with
      | starred span inner =>
        exact (sound_assign inner stepped).bind fun _ _ => sound_assignAll targets others
      | _ => exact (sound_assign _ stepped).bind fun _ _ => sound_assignAll targets others

end

mutual

theorem sound_delete (target : Expr) : (delete target).Sound fun _ => True := by
  cases target with
  | name span id =>
    refine sound_get fun m stepped => ?_
    split
    · exact sound_fail (.undefinedName _) _ (by simp)
    · exact sound_set ⟨stepped.globals.erase id, stepped.cursors⟩
  | tuple span targets | list span targets => exact sound_deleteAll targets
  | subscript span base index =>
    exact (sound_path _).bind fun p _ =>
      sound_update p fun w stepped => Value.meets_removeAt p.steps stepped
  | _ => exact sound_fail (.unsupported _) _ (by simp)

theorem sound_deleteAll (targets : List Expr) : (deleteAll targets).Sound fun _ => True := by
  cases targets with
  | nil => exact sound_pure trivial
  | cons target targets => exact (sound_delete target).bind fun _ _ => sound_deleteAll targets

end

/-- So are actions in a row, if each of them is. -/
theorem sound_forM {f : α → Action Unit} (h : ∀ x, (f x).Sound fun _ => True) (xs : List α) :
    (xs.forM f).Sound fun _ => True := by
  induction xs with
  | nil => exact sound_pure trivial
  | cons x xs ih => exact (h x).bind fun _ _ => ih

/-! ## Instructions -/

/-- The next item of a loop has only ranges with steps. -/
theorem sound_nextItem : nextItem.Sound fun item? => ∀ item ∈ item?, item.Stepped := by
  refine sound_get fun m stepped => ?_
  split
  · exact sound_pure (by simp)
  · rename_i cursor rest under
    obtain ⟨first, others⟩ := List.forall_mem_cons.1 (under ▸ stepped.cursors)
    split
    · rename_i item cursor' e
      obtain ⟨visited, moved⟩ := first.next? e
      have kept : Machine.Stepped { m with cursors := cursor' :: rest } :=
        ⟨stepped.globals, List.forall_mem_cons.2 ⟨moved, others⟩⟩
      refine (sound_set kept).bind fun _ _ => sound_pure fun w same => ?_
      cases same
      exact visited
    · have kept : Machine.Stepped { m with cursors := rest } := ⟨stepped.globals, others⟩
      exact (sound_set kept).bind fun _ _ => sound_pure (by simp)

/-- Dropping the cursor of a loop keeps the others. -/
theorem sound_dropCursor : dropCursor.Sound fun _ => True :=
  sound_modify fun _ stepped =>
    ⟨stepped.globals, fun c member => stepped.cursors c (List.mem_of_mem_tail member)⟩

/-- An instruction does not break down, and keeps zero out of the steps of ranges. -/
theorem sound_step (pc : Nat) (instr : Instr) : (step pc instr).Sound fun _ => True := by
  cases instr with
  | exec e => exact (sound_evaluate e).bind fun _ _ => sound_pure trivial
  | assign targets value =>
    refine (sound_evaluate value).bind fun v stepped => ?_
    exact (sound_forM (fun target => sound_assign target stepped) targets).bind fun _ _ =>
      sound_pure trivial
  | augAssign span target op value =>
    refine (sound_evaluate target).bind fun current first => ?_
    refine (sound_evaluate value).bind fun operand second => ?_
    refine (sound_ofResult (Value.sound_operation op first second) span).bind fun v stepped => ?_
    exact (sound_assign target stepped).bind fun _ _ => sound_pure trivial
  | delete targets => exact (sound_deleteAll targets).bind fun _ _ => sound_pure trivial
  | jumpIfFalse test dest => exact (sound_evaluate test).bind fun _ _ => sound_pure trivial
  | jump dest => exact sound_pure trivial
  | iterInit e =>
    refine (sound_evaluate e).bind fun v stepped => ?_
    refine (sound_ofResult (ItemCursor.sound_start stepped) e.span).bind fun cursor moved => ?_
    refine (sound_modify fun m kept => ?_).bind fun _ _ => sound_pure trivial
    exact ⟨kept.globals, List.forall_mem_cons.2 ⟨moved, kept.cursors⟩⟩
  | iterNext target dest =>
    refine sound_nextItem.bind fun item? visited => ?_
    cases item? with
    | none => exact sound_pure trivial
    | some item =>
      exact (sound_assign target (visited item rfl)).bind fun _ _ => sound_pure trivial
  | iterPop => exact sound_dropCursor.bind fun _ _ => sound_pure trivial
  | assert span test message =>
    refine (sound_evaluate test).bind fun condition _ => ?_
    split
    · exact sound_pure trivial
    · cases message with
      | none => exact sound_fail (.assertionFailed _) span (by simp)
      | some e =>
        exact (sound_evaluate e).bind fun v _ => sound_fail (.assertionFailed _) span (by simp)
  | unsupported span construct => exact sound_fail (.unsupported _) span (by simp)

end Action

/-! ## Runs -/

/-- A run has not broken down, and leaves a machine without a range with step zero. -/
def Outcome.Sound (o : Outcome) : Prop :=
  Meets Fault.Ordinary (fun _ => True) o.result ∧ o.machine.Stepped

namespace Program

variable {p : Program} {c c' : Configuration} {o : Outcome}

/-- A step leaves a machine without a range with step zero, or ends the run without a breakdown. -/
theorem sound_step (p : Program) (h : c.machine.Stepped) :
    (∀ c', p.step c = .inl c' → c'.machine.Stepped) ∧ ∀ o, p.step c = .inr o → o.Sound := by
  unfold step
  cases get : p.get? c.pc with
  | none =>
    refine ⟨by simp, fun o e => ?_⟩
    cases e
    exact ⟨trivial, h⟩
  | some instr =>
    have ends := Action.sound_step c.pc instr c.machine h
    dsimp only
    rcases ran : (Action.step c.pc instr).runOn c.machine with ⟨fault | pc, m'⟩
    · rw [ran] at ends
      refine ⟨by simp, fun o e => ?_⟩
      cases e
      exact ends
    · rw [ran] at ends
      refine ⟨fun c' e => ?_, by simp⟩
      cases e
      exact ends.2

/-- Steps in a row keep zero out of the steps of ranges, and end without a breakdown. -/
theorem sound_advance (p : Program) (n : Nat) (h : c.machine.Stepped) :
    (∀ c', p.advance n c = .inl c' → c'.machine.Stepped) ∧
      ∀ o, p.advance n c = .inr o → o.Sound := by
  induction n generalizing c with
  | zero =>
    refine ⟨fun c' e => ?_, by simp [advance]⟩
    cases e
    exact h
  | succ n ih =>
    obtain ⟨goesOn, ends⟩ := sound_step p h
    rw [advance]
    cases s : p.step c with
    | inl c₁ => exact ih (goesOn c₁ s)
    | inr o =>
      refine ⟨by simp, fun o' e => ?_⟩
      cases e
      exact ends o s

/-- A run that is cut off reports that it was cancelled, or is complete. -/
theorem sound_interrupt (p : Program) (h : c.machine.Stepped) : (p.interrupt c).Sound := by
  unfold interrupt
  split
  · exact ⟨trivial, h⟩
  · exact ⟨by simp, h⟩

/-- A finished run has not broken down. -/
theorem sound_of_finishes {interval : Nat} {token : CancelToken} {m : Machine} (h : m.Stepped)
    (finishes : p.Finishes interval token m o) : o.Sound := by
  obtain ⟨n, e⟩ := finishes
  obtain ⟨j, ends | ⟨c', cut, rfl⟩⟩ := advance_of_polls e
  · exact (sound_advance p j (c := m.begin) h).2 o ends
  · exact sound_interrupt p ((sound_advance p j (c := m.begin) h).1 c' cut)

end Program

/-- A machine that programs have been run on, one after the other, from a fresh one. -/
inductive Machine.Used : Machine → Prop where
  | fresh : Used .fresh
  | run {p : Program} {interval : Nat} {token : CancelToken} {m : Machine} {o : Outcome}
      (before : Used m) (finishes : p.Finishes interval token m o) : Used o.machine
  | cleared {m : Machine} (before : Used m) : Used m.cleared

/-- Ranges come into a machine only with other steps than zero. -/
theorem Machine.Used.stepped {m : Machine} (used : m.Used) : m.Stepped := by
  induction used with
  | fresh => exact ⟨nofun, nofun⟩
  | run before finishes ih => exact (Program.sound_of_finishes ih finishes).2
  | cleared before ih => exact ⟨ih.globals, ih.cursors⟩

/-- The machine `m` cannot break down under the program `p`. -/
structure Program.SoundOn (p : Program) (m : Machine) : Prop where
  /-- Along the run, no range in a variable or in a loop has step zero. -/
  stepped : ∀ c, p.Reaches m c → c.machine.Stepped
  /-- Nor has one in a value that an expression, or a part of it, comes to. -/
  evaluated : ∀ c : Configuration, c.machine.Stepped → ∀ e, (Expr.eval c.machine.globals e).Sound Stepped
  /-- Where that is so, a step is made or ends the run, but does not break down. -/
  total : ∀ c : Configuration, c.machine.Stepped → ∀ o, p.step c = .inr o → o.Sound
  /-- However it is polled and cancelled, the run does not break down. -/
  ended : ∀ interval token o, p.Finishes interval token m o → o.Sound
  /-- The length of any range is reckoned without leaving the words of 128 bits. -/
  lengths : ∀ r : Range, r.checkedLength = .ok r.length
  /-- So is an element, which is not cut down when it is made a word of 64 bits. -/
  elements : ∀ (r : Range) i, i < r.length → r.checkedItem i = .ok (r.item i) ∧
    (r.item i).toInt = r.start.toInt + i * r.step.toInt

/-- No program breaks down on a machine that was used as machines are. -/
theorem Machine.Used.soundOn {m : Machine} (used : m.Used) (p : Program) : p.SoundOn m where
  stepped := fun c ⟨n, e⟩ => (Program.sound_advance p n (c := m.begin) used.stepped).1 c e
  evaluated := fun _ stepped e => Expr.sound_eval stepped.globals e
  total := fun _ stepped => (Program.sound_step p stepped).2
  ended := fun _ _ _ => Program.sound_of_finishes used.stepped
  lengths := Range.checkedLength_eq
  elements := fun _ _ inside => ⟨Range.checkedItem_eq inside, Range.toInt_item inside⟩

/-- Stores a range that counts down. -/
def Program.storesRange : Program :=
  ⟨#[.assign [.name .none "r"] (.call .none (.name .none "range")
    [.constant .none (.int 5), .constant .none (.int 0), .constant .none (.int (-2))] [])]⟩

/-- Asks for a word in the range that was stored. -/
def Program.asksRange : Program :=
  ⟨#[.exec (.compare .none (.constant .none (.int 3)) [(.isIn, .name .none "r")])]⟩

/-- The second program asks for a word in the range that the first one has stored. -/
theorem Machine.Used.soundOn_storesRange : ∃ o, Program.storesRange.Finishes 1 .never .fresh o ∧
    o.machine.globals.entries = [("r", .range ⟨5, 0, -2⟩)] ∧ Program.asksRange.SoundOn o.machine := by
  have finishes : Program.storesRange.Finishes 1 .never .fresh
      ⟨.ok (), 1, ⟨⟨[("r", .range ⟨5, 0, -2⟩)]⟩, [], ""⟩⟩ := Program.finishes_never_iff.2 ⟨2, rfl⟩
  exact ⟨_, finishes, rfl, (Machine.Used.fresh.run finishes).soundOn Program.asksRange⟩

/-- On a machine that has a range with step zero, the same program breaks down. -/
example : ((Program.asksRange.runFor 2 ⟨⟨[("r", .range ⟨5, 0, 0⟩)]⟩, [], ""⟩).result) =
    .error ⟨.breakdown, .none⟩ := rfl

end BlockEditor
